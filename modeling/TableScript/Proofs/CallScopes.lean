import TableScript.Proofs.Calls

/-!
What calls do to the scopes of their callers. Whatever a call evaluates has a scope of its own for
names that are new, one that the call or a call inside it has made; so the scopes that were there
before bind the same names afterwards, but for those that `global` assignments have bound in an
outermost scope.
-/

namespace TableScript

open Eval

/-! ### Stores before and after -/

/-- A store whose scopes are still there in another one, with the same names, when nothing has
happened that the store remembers. -/
structure Store.SameNames (s t : Store) : Prop where
  events : t.events = s.events
  size : s.frames.size ≤ t.frames.size
  binds : ∀ scope : FrameRef, scope.index < s.frames.size → ∀ name,
    (t.frame scope).binds name = (s.frame scope).binds name

/-- A store, and what has become of it by the end of some events, the latest first: its scopes are
still there, and the names they have gained are those that the events have published in them. -/
structure Store.Gained (s : Store) (during : List Event) (t : Store) : Prop where
  events : t.events = during ++ s.events
  size : s.frames.size ≤ t.frames.size
  binds : ∀ scope : FrameRef, scope.index < s.frames.size → ∀ name,
    (t.frame scope).binds name ↔
      (s.frame scope).binds name ∨ ∃ c, .published c name ∈ during ∧ c.root = scope

namespace Store.SameNames

variable {s t : Store}

theorem of_frames_eq (hframes : t.frames = s.frames) (hevents : t.events = s.events) :
    s.SameNames t where
  events := hevents
  size := Nat.le_of_eq (congrArg Array.size hframes.symm)
  binds scope _ name := by rw [frame, frame, hframes]

theorem write (s : Store) (place : Place) (value : Value) : s.SameNames (s.write place value) := by
  cases place <;> exact .of_frames_eq rfl rfl

theorem newFrame (s : Store) (frame : Frame) : s.SameNames (s.newFrame frame).2 where
  events := rfl
  size := by simp [Store.newFrame]
  binds scope hscope name := by
    simp [Store.newFrame, Store.frame, Array.getElem?_push, Nat.ne_of_lt hscope]

end Store.SameNames

namespace Store.Gained

variable {s t u : Store} {during : List Event}

theorem refl (s : Store) : s.Gained [] s where
  events := rfl
  size := Nat.le_refl _
  binds scope _ name := by simp

variable (h : s.Gained during t)

include h

theorem sameNames (htu : t.SameNames u) : s.Gained during u where
  events := htu.events.trans h.events
  size := Nat.le_trans h.size htu.size
  binds scope hscope name := by
    rw [htu.binds scope (Nat.lt_of_lt_of_le hscope h.size)]
    exact h.binds scope hscope name

theorem record {event : Event} (hevent : ∀ c name, event ≠ .published c name) :
    s.Gained (event :: during) (t.record event) where
  events := congrArg (List.cons event) h.events
  size := h.size
  binds scope hscope name := by
    have hmem : ∀ c, .published c name ∈ event :: during ↔ .published c name ∈ during := fun c =>
      List.mem_cons.trans (or_iff_right (hevent c name).symm)
    simp only [hmem]
    exact h.binds scope hscope name

/-- Binding a name is no gain for a scope that has it, and none for a scope that was not there. -/
theorem bind {ref : FrameRef} {name : String}
    (hnew : (t.frame ref).binds name ∨ s.frames.size ≤ ref.index) (value : Value) :
    s.Gained during (t.modifyFrame ref (·.bind name value)) where
  events := h.events
  size := by simpa [modifyFrame] using h.size
  binds scope hscope name' := by
    have hgain : scope = ref ∧ ref.index < t.frames.size ∧ name' = name →
        (t.frame scope).binds name' := by
      rintro ⟨rfl, -, rfl⟩
      exact hnew.resolve_right (Nat.not_le_of_lt hscope)
    rw [binds_modifyFrame, or_iff_left_of_imp hgain]
    exact h.binds scope hscope name'

/-- A `global` assignment is on record, whether or not the outermost scope has the name. -/
theorem publish (c : Context) (name : String) (value : Value) :
    s.Gained (.published c name :: during)
      ((t.setGlobal c name value).record (.published c name)) where
  events := congrArg (List.cons _) h.events
  size := by simpa [setGlobal, Store.record, modifyFrame] using h.size
  binds scope hscope name' := by
    have hset := t.binds_modifyFrame c.root scope name name' value
    have hpublished : (∃ d, .published d name' ∈ .published c name :: during ∧ d.root = scope) ↔
        (scope = c.root ∧ name' = name) ∨ ∃ d, .published d name' ∈ during ∧ d.root = scope := by
      simp only [List.mem_cons, Event.published.injEq]
      grind
    have hsize : scope = c.root → c.root.index < t.frames.size := fun hroot =>
      hroot ▸ Nat.lt_of_lt_of_le hscope h.size
    rw [hpublished]
    refine hset.trans ?_
    rw [h.binds scope hscope name']
    grind

end Store.Gained

/-- A store that has come from another one by events that are on record. -/
def Store.Confined (s t : Store) : Prop :=
  ∃ during, s.Gained during t

theorem Store.Confined.sameNames {s t u : Store} (h : s.Confined t) (htu : t.SameNames u) :
    s.Confined u := by
  obtain ⟨during, ht⟩ := h
  exact ⟨during, ht.sameNames htu⟩

/-! ### Evaluation -/

/-- The coupling of an evaluation with itself that has begun in a store. New names are for scopes made
since then. -/
def Coupling.confined (start : Store) : Coupling :=
  { Coupling.diagonal start.Confined fun _ => True with
    growable := fun ref => start.frames.size ≤ ref.index }

namespace Coupling

variable {start : Store}

theorem confined_sameNames {s t : Store} (h : start.Confined s) (hst : s.SameNames t) :
    (confined start).rel t t :=
  ⟨rfl, h.sameNames hst⟩

theorem confined_record {s t : Store} (h : (confined start).rel s t) {event : Event}
    (hevent : ∀ c name, event ≠ .published c name) :
    (confined start).rel (s.record event) (t.record event) := by
  obtain ⟨rfl, during, hs⟩ := h
  exact ⟨rfl, _, hs.record hevent⟩

theorem confined_stable : (confined start).Stable .anything Eq where
  alike := by
    rintro s _ ⟨rfl, -⟩
    exact .refl s
  newList := by
    rintro s _ ⟨rfl, hs⟩ values
    exact confined_sameNames hs (.of_frames_eq rfl rfl)
  newTable := by
    rintro s _ ⟨rfl, hs⟩ table -
    exact confined_sameNames hs (.of_frames_eq rfl rfl)
  newFunction := by
    rintro s _ ⟨rfl, hs⟩ f g hmatch
    obtain rfl := hmatch.eq
    exact confined_sameNames hs (.of_frames_eq rfl rfl)
  newFrame := by
    rintro s _ ⟨rfl, hs⟩
    exact confined_sameNames hs (.newFrame s .empty)
  newFrame_growable := by
    rintro s _ ⟨rfl, _, hs⟩
    exact hs.size
  bind := by
    rintro s _ ⟨rfl, during, hs⟩ ref name hnew value
    exact ⟨rfl, during, hs.bind hnew value⟩
  publish := by
    rintro s _ ⟨rfl, during, hs⟩ c name value
    exact ⟨rfl, _, hs.publish c name value⟩
  write := by
    rintro s _ ⟨rfl, hs⟩ place value
    exact confined_sameNames hs (.write s place value)
  called h ref args := confined_record h nofun
  keepList := by
    intro _ cell _ x y hxy
    apply keepList_invariant fun _ _ => .rfl
    · exact fun _ hs values => hs.sameNames (.of_frames_eq rfl rfl)
    · exact fun _ hs list => hs.sameNames (.of_frames_eq rfl rfl)
    · intro s hs event hcell
      refine (confined_record ⟨rfl, hs⟩ ?_).2
      rintro c name rfl
      cases hcell
    · exact hxy
  outOfFuel := trivial
  fault _ := trivial

theorem confined_runs : (confined start).Runs Eq := by
  rintro body _ rfl call call' hcall fuel c hc
  have hm : Machine.Paired (confined start) (Host.machineOf call fuel)
      (Host.machineOf call' fuel) := ⟨hcall, rfl⟩
  have hrun := Body.run_coupled confined_stable hm (fun _ _ => rfl) (fun _ _ => rfl) c hc .top
    body (Policy.anything_allows _)
  exact hrun.bind fun ending =>
    complete_coupled (fun _ => trivial) (fun _ _ _ h => confined_record h nofun) ending.2 ending.1

end Coupling

/-! ### Hosts -/

/-- Evaluations that bind no names themselves: they consist of calls, and of steps after which all
scopes have the names they had. -/
inductive Eval.Abstains (call : Value → List Value → Eval Value) : {α : Type} → Eval α → Prop where
  | own {α : Type} {x : Eval α} (hown : ∀ s : Store, s.SameNames (Outcome.store (x s))) :
      Abstains call x
  | call (callee : Value) (args : List Value) : Abstains call (call callee args)
  | bind {α β : Type} {x : Eval α} {f : α → Eval β} (hx : Abstains call x)
      (hf : ∀ a, Abstains call (f a)) : Abstains call (x >>= f)
  | catching {α : Type} {x : Eval α} {handle : Halt → Eval α} (hx : Abstains call x)
      (hhandle : ∀ halt, Abstains call (handle halt)) : Abstains call (tryCatch x handle)

/-- A host whose functions bind no names themselves, whatever the functions they call do. -/
def Host.BindsNoNames (host : Host) : Prop :=
  ∀ ref native call args, Abstains call (host.perform ref native call args)

/-- What abstains from binding names leaks none, if the calls it makes do not. -/
theorem Eval.Abstains.coupled {call : Value → List Value → Eval Value} {α : Type} {x : Eval α}
    (habstains : Abstains call x) {start : Store}
    (hcall : ∀ callee args,
      Coupled (.confined start) (.confined start) (call callee args) (call callee args)) :
    Coupled (.confined start) (.confined start) x x := by
  induction habstains with
  | own hown =>
      rintro s _ ⟨rfl, hs⟩
      exact Coupling.agree_iff.mpr
        ⟨rfl, fun _ _ => trivial, Coupling.confined_sameNames hs (hown s)⟩
  | call callee args => exact hcall callee args
  | bind _ _ hx hf => exact hx.bind hf
  | catching _ _ hx hhandle => exact hx.catching hhandle

theorem Host.BindsNoNames.keeps {host : Host} (hhost : host.BindsNoNames) (start : Store) :
    host.Keeps (.confined start) :=
  fun ref native call hcall args => (hhost ref native call args).coupled hcall

/-- Steps that change neither scopes nor events. -/
theorem Eval.Abstains.of_frames_eq {call : Value → List Value → Eval Value} {α : Type} {x : Eval α}
    (hx : ∀ s, (Outcome.store (x s)).frames = s.frames ∧ (Outcome.store (x s)).events = s.events) :
    Abstains call x :=
  .own fun s => .of_frames_eq (hx s).1 (hx s).2

theorem Host.standard_bindsNoNames : Host.standard.BindsNoNames := by
  intro ref native call args
  unfold Host.standard
  dsimp only
  split
  · exact .of_frames_eq fun s => ⟨rfl, rfl⟩
  · exact .of_frames_eq fun s => ⟨rfl, rfl⟩
  · exact .of_frames_eq fun s => ⟨rfl, rfl⟩
  · exact .of_frames_eq fun s => ⟨rfl, rfl⟩
  · split
    · refine .bind (.of_frames_eq fun s => ⟨rfl, rfl⟩) fun s => ?_
      exact .call _ _
    · exact .of_frames_eq fun s => ⟨rfl, rfl⟩
  · exact .of_frames_eq fun s => ⟨rfl, rfl⟩

/-! ### Calls -/

namespace Host

/-- Calls leak no names, at whatever time of a run they are made: after a call, however it ends and
whatever else it calls, each scope that was there before binds the names that it bound before. It has
gained only names that `global` assignments bound in it, as the outermost scope of their contexts,
during the call. -/
theorem call_leaks_no_names {host : Host} (hhost : host.BindsNoNames) (fuel : Nat) (callee : Value)
    (args : List Value) (s : Store) :
    let after := Outcome.store (host.call fuel callee args s)
    ∃ during, after.events = during ++ s.events ∧
      ∀ scope : FrameRef, scope.index < s.frames.size →
        scope.index < after.frames.size ∧ ∀ name,
          ((after.frame scope).binds name ↔
            (s.frame scope).binds name ∨ ∃ c, .published c name ∈ during ∧ c.root = scope) := by
  intro after
  have hcall := Coupling.confined_stable.call_of_keeps (hhost.keeps s) Coupling.confined_runs fuel
    callee args
  obtain ⟨-, -, -, during, hafter⟩ :=
    Coupling.agree_iff.mp (hcall s s ⟨rfl, [], Store.Gained.refl s⟩)
  exact ⟨during, hafter.events, fun scope hscope =>
    ⟨Nat.lt_of_lt_of_le hscope hafter.size, hafter.binds scope hscope⟩⟩

/-- A function that assigns a global name and one of its own, and a compiled one that has the host
call it, assigns a name of its own and fails. -/
def leakyCalls : Context × Store :=
  let (c, s) := Store.empty.newContextWith Native.all
  let (_, s) := s.newFunction ⟨some "note", ["x"], .tree
    [.global "total" (.name "x"), .assign (.name "seen") (.set (.name "x"))], c⟩
  let (_, s) := s.newFunction ⟨some "main", ["note"], .code (compileBlock
    [.access (.name "apply") [.call [.name "note", .list [.number 1]]],
      .assign (.name "last") (.set (.name "total")),
      .access (.name "fail") [.call [.name "last"]]]), c⟩
  (c, s)

theorem call_leaks_no_names_leakyCalls :
    let s := leakyCalls.2
    let outcome : Outcome Value := standard.call 9 (.function ⟨1⟩) [.function ⟨0⟩] s
    standard.BindsNoNames ∧ outcome.result.isOk = false ∧
      ["note", "total", "seen", "last"].map (s.frame ⟨0⟩).binds = [false, false, false, false] ∧
      ["note", "total", "seen", "last"].map (outcome.store.frame ⟨0⟩).binds =
        [false, true, false, false] ∧
      ∃ during, outcome.store.events = during ++ s.events ∧
        ∀ scope : FrameRef, scope.index < s.frames.size →
          scope.index < outcome.store.frames.size ∧ ∀ name,
            ((outcome.store.frame scope).binds name ↔
              (s.frame scope).binds name ∨ ∃ c, .published c name ∈ during ∧ c.root = scope) := by
  refine ⟨standard_bindsNoNames, ?_, ?_, ?_, call_leaks_no_names standard_bindsNoNames 9 _ _ _⟩
  · decide +kernel
  · decide +kernel
  · decide +kernel

end Host

end TableScript
