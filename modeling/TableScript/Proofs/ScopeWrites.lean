import TableScript.Store.Scope

/-!
What writing a name does to the scopes of a store. Scopes are shared: functions and calls have contexts
that lead through the same ones. A write changes one binding of one scope, and another context notices it
only where that scope is the nearest one to bind the name.
-/

namespace TableScript

/-- A context whose scopes are all in a store. -/
def Context.LivesIn (c : Context) (s : Store) : Prop :=
  ∀ scope ∈ c.frames, scope.index < s.frames.size

instance (c : Context) (s : Store) : Decidable (c.LivesIn s) :=
  inferInstanceAs (Decidable (∀ scope ∈ c.frames, scope.index < s.frames.size))

theorem Context.getLast?_frames (c : Context) : c.frames.getLast? = some c.root := by
  rw [frames, List.getLast?_cons, root, List.getLastD_eq_getLast?]

theorem Frame.map_fst_insert (name : String) (value : Value) (bindings : List (String × Value)) :
    (insert name value bindings).map (·.1) =
      if (bindings.lookup name).isSome then bindings.map (·.1) else bindings.map (·.1) ++ [name] := by
  induction bindings with
  | nil => rfl
  | cons binding rest ih => grind [insert]

/-- Binding a name again leaves the names as they are; a new name comes last. -/
theorem Frame.names_bind (f : Frame) (name : String) (value : Value) :
    (f.bind name value).names = if f.binds name then f.names else f.names ++ [name] :=
  map_fst_insert name value f.bindings

namespace Store

variable {s t : Store} {c d : Context} {name : String} {value : Value} {scope : FrameRef}

/-! ### The nearest scope that binds a name -/

/-- A scope of a context that binds a name when none further inside does. -/
def Nearest (s : Store) (c : Context) (name : String) (scope : FrameRef) : Prop :=
  (s.frame scope).binds name ∧ ∃ inside outside, c.frames = inside ++ scope :: outside ∧
    ∀ closer ∈ inside, ¬(s.frame closer).binds name

/-- No scope of a context binds a name. -/
def Unbound (s : Store) (c : Context) (name : String) : Prop :=
  ∀ scope ∈ c.frames, ¬(s.frame scope).binds name

theorem find?_eq_some_iff_nearest :
    (c.frames.find? fun frame => (s.frame frame).binds name) = some scope ↔
      s.Nearest c name scope := by
  simp [List.find?_eq_some_iff_append, Nearest]

theorem find?_eq_none_iff_unbound :
    (c.frames.find? fun frame => (s.frame frame).binds name) = none ↔ s.Unbound c name :=
  List.find?_eq_none

theorem nearest_or_unbound (s : Store) (c : Context) (name : String) :
    (∃ scope, s.Nearest c name scope) ∨ s.Unbound c name := by
  cases hfound : c.frames.find? fun frame => (s.frame frame).binds name with
  | none => exact .inr (find?_eq_none_iff_unbound.mp hfound)
  | some scope => exact .inl ⟨scope, find?_eq_some_iff_nearest.mp hfound⟩

theorem nearest_inner (h : (s.frame c.inner).binds name) : s.Nearest c name c.inner :=
  ⟨h, [], c.outer, rfl, by simp⟩

theorem Nearest.mem (h : s.Nearest c name scope) : scope ∈ c.frames := by
  obtain ⟨-, inside, outside, hframes, -⟩ := h
  simp [hframes]

/-! Reading and assigning find the same scope. -/

theorem Nearest.lookup_eq (h : s.Nearest c name scope) :
    s.lookup c name = (s.frame scope).get? name := by
  obtain ⟨hbinds, inside, outside, hframes, hinside⟩ := h
  obtain ⟨value, hvalue⟩ := Option.isSome_iff_exists.mp hbinds
  rw [hvalue]
  refine List.findSome?_eq_some_iff.mpr ⟨inside, scope, outside, hframes, hvalue, ?_⟩
  intro closer hcloser
  simpa [Frame.binds] using hinside closer hcloser

theorem Unbound.lookup_eq (h : s.Unbound c name) : s.lookup c name = none := by
  refine List.findSome?_eq_none_iff.mpr fun scope hscope => ?_
  simpa [Frame.binds] using h scope hscope

theorem Nearest.home_eq (h : s.Nearest c name scope) : s.home c name = scope := by
  rw [home, find?_eq_some_iff_nearest.mpr h, Option.getD_some]

theorem Unbound.home_eq (h : s.Unbound c name) : s.home c name = c.inner := by
  rw [home, find?_eq_none_iff_unbound.mpr h, Option.getD_none]

/-! ### One binding changed -/

/-- A store, and what it is after one binding of one scope has been written: the name has the value there,
in place of the one it had or as a new name, and nothing else is different. -/
structure Rebound (s : Store) (scope : FrameRef) (name : String) (value : Value) (t : Store) :
    Prop where
  scope_lt : scope.index < s.frames.size
  /-- Beside the scopes nothing differs. -/
  beside : t = { s with frames := t.frames }
  size : t.frames.size = s.frames.size
  elsewhere : ∀ other, other ≠ scope → t.frame other = s.frame other
  names : (t.frame scope).names =
    if (s.frame scope).binds name then (s.frame scope).names else (s.frame scope).names ++ [name]
  get? : ∀ other,
    (t.frame scope).get? other = if other = name then some value else (s.frame scope).get? other

theorem rebound_modifyFrame (hscope : scope.index < s.frames.size) (name : String) (value : Value) :
    s.Rebound scope name value (s.modifyFrame scope (·.bind name value)) where
  scope_lt := hscope
  beside := rfl
  size := by simp [modifyFrame]
  elsewhere other hother := by
    have hne : scope.index ≠ other.index := fun h => hother (congrArg FrameRef.mk h.symm)
    exact frame_modifyFrame_of_ne s hne _
  names := by rw [frame_modifyFrame s hscope, Frame.names_bind]
  get? other := by rw [frame_modifyFrame s hscope, Frame.get?_bind]

namespace Rebound

variable (h : s.Rebound scope name value t)

include h

theorem get?_eq (place : FrameRef) (other : String) : (t.frame place).get? other =
    if place = scope ∧ other = name then some value else (s.frame place).get? other := by
  by_cases hplace : place = scope
  · subst hplace
    simp [h.get? other]
  · simp [h.elsewhere place hplace, hplace]

theorem binds_iff (place : FrameRef) (other : String) : (t.frame place).binds other ↔
    (s.frame place).binds other ∨ place = scope ∧ other = name := by
  rw [Frame.binds, Frame.binds, h.get?_eq]
  by_cases hwritten : place = scope ∧ other = name
  · simp [hwritten]
  · simp [hwritten]

theorem binds_written : (t.frame scope).binds name :=
  (h.binds_iff scope name).mpr (.inr ⟨rfl, rfl⟩)

/-- A scope that is the nearest after the write was so before, unless it is the written one. -/
theorem nearest_before {place : FrameRef} {other : String}
    (hplace : ¬(place = scope ∧ other = name)) (hnearest : t.Nearest d other place) :
    s.Nearest d other place := by
  obtain ⟨hbinds, inside, outside, hframes, hinside⟩ := hnearest
  refine ⟨((h.binds_iff place other).mp hbinds).resolve_right hplace, inside, outside, hframes, ?_⟩
  intro closer hcloser hbefore
  exact hinside closer hcloser ((h.binds_iff closer other).mpr (.inl hbefore))

theorem unbound_before {other : String} (hunbound : t.Unbound d other) : s.Unbound d other :=
  fun place hplace hbefore => hunbound place hplace ((h.binds_iff place other).mpr (.inl hbefore))

/-- The scope that was the nearest before its binding was written still is. -/
theorem nearest_after (hnearest : s.Nearest d name scope) : t.Nearest d name scope := by
  obtain ⟨hbinds, inside, outside, hframes, hinside⟩ := hnearest
  refine ⟨h.binds_written, inside, outside, hframes, ?_⟩
  intro closer hcloser hafter
  -- The scope had the name before, which no closer one had, so the write is to none of those.
  have hne : closer ≠ scope := fun heq => hinside closer hcloser (heq ▸ hbinds)
  rw [h.elsewhere closer hne] at hafter
  exact hinside closer hcloser hafter

/-- A context reads the written value where the written scope is the nearest to bind the name. -/
theorem lookup_written (hnearest : t.Nearest d name scope) : t.lookup d name = some value := by
  rw [hnearest.lookup_eq, h.get? name, if_pos rfl]

/-- It reads something else than before only there. -/
theorem written_of_lookup_ne {other : String} (hdiffers : t.lookup d other ≠ s.lookup d other) :
    other = name ∧ t.Nearest d name scope := by
  rcases t.nearest_or_unbound d other with ⟨place, hnearest⟩ | hunbound
  · by_cases hplace : place = scope ∧ other = name
    · obtain ⟨rfl, rfl⟩ := hplace
      exact ⟨rfl, hnearest⟩
    · -- Another binding decides what is read, and it did so before.
      have hbefore := h.nearest_before hplace hnearest
      rw [hnearest.lookup_eq, hbefore.lookup_eq, h.get?_eq, if_neg hplace] at hdiffers
      exact absurd rfl hdiffers
  · rw [hunbound.lookup_eq, (h.unbound_before hunbound).lookup_eq] at hdiffers
    exact absurd rfl hdiffers

end Rebound

end Store

/-! ### Writing a name -/

/-- The ways to write a name in a context. -/
inductive ScopeWrite where
  | set
  | define
  | setGlobal
deriving DecidableEq, Repr

namespace ScopeWrite

/-- The store after a write. -/
def apply : ScopeWrite → Store → Context → String → Value → Store
  | .set => Store.set
  | .define => Store.define
  | .setGlobal => Store.setGlobal

/-- The scope that a write is for. -/
inductive Hits (s : Store) (c : Context) (name : String) : ScopeWrite → FrameRef → Prop
  | nearest {scope : FrameRef} (h : s.Nearest c name scope) : Hits s c name .set scope
  | fresh (h : s.Unbound c name) : Hits s c name .set c.inner
  | innermost : Hits s c name .define c.inner
  | last {scope : FrameRef} (h : c.frames.getLast? = some scope) : Hits s c name .setGlobal scope

variable {s : Store} {c : Context} {name : String} {write : ScopeWrite} {scope : FrameRef}

/-- There is always a scope to write to. -/
theorem exists_hits (s : Store) (c : Context) (name : String) (write : ScopeWrite) :
    ∃ scope, write.Hits s c name scope := by
  cases write with
  | set =>
      rcases s.nearest_or_unbound c name with ⟨scope, hnearest⟩ | hunbound
      · exact ⟨scope, .nearest hnearest⟩
      · exact ⟨c.inner, .fresh hunbound⟩
  | define => exact ⟨c.inner, .innermost⟩
  | setGlobal => exact ⟨c.root, .last c.getLast?_frames⟩

namespace Hits

variable (h : write.Hits s c name scope)

include h

theorem mem : scope ∈ c.frames := by
  cases h with
  | nearest hnearest => exact hnearest.mem
  | fresh hunbound => exact List.mem_cons_self
  | innermost => exact List.mem_cons_self
  | last hlast => exact List.mem_of_getLast? hlast

theorem apply_eq (value : Value) :
    write.apply s c name value = s.modifyFrame scope (·.bind name value) := by
  cases h with
  | nearest hnearest => rw [apply, Store.set, hnearest.home_eq]
  | fresh hunbound => rw [apply, Store.set, hunbound.home_eq]
  | innermost => rfl
  | last hlast =>
      obtain rfl : c.root = scope := Option.some.inj (c.getLast?_frames.symm.trans hlast)
      rfl

/-- A write that is not for the outermost scope is not hidden from the context that makes it. -/
theorem nearest_after {t : Store} {value : Value} (hwrite : write ≠ .setGlobal)
    (ht : s.Rebound scope name value t) : t.Nearest c name scope := by
  cases h with
  | nearest hnearest => exact ht.nearest_after hnearest
  | fresh hunbound => exact Store.nearest_inner ht.binds_written
  | innermost => exact Store.nearest_inner ht.binds_written
  | last hlast => exact absurd rfl hwrite

end Hits

end ScopeWrite

/-- Writing a name changes one binding in the store: for an assignment that of the name in the nearest
scope that binds it, or a new one in the innermost scope if none does; for a definition that in the
innermost scope; for a global assignment that in the last one. Whatever scopes another context shares
with the writing one, it reads the same as before, but for that name if the written scope is the first
of its own that now binds it; then it reads the new value. So does the writing context itself, unless
the write was global. -/
theorem writes_hit_one_binding {s : Store} {c : Context} (hc : c.LivesIn s) (write : ScopeWrite)
    (name : String) (value : Value) :
    let t := write.apply s c name value
    ∃ scope, write.Hits s c name scope ∧ s.Rebound scope name value t ∧
      (∀ d other, t.lookup d other ≠ s.lookup d other →
        other = name ∧ t.Nearest d name scope ∧ t.lookup d other = some value) ∧
      (∀ d, t.Nearest d name scope → t.lookup d name = some value) ∧
      (write ≠ .setGlobal → t.lookup c name = some value) := by
  intro t
  obtain ⟨scope, hhits⟩ := write.exists_hits s c name
  have ht : s.Rebound scope name value t := by
    change s.Rebound scope name value (write.apply s c name value)
    rw [hhits.apply_eq value]
    exact Store.rebound_modifyFrame (hc scope hhits.mem) name value
  refine ⟨scope, hhits, ht, ?_, fun d => ht.lookup_written, ?_⟩
  · intro d other hdiffers
    obtain ⟨rfl, hnearest⟩ := ht.written_of_lookup_ne hdiffers
    exact ⟨rfl, hnearest, ht.lookup_written hnearest⟩
  · intro hwrite
    exact ht.lookup_written (hhits.nearest_after hwrite ht)

/-- A global name that a call defines again, and two calls inside that call. -/
def sharedScopes : Store :=
  let (globals, s) := Store.empty.newContext
  let (caller, s) := (s.define globals "x" (.number 1)).enter globals
  let (_, s) := (s.define caller "x" (.number 2)).enter caller
  (s.enter caller).2

theorem writes_hit_one_binding_sharedScopes :
    let s := sharedScopes
    let globals : Context := ⟨⟨0⟩, []⟩
    let call : Context := ⟨⟨2⟩, [⟨1⟩, ⟨0⟩]⟩
    let sibling : Context := ⟨⟨3⟩, [⟨1⟩, ⟨0⟩]⟩
    let t := ScopeWrite.set.apply s call "x" (.number 3)
    call.LivesIn s ∧
      [call, sibling, globals].map (s.get · "x") = [.number 2, .number 2, .number 1] ∧
      [call, sibling, globals].map (t.get · "x") = [.number 3, .number 3, .number 1] ∧
      ∃ scope, ScopeWrite.set.Hits s call "x" scope ∧ s.Rebound scope "x" (.number 3) t ∧
        (∀ d other, t.lookup d other ≠ s.lookup d other →
          other = "x" ∧ t.Nearest d "x" scope ∧ t.lookup d other = some (.number 3)) ∧
        (∀ d, t.Nearest d "x" scope → t.lookup d "x" = some (.number 3)) ∧
        (ScopeWrite.set ≠ .setGlobal → t.lookup call "x" = some (.number 3)) := by
  have hcall : Context.LivesIn ⟨⟨2⟩, [⟨1⟩, ⟨0⟩]⟩ sharedScopes := by decide
  refine ⟨hcall, ?_, ?_, writes_hit_one_binding hcall .set "x" (.number 3)⟩
  · decide +kernel
  · decide +kernel

end TableScript
