import TableScript.Proofs.Calls

/-!
Invariants of evaluation. What holds of a store and is kept by every single operation is kept by
every evaluation: an invariant is a coupling of a store with itself. The invariants here say something
of the functions, the cells and the events of a store, so most operations keep them anyway.
-/

namespace TableScript

open Eval

/-- All functions of a store follow a policy. -/
def Store.Follows (s : Store) (policy : Policy) : Prop :=
  ∀ ref f, s.function? ref = some f → policy.Allows (f.body.occurrences .function)

/-- A body that follows a policy, on both sides. -/
def Policy.Shared (policy : Policy) (l r : Body) : Prop :=
  l = r ∧ policy.Allows (l.occurrences .function)

theorem Closure.Matches.eq_of_shared {policy : Policy} {f g : Closure}
    (hmatch : f.Matches policy.Shared g) :
    f = g ∧ policy.Allows (f.body.occurrences .function) := by
  obtain ⟨hname, hparams, hcontext, hbody, hallowed⟩ := hmatch
  refine ⟨?_, hallowed⟩
  cases f
  cases g
  simp_all only

/-- Two stores with the same functions, cells and events. No list has been taken back. -/
structure Store.SameScripts (s t : Store) : Prop where
  functions : t.functions = s.functions
  cells : t.cells = s.cells
  events : t.events = s.events
  lists : s.lists.size ≤ t.lists.size

/-- What holds of a store after an operation if it holds before, literals with a cell apart. -/
structure Store.Invariant (policy : Policy) (holds : Store → Prop) : Prop where
  follows : ∀ {s}, holds s → s.Follows policy
  sameScripts : ∀ {s t}, holds s → s.SameScripts t → holds t
  newFunction : ∀ {s}, holds s → ∀ {f : Closure},
    policy.Allows (f.body.occurrences .function) → holds (s.newFunction f).2
  called : ∀ {s}, holds s → ∀ ref args, holds (s.record (.called ref args))
  published : ∀ {s}, holds s → ∀ c name, holds (s.record (.published c name))

theorem Store.newList_sameScripts (s : Store) (values : Array Value) :
    s.SameScripts (s.newList values).2 :=
  ⟨rfl, rfl, rfl, by simp [newList]⟩

theorem Store.write_sameScripts (s : Store) (place : Place) (value : Value) :
    s.SameScripts (s.write place value) := by
  cases place <;> exact ⟨rfl, rfl, rfl, by simp [write, modifyList, modifyTable]⟩

theorem Store.Follows.of_no_functions {s : Store} {policy : Policy} (hnone : s.functions = #[]) :
    s.Follows policy := by
  intro ref f hf
  simp [Store.function?, hnone] at hf

/-- A new function follows the policy of the others if its body does. -/
theorem Store.Follows.newFunction {s : Store} {policy : Policy} (hs : s.Follows policy)
    {f : Closure} (hf : policy.Allows (f.body.occurrences .function)) :
    (s.newFunction f).2.Follows policy := by
  intro ref g hg
  simp only [Store.newFunction, Store.function?, Array.getElem?_push] at hg
  split at hg
  · obtain rfl := Option.some.inj hg
    exact hf
  · exact hs ref g hg

theorem Store.Follows.of_functions_eq {s t : Store} {policy : Policy} (hs : s.Follows policy)
    (hfunctions : t.functions = s.functions) : t.Follows policy := by
  intro ref f hf
  apply hs ref f
  rwa [Store.function?, hfunctions] at hf

variable {policy : Policy} {holds : Store → Prop} {halts : Halt → Prop}

theorem Store.Alike.of_follows {s : Store} (hs : s.Follows policy) : s.Alike policy.Shared s :=
  .of_bodies fun ref f hf => ⟨rfl, hs ref f hf⟩

/-- An invariant is a stable coupling if literals with a cell keep it too. -/
theorem Coupling.diagonal_stable (hinvariant : Store.Invariant policy holds)
    (hkeepList : ∀ {site cell}, policy site (.list (some cell)) → ∀ {x y},
      Coupled (diagonal holds halts) (diagonal holds halts) x y →
      Coupled (diagonal holds halts) (diagonal holds halts) (keepList cell x) (keepList cell y))
    (houtOfFuel : halts .outOfFuel)
    (hfault : ∀ {fault : Fault}, fault.isEscape = false → halts (.fault fault)) :
    (diagonal holds halts).Stable policy policy.Shared where
  alike := by
    rintro s _ ⟨rfl, hs⟩
    exact .of_follows (hinvariant.follows hs)
  newList := by
    rintro s _ ⟨rfl, hs⟩ values
    exact ⟨rfl, hinvariant.sameScripts hs (s.newList_sameScripts values)⟩
  newTable := by
    rintro s _ ⟨rfl, hs⟩ table _
    exact ⟨rfl, hinvariant.sameScripts hs ⟨rfl, rfl, rfl, Nat.le_refl _⟩⟩
  newFunction := by
    rintro s _ ⟨rfl, hs⟩ f g hmatch
    obtain ⟨rfl, hallowed⟩ := hmatch.eq_of_shared
    exact ⟨rfl, hinvariant.newFunction hs hallowed⟩
  newFrame := by
    rintro s _ ⟨rfl, hs⟩
    exact ⟨rfl, hinvariant.sameScripts hs ⟨rfl, rfl, rfl, Nat.le_refl _⟩⟩
  newFrame_growable _ := trivial
  bind := by
    rintro s _ ⟨rfl, hs⟩ ref name _ value
    exact ⟨rfl, hinvariant.sameScripts hs ⟨rfl, rfl, rfl, Nat.le_refl _⟩⟩
  publish := by
    rintro s _ ⟨rfl, hs⟩ c name value
    have hset : s.SameScripts (s.setGlobal c name value) := ⟨rfl, rfl, rfl, Nat.le_refl _⟩
    exact ⟨rfl, hinvariant.published (hinvariant.sameScripts hs hset) c name⟩
  write := by
    rintro s _ ⟨rfl, hs⟩ place value
    exact ⟨rfl, hinvariant.sameScripts hs (s.write_sameScripts place value)⟩
  called := by
    rintro s _ ⟨rfl, hs⟩ ref args
    exact ⟨rfl, hinvariant.called hs ref args⟩
  keepList := hkeepList
  outOfFuel := houtOfFuel
  fault := hfault

/-- A body that follows the policy at some site runs under a coupling that its functions share. -/
theorem Body.run_shared {K : Coupling} (hK : K.Stable policy policy.Shared)
    {call call' : Value → List Value → Eval Value}
    (hcall : ∀ callee args, Coupled K K (call callee args) (call' callee args)) (fuel : Nat)
    (c : Context) (hc : K.growable c.inner) (site : Site) (body : Body)
    (hallowed : policy.Allows (body.occurrences site)) :
    Coupled K K (body.run (Host.machineOf call fuel) c)
      (body.run (Host.machineOf call' fuel) c) := by
  have hm : Machine.Paired K (Host.machineOf call fuel) (Host.machineOf call' fuel) := ⟨hcall, rfl⟩
  exact Body.run_coupled hK hm (fun _ hblock => ⟨rfl, hblock⟩) (fun _ hsteps => ⟨rfl, hsteps⟩)
    c hc site body hallowed

section Evaluation

variable (hK : (Coupling.diagonal holds fun _ => True).Stable policy policy.Shared)
variable (hescaped : ∀ {s}, holds s → ∀ signal, holds (s.record (.escaped signal)))

include hK hescaped

/-- A body that follows the policy keeps an invariant which bears that a signal escapes. -/
theorem Coupling.diagonal_evaluate {call call' : Value → List Value → Eval Value}
    (hcall : ∀ callee args, Coupled (diagonal holds fun _ => True) (diagonal holds fun _ => True)
      (call callee args) (call' callee args)) (fuel : Nat) (c : Context) (site : Site) (body : Body)
    (hallowed : policy.Allows (body.occurrences site)) :
    Coupled (diagonal holds fun _ => True) (diagonal holds fun _ => True)
      (body.evaluate (Host.machineOf call fuel) c) (body.evaluate (Host.machineOf call' fuel) c) := by
  have hrun := Body.run_shared hK hcall fuel c trivial site body hallowed
  refine hrun.bind fun ending => complete_coupled (fun _ => trivial) ?_ ending.2 ending.1
  rintro signal s _ ⟨rfl, hs⟩
  exact ⟨rfl, hescaped hs signal⟩

theorem Coupling.diagonal_runs : (diagonal holds fun _ => True).Runs policy.Shared := by
  rintro body _ ⟨rfl, hallowed⟩ call call' hcall fuel c -
  exact diagonal_evaluate hK hescaped hcall fuel c .function body hallowed

end Evaluation

/-- What a run does to an invariant: it is kept, and only the halts allowed for happen. -/
theorem Coupling.diagonal_kept {α : Type} {x : Eval α} {s : Store}
    (hx : Coupled (diagonal holds halts) (diagonal holds halts) x x) (hs : holds s) :
    (∀ halt, Outcome.result (x s) = .error halt → halts halt) ∧ holds (Outcome.store (x s)) := by
  obtain ⟨_, hhalts, _, hstore⟩ := Coupling.agree_iff.mp (hx s s ⟨rfl, hs⟩)
  exact ⟨hhalts, hstore⟩

end TableScript
