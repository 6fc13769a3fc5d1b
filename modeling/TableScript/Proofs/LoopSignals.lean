import TableScript.Proofs.Invariant
import TableScript.Proofs.Numbering

/-!
Loop signals stay in their loops. If each `continue` and each `break` of a program stands in the
body of a loop, with no function literal between the two, then its blocks outside loops end on no such
signal; so neither the program nor a function that is called while it runs ends on one.
-/

namespace TableScript

open Eval

/-- Whether a signal is meant for a loop. -/
def Signal.forLoop : Signal → Bool
  | .none => false
  | .continue => true
  | .break => true
  | .return => false

/-- The policy of a program whose loop signals are all inside loops. -/
def Policy.signalsInLoops : Policy
  | _, .list _ => true
  | site, .continue => site.inLoop
  | site, .break => site.inLoop

/-! ### What an evaluation ends on -/

/-- An evaluation that ends on no loop signal. -/
def Eval.Quiet (x : Eval Ending) : Prop :=
  ∀ s ending t, x s = .ok ending t → ending.2.forLoop = false

namespace Eval.Quiet

variable {α : Type} {x : Eval Ending}

theorem pure {ending : Ending} (hquiet : ending.2.forLoop = false) :
    Quiet (Pure.pure ending) := by
  intro s ending' t hx
  obtain ⟨rfl, rfl⟩ := EStateM.Result.ok.inj hx
  exact hquiet

theorem throw (halt : Halt) : Quiet (MonadExcept.throw halt) := by
  intro s ending t hx
  cases hx

theorem bind {x : Eval α} {f : α → Eval Ending} (hf : ∀ a, Quiet (f a)) : Quiet (x >>= f) := by
  intro s ending t hx
  rw [bind_apply] at hx
  split at hx
  · exact hf _ _ ending t hx
  · cases hx

theorem bindEnding {f : Ending → Eval Ending} (hx : Quiet x)
    (hf : ∀ ending : Ending, ending.2.forLoop = false → Quiet (f ending)) : Quiet (x >>= f) := by
  intro s ending t hxf
  rw [bind_apply] at hxf
  split at hxf
  · rename_i first s' hfirst
    exact hf first (hx s first s' hfirst) s' ending t hxf
  · cases hxf

theorem ite {condition : Bool} {y : Eval Ending} (hx : Quiet x) (hy : Quiet y) :
    Quiet (if condition then x else y) := by
  cases condition
  · exact hy
  · exact hx

/-- A statement, and then the statements after it unless it ends on a signal. -/
theorem sequence (hx : Quiet x) {rest : Value → Eval Ending} (hrest : ∀ value, Quiet (rest value)) :
    Quiet (x >>= fun ending =>
      if ending.2 = .none then rest ending.1 else Pure.pure (ending.1, ending.2)) := by
  refine bindEnding hx fun ending hquiet => ?_
  by_cases hnone : ending.2 = .none
  · simp only [hnone, ↓reduceIte]
    exact hrest ending.1
  · simp only [hnone, ↓reduceIte]
    exact pure hquiet

end Eval.Quiet

namespace Loop

theorem proceed_quiet (ending : Ending) {next : Value → Eval Ending}
    (hnext : ∀ value, Quiet (next value)) : Quiet (proceed ending next) := by
  unfold proceed
  cases ending.2.loopStep with
  | next => exact hnext ending.1
  | exit => exact .pure rfl
  | «return» => exact .pure rfl

variable (condition : Eval Value) (body : Eval Ending)

theorem whileTrue_quiet (fuel : Nat) (last : Value) :
    Quiet (whileTrue condition body fuel last) := by
  induction fuel generalizing last with
  | zero => exact .throw _
  | succ fuel ih =>
      refine .bind fun value => .ite ?_ (.pure rfl)
      exact .bind fun ending => proceed_quiet ending ih

theorem forever_quiet (fuel : Nat) : Quiet (forever body fuel) := by
  induction fuel with
  | zero => exact .throw _
  | succ fuel ih => exact .bind fun ending => proceed_quiet ending fun _ => ih

theorem forItems_quiet (bind : Value → Value → Eval Unit) (items : List (Value × Value))
    (last : Value) : Quiet (forItems bind body items last) := by
  induction items generalizing last with
  | nil => exact .pure rfl
  | cons item items ih => exact .bind fun _ => .bind fun ending => proceed_quiet ending ih

theorem forRange_quiet (bind : Float → Eval Unit) (fuel : Nat) (range : Range) (last : Value) :
    Quiet (forRange bind body fuel range last) := by
  induction fuel generalizing range last with
  | zero => exact .throw _
  | succ fuel ih =>
      unfold forRange
      cases range.next? with
      | none => exact .pure rfl
      | some step => exact .bind fun _ => .bind fun ending => proceed_quiet ending (ih step.2)

end Loop

/-! ### Blocks outside loops -/

section Blocks

variable (m : Machine) (c : Context) {site : Site}

mutual

theorem Control.eval_quiet (hsite : site.inLoop = false) : ∀ control : Control,
    Policy.signalsInLoops.Allows (control.occurrences site) → Quiet (control.eval m c)
  | .cond branches otherwise, hallowed => by
    rw [Control.occurrences, Policy.allows_append] at hallowed
    have hotherwise := evalOtherwise_quiet hsite otherwise hallowed.2
    exact evalBranches_quiet hsite hotherwise branches hallowed.1
  -- A loop takes the signals of its body, whatever they are.
  | .while _ _, _ => Loop.whileTrue_quiet _ _ _ _
  | .loop _, _ => Loop.forever_quiet _ _
  | .forIn _ _ _ _, _ => .bind fun _ => .bind fun _ => .bind fun _ => Loop.forItems_quiet _ _ _ _
  | .forOf _ _ _ _ _, _ => .bind fun _ => .bind fun _ => .bind fun _ => .bind fun _ =>
    Loop.forRange_quiet _ _ _ _ _
  | .return _, _ => .bind fun _ => .pure rfl
  | .continue, hallowed =>
    absurd (hallowed _ (List.mem_singleton_self _)) (by simp [Policy.signalsInLoops, hsite])
  | .break, hallowed =>
    absurd (hallowed _ (List.mem_singleton_self _)) (by simp [Policy.signalsInLoops, hsite])

theorem evalOtherwise_quiet (hsite : site.inLoop = false) : ∀ otherwise : Option (List Expr),
    Policy.signalsInLoops.Allows (otherwiseOccurrences site otherwise) →
      Quiet (evalOtherwise m c otherwise)
  | none, _ => .pure rfl
  | some body, hallowed => evalBlock_quiet hsite .null body hallowed

theorem evalBranches_quiet (hsite : site.inLoop = false) {otherwise : Eval Ending}
    (hotherwise : Quiet otherwise) : ∀ branches : List (Expr × List Expr),
    Policy.signalsInLoops.Allows (branchOccurrences site branches) →
      Quiet (evalBranches m c otherwise branches)
  | [], _ => hotherwise
  | (_, body) :: branches, hallowed => by
    simp only [branchOccurrences, Policy.allows_append] at hallowed
    refine .bind fun value => .ite ?_ ?_
    · exact evalBlock_quiet hsite .null body hallowed.1.2
    · exact evalBranches_quiet hsite hotherwise branches hallowed.2

theorem evalBlock_quiet (hsite : site.inLoop = false) (last : Value) : ∀ block : List Expr,
    Policy.signalsInLoops.Allows (blockOccurrences site block) → Quiet (evalBlock m c last block)
  | [], _ => .pure rfl
  | e :: statements, hallowed => by
    rw [blockOccurrences, Policy.allows_append] at hallowed
    have hrest := fun value => evalBlock_quiet hsite value statements hallowed.2
    cases e with
    | control control => exact .sequence (Control.eval_quiet hsite control hallowed.1) hrest
    | _ => exact .bind hrest

end

mutual

theorem Flow.run_quiet (hsite : site.inLoop = false) : ∀ flow : Flow,
    Policy.signalsInLoops.Allows (flow.occurrences site) → Quiet (flow.run m c)
  | .nothing, _ => .pure rfl
  | .block body, hallowed => runSteps_quiet hsite .null body hallowed
  | .branch _ body otherwise, hallowed => by
    simp only [Flow.occurrences, Policy.allows_append] at hallowed
    refine .bind fun value => .ite ?_ ?_
    · exact runSteps_quiet hsite .null body hallowed.1.2
    · exact Flow.run_quiet hsite otherwise hallowed.2
  | .while _ _, _ => Loop.whileTrue_quiet _ _ _ _
  | .loop _, _ => Loop.forever_quiet _ _
  | .forIn _ _ _ _, _ => .bind fun _ => .bind fun _ => .bind fun _ => Loop.forItems_quiet _ _ _ _
  | .forOf _ _ _ _ _, _ => .bind fun _ => .bind fun _ => .bind fun _ => .bind fun _ =>
    Loop.forRange_quiet _ _ _ _ _
  | .return _, _ => .bind fun _ => .pure rfl
  | .continue, hallowed =>
    absurd (hallowed _ (List.mem_singleton_self _)) (by simp [Policy.signalsInLoops, hsite])
  | .break, hallowed =>
    absurd (hallowed _ (List.mem_singleton_self _)) (by simp [Policy.signalsInLoops, hsite])

theorem runSteps_quiet (hsite : site.inLoop = false) (last : Value) : ∀ steps : List Step,
    Policy.signalsInLoops.Allows (stepOccurrences site steps) → Quiet (runSteps m c last steps)
  | [], _ => .pure rfl
  | .value _ :: steps, hallowed => by
    rw [stepOccurrences, Policy.allows_append] at hallowed
    exact .bind fun value => runSteps_quiet hsite value steps hallowed.2
  | .flow flow :: steps, hallowed => by
    rw [stepOccurrences, Policy.allows_append] at hallowed
    exact .sequence (Flow.run_quiet hsite flow hallowed.1)
      fun value => runSteps_quiet hsite value steps hallowed.2

end

theorem Body.run_quiet (hsite : site.inLoop = false) (body : Body)
    (hallowed : Policy.signalsInLoops.Allows (body.occurrences site)) : Quiet (body.run m c) := by
  cases body with
  | tree block => exact evalBlock_quiet m c hsite .null block hallowed
  | code steps => exact runSteps_quiet m c hsite .null steps hallowed

end Blocks

/-! ### Whole runs -/

/-- The signal that left a function or a program, if an event is that. -/
def Event.escaped? : Event → Option Signal
  | .escaped signal => some signal
  | _ => none

/-- The signals that have left functions or programs so far. -/
def Store.escapes (s : Store) : List Signal :=
  s.events.filterMap Event.escaped?

/-- Halts other than for a signal that left a function or a program. -/
def Halt.Plain (halt : Halt) : Prop :=
  ∀ signal, halt ≠ .fault (.escapedSignal signal)

/-- The stores whose functions keep loop signals in loops, and in which the signals that escaped are
given ones. -/
def Coupling.signals (escapes : List Signal) : Coupling :=
  diagonal (fun s => s.Follows .signalsInLoops ∧ s.escapes = escapes) Halt.Plain

namespace Coupling

variable (escapes : List Signal)

theorem signals_invariant : Store.Invariant .signalsInLoops
    fun s => s.Follows .signalsInLoops ∧ s.escapes = escapes where
  follows hs := hs.1
  sameScripts hs hst := by
    refine ⟨hs.1.of_functions_eq hst.functions, ?_⟩
    rw [Store.escapes, hst.events]
    exact hs.2
  newFunction hs _ hf := ⟨hs.1.newFunction hf, hs.2⟩
  called hs _ _ := hs
  published hs _ _ := hs

theorem signals_stable : (signals escapes).Stable .signalsInLoops Policy.signalsInLoops.Shared := by
  refine diagonal_stable (signals_invariant escapes) ?_ ?_ ?_
  · intro site cell _ x y hxy
    refine keepList_invariant (fun _ _ => .rfl) (fun _ hs _ => hs) (fun _ hs _ => hs) ?_ hxy
    intro s hs event hcell
    refine ⟨hs.1, ?_⟩
    have hother : event.escaped? = none := by
      cases event <;> simp_all [Event.cell?, Event.escaped?]
    simpa [Store.escapes, Store.record, hother] using hs.2
  · intro signal hhalt
    cases hhalt
  · rintro fault hfault signal hhalt
    obtain rfl := Halt.fault.inj hhalt
    cases hfault

end Coupling

/-- A body at a place outside loops is left by no loop signal, so it is evaluated without one. -/
theorem Body.evaluate_signals (escapes : List Signal)
    {call call' : Value → List Value → Eval Value}
    (hcall : ∀ callee args,
      Coupled (.signals escapes) (.signals escapes) (call callee args) (call' callee args))
    (fuel : Nat) (c : Context) {site : Site} (hsite : site.inLoop = false) (body : Body)
    (hallowed : Policy.signalsInLoops.Allows (body.occurrences site)) :
    Coupled (.signals escapes) (.signals escapes) (body.evaluate (Host.machineOf call fuel) c)
      (body.evaluate (Host.machineOf call' fuel) c) := by
  have hrun := Body.run_shared (Coupling.signals_stable escapes) hcall fuel c trivial site body
    hallowed
  have hquiet := Body.run_quiet (Host.machineOf call fuel) c hsite body hallowed
  refine Coupled.bindKnowing (.refl _) hrun (fun ending => ending.2.forLoop = false) hquiet
    fun ending hending => ?_
  obtain ⟨value, signal⟩ := ending
  cases signal with
  | none => exact Coupled.pure value
  | «return» => exact Coupled.pure value
  | «continue» => cases hending
  | «break» => cases hending

theorem Coupling.signals_runs (escapes : List Signal) :
    (signals escapes).Runs Policy.signalsInLoops.Shared := by
  rintro l _ ⟨rfl, hallowed⟩ call call' hcall fuel c -
  exact Body.evaluate_signals escapes hcall fuel c rfl l hallowed

theorem Policy.signalsInLoops_numbered (bound : Nat) :
    Policy.signalsInLoops.Numbered .signalsInLoops bound where
  list _ _ _ _ _ := rfl
  continues _ := id
  breaks _ := id

/-- Preparing a program for an engine moves no loop signal out of its loop. -/
theorem Store.prepare_signalsInLoops (s : Store) (setup : Setup) {block : Block}
    (hblock : Policy.signalsInLoops.Allows (blockOccurrences .top block)) :
    Policy.signalsInLoops.Allows ((s.prepare setup block).1.occurrences .top) := by
  have hsteps : Policy.signalsInLoops.Allows (stepOccurrences .top (compileBlock block)) := by
    rwa [occurrences_compileBlock]
  obtain ⟨engine, keepLists⟩ := setup
  cases engine with
  | interpreter => exact hblock
  | compiler =>
      cases keepLists with
      | false => exact hsteps
      | true => exact s.addCells_allowed (Policy.signalsInLoops_numbered _) hsteps

namespace Host

variable {host : Host}

/-- A host that raises no loop signal by itself: its functions end on the fault of one only if a
call they make does. -/
def RaisesNoSignal (host : Host) : Prop :=
  ∀ escapes, host.Respects (.signals escapes)

theorem standard_raisesNoSignal : standard.RaisesNoSignal := fun escapes =>
  (Coupling.signals_stable escapes).standard_respects fun _ _ h _ => ⟨by rw [h.1], h.2⟩

/-- A program whose loop signals are all inside loops, in a store whose functions are like that too,
never ends on a loop signal, on either engine, and neither does any function that is called while it
runs, even if a host function hides the fault. -/
theorem signals_stay_in_loops (hhost : host.RaisesNoSignal) (setup : Setup) {block : Block}
    (hblock : Policy.signalsInLoops.Allows (blockOccurrences .top block)) (c : Context) {s : Store}
    (hs : s.Follows .signalsInLoops) (fuel : Nat) :
    let start := s.prepare setup block
    let outcome : Outcome Value := host.run fuel start.1 c start.2
    (∀ signal, outcome.result ≠ .error (.fault (.escapedSignal signal))) ∧
      outcome.store.escapes = s.escapes ∧ outcome.store.Follows .signalsInLoops := by
  intro start outcome
  have hK := Coupling.signals_stable s.escapes
  have hcall := hK.call (hhost s.escapes) (Coupling.signals_runs s.escapes) fuel
  have hrun := Body.evaluate_signals s.escapes hcall fuel c rfl start.1
    (s.prepare_signalsInLoops setup hblock)
  have hstart : start.2.Follows .signalsInLoops ∧ start.2.escapes = s.escapes := by
    rw [Store.escapes, s.prepare_events]
    exact ⟨hs.of_functions_eq (s.prepare_functions setup block), rfl⟩
  obtain ⟨hhalts, hallowed, hescapes⟩ := Coupling.diagonal_kept hrun hstart
  exact ⟨fun signal hresult => hhalts _ hresult signal rfl, hescapes, hallowed⟩

/-- A function that leaves a loop early, called by a host function. -/
def searchProgram : Block :=
  [.function (some "search") ["items", "wanted"]
      [.assign (.name "place") (.set (.number 0)),
        .control (.forIn "item" none (.name "items")
          [.control (.cond [(.compare (.name "item") [(.equal, .name "wanted")],
            [.control .break])] none),
            .assign (.name "place") .increment]),
        .control (.return (some (.name "place")))],
    .access (.name "apply") [.call [.name "search",
      .list [.list [.number 4, .number 5, .number 6], .number 5]]]]

theorem signals_stay_in_loops_searchProgram :
    let context := Store.empty.newContextWith Native.all
    let start := context.2.prepare ⟨.compiler, true⟩ searchProgram
    let outcome : Outcome Value := standard.run 9 start.1 context.1 start.2
    standard.RaisesNoSignal ∧ Policy.signalsInLoops.Allows (blockOccurrences .top searchProgram) ∧
      context.2.Follows .signalsInLoops ∧ outcome.result.toOption = some (.number 1) ∧
      (∀ signal, outcome.result ≠ .error (.fault (.escapedSignal signal))) ∧
      outcome.store.escapes = context.2.escapes ∧ outcome.store.Follows .signalsInLoops := by
  have hblock : Policy.signalsInLoops.Allows (blockOccurrences .top searchProgram) := by
    decide +kernel
  have hcontext : (Store.empty.newContextWith Native.all).2.Follows .signalsInLoops :=
    .of_no_functions rfl
  refine ⟨standard_raisesNoSignal, hblock, hcontext, ?_,
    signals_stay_in_loops standard_raisesNoSignal ⟨.compiler, true⟩ hblock _ hcontext 9⟩
  decide +kernel

-- Where a `break` has no loop around it, the signal does leave the program.
example :
    let context := Store.empty.newContextWith Native.all
    let outcome : Outcome Value := standard.run 9 (.tree [.control .break]) context.1 context.2
    outcome.store.escapes = [.break] := by
  decide +kernel

end Host

end TableScript
