import TableScript.Proofs.Primitive

/-!
Evaluation is uniform: it does to related stores what its primitive operations do. So whatever a
stable coupling says holds for every expression, every piece of code and every call, as long as it
holds for the bodies of functions and for what the host does.
-/

-- The theorems of a mutual block share their hypotheses, whichever of them a single one needs.
set_option linter.unusedSectionVars false

namespace TableScript

open Eval

/-- Two machines with as much fuel, whose calls are coupled. -/
structure Machine.Paired (K : Coupling) (m m' : Machine) : Prop where
  call : ∀ callee args, Coupled K K (m.call callee args) (m'.call callee args)
  fuel : m.fuel = m'.fuel

variable {K : Coupling} {policy : Policy} {bodies : Body → Body → Prop} {m m' : Machine}
variable {c : Context}

section Trees

variable (hK : K.Stable policy bodies) (hm : Machine.Paired K m m')
variable (hbody : ∀ block, policy.Allows (blockOccurrences .function block) →
  bodies (m.body block) (m'.body block))
variable (hc : K.growable c.inner)

include hK hm hbody hc

mutual

theorem Expr.eval_coupled (site : Site) :
    ∀ e : Expr, policy.Allows (e.occurrences site) → Coupled K K (e.eval m c) (e.eval m' c)
  | .null, _ => Coupled.pure _
  | .bool _, _ => Coupled.pure _
  | .number _, _ => Coupled.pure _
  | .string _, _ => Coupled.pure _
  | .name name, _ => hK.load c name
  | .list elements, hallowed => by
    rw [Expr.occurrences, Policy.allows_append] at hallowed
    exact (evalAll_coupled site elements hallowed.1).bind hK.makeList
  | .table entries, hallowed =>
    (evalEntries_coupled site .empty entries hallowed).bindKnowing (.refl K) Table.Sound
      (evalEntries_sound m c .empty entries) fun _ htable => hK.makeTable htable
  | .function name params body, hallowed => hK.makeFunction ⟨rfl, rfl, rfl, hbody body hallowed⟩ hc
  | .unary op operand, hallowed =>
    (Expr.eval_coupled site operand hallowed).bind fun value =>
      hK.ofExcept (op.apply_plain value)
  | .or first rest, hallowed => by
    rw [Expr.occurrences, Policy.allows_append] at hallowed
    refine (Expr.eval_coupled site first hallowed.1).bind fun value => ?_
    exact Coupled.ite (Coupled.pure value) (evalOr_coupled site rest hallowed.2)
  | .and first rest, hallowed => by
    rw [Expr.occurrences, Policy.allows_append] at hallowed
    refine (Expr.eval_coupled site first hallowed.1).bind fun value => ?_
    exact Coupled.ite (evalAnd_coupled site value rest hallowed.2) (Coupled.pure _)
  | .compare first rest, hallowed => by
    rw [Expr.occurrences, Policy.allows_append] at hallowed
    exact (Expr.eval_coupled site first hallowed.1).bind fun value =>
      evalCompare_coupled site value rest hallowed.2
  | .add first rest, hallowed => by
    rw [Expr.occurrences, Policy.allows_append] at hallowed
    exact (Expr.eval_coupled site first hallowed.1).bind fun value =>
      evalAdd_coupled site value rest hallowed.2
  | .mul first rest, hallowed => by
    rw [Expr.occurrences, Policy.allows_append] at hallowed
    exact (Expr.eval_coupled site first hallowed.1).bind fun value =>
      evalMul_coupled site value rest hallowed.2
  | .access target chain, hallowed => by
    rw [Expr.occurrences, Policy.allows_append] at hallowed
    exact (Expr.eval_coupled site target hallowed.1).bind fun value =>
      evalChain_coupled site value chain hallowed.2
  | .assign target update, hallowed => by
    rw [Expr.occurrences, Policy.allows_append] at hallowed
    exact Target.assign_coupled site
      (fun hcurrent => Update.eval_coupled site hcurrent update hallowed.2) target hallowed.1
  | .global name value, hallowed =>
    (Expr.eval_coupled site value hallowed).bind (hK.storeGlobal c name)
  | .control control, hallowed =>
    (Control.eval_coupled site control hallowed).bind fun ending => Coupled.pure ending.1

theorem evalAll_coupled (site : Site) :
    ∀ es : List Expr, policy.Allows (allOccurrences site es) →
      Coupled K K (evalAll m c es) (evalAll m' c es)
  | [], _ => Coupled.pure _
  | e :: es, hallowed => by
    rw [allOccurrences, Policy.allows_append] at hallowed
    refine (Expr.eval_coupled site e hallowed.1).bind fun value => ?_
    exact (evalAll_coupled site es hallowed.2).bind fun values => Coupled.pure _

theorem evalEntries_coupled (site : Site) (table : Table) :
    ∀ entries : List Entry, policy.Allows (entryOccurrences site entries) →
      Coupled K K (evalEntries m c table entries) (evalEntries m' c table entries)
  | [], _ => Coupled.pure _
  | .named name value :: entries, hallowed => by
    rw [entryOccurrences, Policy.allows_append] at hallowed
    refine (Expr.eval_coupled site value hallowed.1).bind fun value => ?_
    exact evalEntries_coupled site _ entries hallowed.2
  | .computed key value :: entries, hallowed => by
    rw [entryOccurrences, Policy.allows_append, Policy.allows_append] at hallowed
    refine (Expr.eval_coupled site key hallowed.1.1).bind fun key => ?_
    refine (hK.ofExcept (Key.ofValue_plain key)).bind fun key => ?_
    refine (Expr.eval_coupled site value hallowed.1.2).bind fun value => ?_
    exact evalEntries_coupled site _ entries hallowed.2

theorem evalOr_coupled (site : Site) :
    ∀ es : List Expr, policy.Allows (allOccurrences site es) →
      Coupled K K (evalOr m c es) (evalOr m' c es)
  | [], _ => Coupled.pure _
  | e :: es, hallowed => by
    rw [allOccurrences, Policy.allows_append] at hallowed
    refine (Expr.eval_coupled site e hallowed.1).bind fun value => ?_
    exact Coupled.ite (Coupled.pure value) (evalOr_coupled site es hallowed.2)

theorem evalAnd_coupled (site : Site) (last : Value) :
    ∀ es : List Expr, policy.Allows (allOccurrences site es) →
      Coupled K K (evalAnd m c last es) (evalAnd m' c last es)
  | [], _ => Coupled.pure _
  | e :: es, hallowed => by
    rw [allOccurrences, Policy.allows_append] at hallowed
    refine (Expr.eval_coupled site e hallowed.1).bind fun value => ?_
    exact Coupled.ite (evalAnd_coupled site value es hallowed.2) (Coupled.pure _)

theorem evalCompare_coupled (site : Site) (left : Value) :
    ∀ es : List (CompareOp × Expr), policy.Allows (compareOccurrences site es) →
      Coupled K K (evalCompare m c left es) (evalCompare m' c left es)
  | [], _ => Coupled.pure _
  | (op, e) :: es, hallowed => by
    rw [compareOccurrences, Policy.allows_append] at hallowed
    refine (Expr.eval_coupled site e hallowed.1).bind fun right => ?_
    exact (hK.ofExcept (op.apply_plain left right)).bind fun value =>
      evalCompare_coupled site value es hallowed.2

theorem evalAdd_coupled (site : Site) (left : Value) :
    ∀ es : List (AddOp × Expr), policy.Allows (addOccurrences site es) →
      Coupled K K (evalAdd m c left es) (evalAdd m' c left es)
  | [], _ => Coupled.pure _
  | (op, e) :: es, hallowed => by
    rw [addOccurrences, Policy.allows_append] at hallowed
    refine (Expr.eval_coupled site e hallowed.1).bind fun right => ?_
    exact (hK.addOp op left right).bind fun value => evalAdd_coupled site value es hallowed.2

theorem evalMul_coupled (site : Site) (left : Value) :
    ∀ es : List (MulOp × Expr), policy.Allows (mulOccurrences site es) →
      Coupled K K (evalMul m c left es) (evalMul m' c left es)
  | [], _ => Coupled.pure _
  | (op, e) :: es, hallowed => by
    rw [mulOccurrences, Policy.allows_append] at hallowed
    refine (Expr.eval_coupled site e hallowed.1).bind fun right => ?_
    exact (hK.ofExcept (op.apply_plain left right)).bind fun value =>
      evalMul_coupled site value es hallowed.2

theorem evalChain_coupled (site : Site) (value : Value) :
    ∀ chain : List Accessor, policy.Allows (chainOccurrences site chain) →
      Coupled K K (evalChain m c value chain) (evalChain m' c value chain)
  | [], _ => Coupled.pure _
  | .index index :: chain, hallowed => by
    rw [chainOccurrences, Policy.allows_append] at hallowed
    refine (Expr.eval_coupled site index hallowed.1).bind fun index => ?_
    exact (hK.index value index).bind fun part => evalChain_coupled site part chain hallowed.2
  | .member name :: chain, hallowed =>
    (hK.member value name).bind fun part => evalChain_coupled site part chain hallowed
  | .call args :: chain, hallowed => by
    rw [chainOccurrences, Policy.allows_append] at hallowed
    refine (evalAll_coupled site args hallowed.1).bind fun args => ?_
    exact (hm.call value args).bind fun result =>
      evalChain_coupled site result chain hallowed.2

theorem Target.assign_coupled (site : Site) {revise revise' : Revision}
    (hrevise : ∀ {x y}, Coupled K K x y → Coupled K K (revise x) (revise' y)) :
    ∀ target : Target, policy.Allows (target.occurrences site) →
      Coupled K K (target.assign m c revise) (target.assign m' c revise')
  | .name name, _ => (hrevise (hK.load c name)).bind (hK.store hc name)
  | .index container index, hallowed => by
    rw [Target.occurrences, Policy.allows_append] at hallowed
    refine (Expr.eval_coupled site container hallowed.1).bind fun container => ?_
    refine (Expr.eval_coupled site index hallowed.2).bind fun index => ?_
    exact (hrevise (hK.index container index)).bind (hK.storeIndex container index)
  | .member container name, hallowed => by
    refine (Expr.eval_coupled site container hallowed).bind fun container => ?_
    exact (hrevise (hK.member container name)).bind (hK.storeMember container name)

theorem Update.eval_coupled (site : Site) {current current' : Eval Value}
    (hcurrent : Coupled K K current current') :
    ∀ update : Update, policy.Allows (update.occurrences site) →
      Coupled K K (update.eval m c current) (update.eval m' c current')
  | .set value, hallowed => Expr.eval_coupled site value hallowed
  | .addTo value, hallowed =>
    hcurrent.bind fun left => (Expr.eval_coupled site value hallowed).bind (hK.add left)
  | .subFrom value, hallowed =>
    hcurrent.bind fun left => (Expr.eval_coupled site value hallowed).bind fun right =>
      hK.ofExcept (subtract_plain left right)
  | .increment, _ => hcurrent.bind fun left => hK.add left (.number 1.0)
  | .decrement, _ => hcurrent.bind fun left => hK.ofExcept (subtract_plain left (.number 1.0))

theorem Control.eval_coupled (site : Site) :
    ∀ control : Control, policy.Allows (control.occurrences site) →
      Coupled K K (control.eval m c) (control.eval m' c)
  | .cond branches otherwise, hallowed => by
    rw [Control.occurrences, Policy.allows_append] at hallowed
    exact evalBranches_coupled site (evalOtherwise_coupled site otherwise hallowed.2) branches
      hallowed.1
  | .while condition body, hallowed => by
    rw [Control.occurrences, Policy.allows_append] at hallowed
    rw [Control.eval, Control.eval, hm.fuel]
    exact hK.whileTrue (Expr.eval_coupled site.condition condition hallowed.1)
      (evalBlock_coupled .loopBody .null body hallowed.2) m'.fuel .null
  | .loop body, hallowed => by
    rw [Control.eval, Control.eval, hm.fuel]
    exact hK.forever (evalBlock_coupled .loopBody .null body hallowed) m'.fuel
  | .forIn value key items body, hallowed => by
    rw [Control.occurrences, Policy.allows_append] at hallowed
    refine (Expr.eval_coupled site items hallowed.1).bind fun container => ?_
    refine hK.askingThen (·.items container) (fun _ _ hst => (hK.alike hst).items_eq container)
      (fun s => s.items_plain container) fun items => ?_
    exact Coupling.Stable.forItems (hK.bindItem hc value key)
      (evalBlock_coupled .loopBody .null body hallowed.2) items .null
  | .forOf counter start stop step body, hallowed => by
    simp only [Control.occurrences, Policy.allows_append] at hallowed
    obtain ⟨⟨⟨hstart, hstop⟩, hstep⟩, hloop⟩ := hallowed
    rw [Control.eval, Control.eval, hm.fuel]
    refine (Expr.eval_coupled site start hstart).bind fun start => ?_
    refine (Expr.eval_coupled site stop hstop).bind fun stop => ?_
    refine (evalOption_coupled site step hstep).bind fun step => ?_
    refine (hK.ofExcept (Range.ofValues_plain start stop step)).bind fun range => ?_
    exact hK.forRange (hK.bindCounter hc counter)
      (evalBlock_coupled .loopBody .null body hloop) m'.fuel range .null
  | .return value, hallowed =>
    (evalOption_coupled site value hallowed).bind fun value => Coupled.pure _
  | .continue, _ => Coupled.pure _
  | .break, _ => Coupled.pure _

theorem evalOption_coupled (site : Site) :
    ∀ e : Option Expr, policy.Allows (optionOccurrences site e) →
      Coupled K K (evalOption m c e) (evalOption m' c e)
  | none, _ => Coupled.pure _
  | some e, hallowed => (Expr.eval_coupled site e hallowed).bind fun _ => Coupled.pure _

theorem evalOtherwise_coupled (site : Site) :
    ∀ otherwise : Option (List Expr), policy.Allows (otherwiseOccurrences site otherwise) →
      Coupled K K (evalOtherwise m c otherwise) (evalOtherwise m' c otherwise)
  | none, _ => Coupled.pure _
  | some body, hallowed => evalBlock_coupled site .null body hallowed

theorem evalBranches_coupled (site : Site) {otherwise otherwise' : Eval Ending}
    (hotherwise : Coupled K K otherwise otherwise') :
    ∀ branches : List (Expr × List Expr), policy.Allows (branchOccurrences site branches) →
      Coupled K K (evalBranches m c otherwise branches) (evalBranches m' c otherwise' branches)
  | [], _ => hotherwise
  | (condition, body) :: branches, hallowed => by
    rw [branchOccurrences, Policy.allows_append, Policy.allows_append] at hallowed
    refine (Expr.eval_coupled site condition hallowed.1.1).bind fun value => ?_
    exact Coupled.ite (evalBlock_coupled site .null body hallowed.1.2)
      (evalBranches_coupled site hotherwise branches hallowed.2)

theorem evalBlock_coupled (site : Site) (last : Value) :
    ∀ block : List Expr, policy.Allows (blockOccurrences site block) →
      Coupled K K (evalBlock m c last block) (evalBlock m' c last block)
  | [], _ => Coupled.pure _
  | e :: statements, hallowed => by
    rw [blockOccurrences, Policy.allows_append] at hallowed
    have hrest := fun value => evalBlock_coupled site value statements hallowed.2
    cases e with
    | control control => exact (Control.eval_coupled site control hallowed.1).sequence hrest
    | _ => exact (Expr.eval_coupled site _ hallowed.1).bind hrest

end

end Trees

section Codes

variable (hK : K.Stable policy bodies) (hm : Machine.Paired K m m')
variable (hcode : ∀ steps, policy.Allows (stepOccurrences .function steps) →
  bodies (.code steps) (.code steps))
variable (hc : K.growable c.inner)

include hK hm hcode hc

mutual

theorem Code.run_coupled (site : Site) :
    ∀ code : Code, policy.Allows (code.occurrences site) →
      Coupled K K (code.run m c) (code.run m' c)
  | .const value, _ => Coupled.pure value
  | .load name, _ => hK.load c name
  | .list none elements, hallowed => by
    rw [Code.occurrences, Policy.allows_append] at hallowed
    exact (runAll_coupled site elements hallowed.1).bind hK.makeList
  | .list (some cell) elements, hallowed => by
    rw [Code.occurrences, Policy.allows_append, Policy.allows_singleton] at hallowed
    exact hK.keepList hallowed.2 (runAll_coupled site elements hallowed.1)
  | .table entries, hallowed =>
    (runEntries_coupled site .empty entries hallowed).bindKnowing (.refl K) Table.Sound
      (runEntries_sound m c .empty entries) fun _ htable => hK.makeTable htable
  | .function name params body, hallowed => hK.makeFunction ⟨rfl, rfl, rfl, hcode body hallowed⟩ hc
  | .unary op operand, hallowed =>
    (Code.run_coupled site operand hallowed).bind fun value =>
      hK.ofExcept (op.apply_plain value)
  | .or operands, hallowed => runOr_coupled site operands hallowed
  | .and operands, hallowed => runAnd_coupled site .null operands hallowed
  | .fold first rest, hallowed => by
    rw [Code.occurrences, Policy.allows_append] at hallowed
    refine (Code.run_coupled site first hallowed.1).bind fun left => ?_
    exact runRest_coupled site left rest hallowed.2
  | .index container index, hallowed => by
    rw [Code.occurrences, Policy.allows_append] at hallowed
    refine (Code.run_coupled site container hallowed.1).bind fun container => ?_
    exact (Code.run_coupled site index hallowed.2).bind (hK.index container)
  | .member container name, hallowed =>
    (Code.run_coupled site container hallowed).bind fun container => hK.member container name
  | .call callee args, hallowed => by
    rw [Code.occurrences, Policy.allows_append] at hallowed
    refine (Code.run_coupled site callee hallowed.1).bind fun callee => ?_
    exact (runAll_coupled site args hallowed.2).bind (hm.call callee)
  | .store name value, hallowed =>
    (Code.run_coupled site value hallowed).bind (hK.store hc name)
  | .update op name value, hallowed => by
    refine (hK.load c name).bind fun current => ?_
    refine (Code.run_coupled site value hallowed).bind fun value => ?_
    exact (hK.addOp op current value).bind (hK.store hc name)
  | .storeGlobal name value, hallowed =>
    (Code.run_coupled site value hallowed).bind (hK.storeGlobal c name)
  | .storeIndex container index value, hallowed => by
    rw [Code.occurrences, Policy.allows_append, Policy.allows_append] at hallowed
    refine (Code.run_coupled site container hallowed.1.1).bind fun container => ?_
    refine (Code.run_coupled site index hallowed.1.2).bind fun index => ?_
    exact (Code.run_coupled site value hallowed.2).bind (hK.storeIndex container index)
  | .updateIndex op container index value, hallowed => by
    rw [Code.occurrences, Policy.allows_append, Policy.allows_append] at hallowed
    refine (Code.run_coupled site container hallowed.1.1).bind fun container => ?_
    refine (Code.run_coupled site index hallowed.1.2).bind fun index => ?_
    refine (hK.index container index).bind fun current => ?_
    refine (Code.run_coupled site value hallowed.2).bind fun value => ?_
    exact (hK.addOp op current value).bind (hK.storeIndex container index)
  | .storeMember container name value, hallowed => by
    rw [Code.occurrences, Policy.allows_append] at hallowed
    refine (Code.run_coupled site container hallowed.1).bind fun container => ?_
    exact (Code.run_coupled site value hallowed.2).bind (hK.storeMember container name)
  | .updateMember op container name value, hallowed => by
    rw [Code.occurrences, Policy.allows_append] at hallowed
    refine (Code.run_coupled site container hallowed.1).bind fun container => ?_
    refine (hK.member container name).bind fun current => ?_
    refine (Code.run_coupled site value hallowed.2).bind fun value => ?_
    exact (hK.addOp op current value).bind (hK.storeMember container name)
  | .flow flow, hallowed =>
    (Flow.run_coupled site flow hallowed).bind fun ending => Coupled.pure ending.1

theorem runAll_coupled (site : Site) :
    ∀ codes : List Code, policy.Allows (codeOccurrences site codes) →
      Coupled K K (runAll m c codes) (runAll m' c codes)
  | [], _ => Coupled.pure _
  | code :: codes, hallowed => by
    rw [codeOccurrences, Policy.allows_append] at hallowed
    refine (Code.run_coupled site code hallowed.1).bind fun value => ?_
    exact (runAll_coupled site codes hallowed.2).bind fun values => Coupled.pure _

theorem runOr_coupled (site : Site) :
    ∀ codes : List Code, policy.Allows (codeOccurrences site codes) →
      Coupled K K (runOr m c codes) (runOr m' c codes)
  | [], _ => Coupled.pure _
  | code :: codes, hallowed => by
    rw [codeOccurrences, Policy.allows_append] at hallowed
    refine (Code.run_coupled site code hallowed.1).bind fun value => ?_
    exact Coupled.ite (Coupled.pure value) (runOr_coupled site codes hallowed.2)

theorem runAnd_coupled (site : Site) (last : Value) :
    ∀ codes : List Code, policy.Allows (codeOccurrences site codes) →
      Coupled K K (runAnd m c last codes) (runAnd m' c last codes)
  | [], _ => Coupled.pure last
  | code :: codes, hallowed => by
    rw [codeOccurrences, Policy.allows_append] at hallowed
    refine (Code.run_coupled site code hallowed.1).bind fun value => ?_
    exact Coupled.ite (runAnd_coupled site value codes hallowed.2) (Coupled.pure _)

theorem runRest_coupled (site : Site) (left : Value) :
    ∀ rest : List (BinaryOp × Code), policy.Allows (restOccurrences site rest) →
      Coupled K K (runRest m c left rest) (runRest m' c left rest)
  | [], _ => Coupled.pure left
  | (op, code) :: rest, hallowed => by
    rw [restOccurrences, Policy.allows_append] at hallowed
    refine (Code.run_coupled site code hallowed.1).bind fun right => ?_
    refine (hK.binaryOp op left right).bind fun value => ?_
    exact runRest_coupled site value rest hallowed.2

theorem runEntries_coupled (site : Site) (table : Table) :
    ∀ entries : List CodeEntry, policy.Allows (codeEntryOccurrences site entries) →
      Coupled K K (runEntries m c table entries) (runEntries m' c table entries)
  | [], _ => Coupled.pure _
  | .fixed key value :: entries, hallowed => by
    rw [codeEntryOccurrences, Policy.allows_append] at hallowed
    refine (Code.run_coupled site value hallowed.1).bind fun value => ?_
    exact runEntries_coupled site _ entries hallowed.2
  | .computed key value :: entries, hallowed => by
    rw [codeEntryOccurrences, Policy.allows_append, Policy.allows_append] at hallowed
    refine (Code.run_coupled site key hallowed.1.1).bind fun key => ?_
    refine (hK.ofExcept (Key.ofValue_plain key)).bind fun key => ?_
    refine (Code.run_coupled site value hallowed.1.2).bind fun value => ?_
    exact runEntries_coupled site _ entries hallowed.2

theorem Flow.run_coupled (site : Site) :
    ∀ flow : Flow, policy.Allows (flow.occurrences site) →
      Coupled K K (flow.run m c) (flow.run m' c)
  | .nothing, _ => Coupled.pure _
  | .block body, hallowed => runSteps_coupled site .null body hallowed
  | .branch condition body otherwise, hallowed => by
    rw [Flow.occurrences, Policy.allows_append, Policy.allows_append] at hallowed
    refine (Code.run_coupled site condition hallowed.1.1).bind fun value => ?_
    exact Coupled.ite (runSteps_coupled site .null body hallowed.1.2)
      (Flow.run_coupled site otherwise hallowed.2)
  | .while condition body, hallowed => by
    rw [Flow.occurrences, Policy.allows_append] at hallowed
    rw [Flow.run, Flow.run, hm.fuel]
    exact hK.whileTrue (Code.run_coupled site.condition condition hallowed.1)
      (runSteps_coupled .loopBody .null body hallowed.2) m'.fuel .null
  | .loop body, hallowed => by
    rw [Flow.run, Flow.run, hm.fuel]
    exact hK.forever (runSteps_coupled .loopBody .null body hallowed) m'.fuel
  | .forIn value key items body, hallowed => by
    rw [Flow.occurrences, Policy.allows_append] at hallowed
    refine (Code.run_coupled site items hallowed.1).bind fun container => ?_
    refine hK.askingThen (·.items container) (fun _ _ hst => (hK.alike hst).items_eq container)
      (fun s => s.items_plain container) fun items => ?_
    exact Coupling.Stable.forItems (hK.bindItem hc value key)
      (runSteps_coupled .loopBody .null body hallowed.2) items .null
  | .forOf counter start stop step body, hallowed => by
    simp only [Flow.occurrences, Policy.allows_append] at hallowed
    obtain ⟨⟨⟨hstart, hstop⟩, hstep⟩, hloop⟩ := hallowed
    rw [Flow.run, Flow.run, hm.fuel]
    refine (Code.run_coupled site start hstart).bind fun start => ?_
    refine (Code.run_coupled site stop hstop).bind fun stop => ?_
    refine (Code.run_coupled site step hstep).bind fun step => ?_
    refine (hK.ofExcept (Range.ofValues_plain start stop (some step))).bind fun range => ?_
    exact hK.forRange (hK.bindCounter hc counter)
      (runSteps_coupled .loopBody .null body hloop) m'.fuel range .null
  | .return value, hallowed =>
    (Code.run_coupled site value hallowed).bind fun value => Coupled.pure _
  | .continue, _ => Coupled.pure _
  | .break, _ => Coupled.pure _

theorem runSteps_coupled (site : Site) (last : Value) :
    ∀ steps : List Step, policy.Allows (stepOccurrences site steps) →
      Coupled K K (runSteps m c last steps) (runSteps m' c last steps)
  | [], _ => Coupled.pure _
  | .value code :: steps, hallowed => by
    rw [stepOccurrences, Policy.allows_append] at hallowed
    exact (Code.run_coupled site code hallowed.1).bind fun value =>
      runSteps_coupled site value steps hallowed.2
  | .flow flow :: steps, hallowed => by
    rw [stepOccurrences, Policy.allows_append] at hallowed
    exact (Flow.run_coupled site flow hallowed.1).sequence fun value =>
      runSteps_coupled site value steps hallowed.2

end

end Codes

end TableScript
