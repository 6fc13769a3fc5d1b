import TableScript.Proofs.Compiled
import TableScript.Proofs.Mirror
import TableScript.Session

/-!
Evaluation cannot tell places apart: in related contexts, whatever is evaluated or called mirrors
itself. Trees are gone through by their structure, calls by their fuel; compiled code does what its
tree does. What the host does is taken to be of the same kind.
-/

-- The theorems of a mutual block share their hypotheses, whichever of them a single one needs.
set_option linter.unusedSectionVars false

namespace TableScript

open Eval

/-- Calls of related values with related arguments mirror each other. -/
def MirroredCalls (call : Value → List Value → Eval Value) : Prop :=
  ∀ {ρ : Renaming} {f f' : Value} {args args' : List Value}, Related ρ f f' →
    Related ρ args args' → Mirrors ρ (call f args) (call f' args')

/-- A machine whose calls mirror each other and whose function literals keep no lists. -/
structure Machine.Mirrored (m : Machine) : Prop where
  call : MirroredCalls m.call
  body : ∀ block, (m.body block).Plain

section Trees

variable {m : Machine} (hm : m.Mirrored)

include hm

mutual

theorem Expr.eval_mirrors {ρ : Renaming} {c d : Context} (hc : Related ρ c d) :
    ∀ e : Expr, Mirrors ρ (e.eval m c) (e.eval m d)
  | .null => .pure .null
  | .bool value => .pure (.bool value)
  | .number value => .pure (.number value)
  | .string text => .pure (.string text)
  | .name name => .load hc name
  | .list elements => (evalAll_mirrors hc elements).bind fun _ hvalues => .newList hvalues
  | .table entries =>
    (evalEntries_mirrors hc ⟨rfl, .nil⟩ entries).bind fun _ htable => .newTable htable
  | .function _ _ body => .newFunction ⟨rfl, rfl, rfl, hm.body body, hc⟩
  | .unary op operand =>
    (Expr.eval_mirrors hc operand).bind fun _ hvalue => .ofExcept (op.apply_related hvalue)
  | .or first rest =>
    (Expr.eval_mirrors hc first).bind fun hle hvalue =>
      .iteTruthy hvalue (.pure hvalue) (evalOr_mirrors (hc.mono hle) rest)
  | .and first rest =>
    (Expr.eval_mirrors hc first).bind fun hle hvalue =>
      .iteTruthy hvalue (evalAnd_mirrors (hc.mono hle) hvalue rest) (.pure (.bool false))
  | .compare first rest =>
    (Expr.eval_mirrors hc first).bind fun hle hvalue => evalCompare_mirrors (hc.mono hle) hvalue rest
  | .add first rest =>
    (Expr.eval_mirrors hc first).bind fun hle hvalue => evalAdd_mirrors (hc.mono hle) hvalue rest
  | .mul first rest =>
    (Expr.eval_mirrors hc first).bind fun hle hvalue => evalMul_mirrors (hc.mono hle) hvalue rest
  | .access target chain =>
    (Expr.eval_mirrors hc target).bind fun hle hvalue => evalChain_mirrors (hc.mono hle) hvalue chain
  | .assign target update =>
    Target.assign_mirrors hc
      (fun hle hcurrent => Update.eval_mirrors (hc.mono hle) hcurrent update) target
  | .global name value =>
    (Expr.eval_mirrors hc value).bind fun hle hvalue => .storeGlobal (hc.mono hle) name hvalue
  | .control control => (Control.eval_mirrors hc control).bind fun _ hending => .pure hending.1

theorem evalAll_mirrors {ρ : Renaming} {c d : Context} (hc : Related ρ c d) :
    ∀ es : List Expr, Mirrors ρ (evalAll m c es) (evalAll m d es)
  | [] => .pure .nil
  | e :: es =>
    (Expr.eval_mirrors hc e).bind fun hle hvalue =>
      (evalAll_mirrors (hc.mono hle) es).bind fun hle' hvalues =>
        .pure (.cons (hvalue.mono hle') hvalues)

theorem evalEntries_mirrors {ρ : Renaming} {c d : Context} (hc : Related ρ c d)
    {table table' : Table} (htable : Related ρ table table') :
    ∀ entries : List Entry, Mirrors ρ (evalEntries m c table entries)
      (evalEntries m d table' entries)
  | [] => .pure htable
  | .named name value :: entries =>
    (Expr.eval_mirrors hc value).bind fun hle hvalue =>
      evalEntries_mirrors (hc.mono hle) (Table.add_related (htable.mono hle) (.string name) hvalue)
        entries
  | .computed key value :: entries =>
    (Expr.eval_mirrors hc key).bind fun hle hkey =>
      (Mirrors.ofExcept (Key.ofValue_related hkey)).bind fun hle' hkey => by
        cases hkey
        exact (Expr.eval_mirrors (hc.mono (le_trans hle hle')) value).bind fun hle'' hvalue =>
          have hle := le_trans hle (le_trans hle' hle'')
          evalEntries_mirrors (hc.mono hle) (Table.add_related (htable.mono hle) _ hvalue) entries

theorem evalOr_mirrors {ρ : Renaming} {c d : Context} (hc : Related ρ c d) :
    ∀ es : List Expr, Mirrors ρ (evalOr m c es) (evalOr m d es)
  | [] => .pure (.bool false)
  | e :: es =>
    (Expr.eval_mirrors hc e).bind fun hle hvalue =>
      .iteTruthy hvalue (.pure hvalue) (evalOr_mirrors (hc.mono hle) es)

theorem evalAnd_mirrors {ρ : Renaming} {c d : Context} (hc : Related ρ c d) {last last' : Value}
    (hlast : Related ρ last last') :
    ∀ es : List Expr, Mirrors ρ (evalAnd m c last es) (evalAnd m d last' es)
  | [] => .pure hlast
  | e :: es =>
    (Expr.eval_mirrors hc e).bind fun hle hvalue =>
      .iteTruthy hvalue (evalAnd_mirrors (hc.mono hle) hvalue es) (.pure (.bool false))

theorem evalCompare_mirrors {ρ : Renaming} {c d : Context} (hc : Related ρ c d) {left left' : Value}
    (hleft : Related ρ left left') :
    ∀ es : List (CompareOp × Expr), Mirrors ρ (evalCompare m c left es) (evalCompare m d left' es)
  | [] => .pure hleft
  | (op, e) :: es =>
    (Expr.eval_mirrors hc e).bind fun hle hright =>
      (Mirrors.ofExcept (op.apply_related (hleft.mono hle) hright)).bind fun hle' hvalue =>
        evalCompare_mirrors (hc.mono (le_trans hle hle')) hvalue es

theorem evalAdd_mirrors {ρ : Renaming} {c d : Context} (hc : Related ρ c d) {left left' : Value}
    (hleft : Related ρ left left') :
    ∀ es : List (AddOp × Expr), Mirrors ρ (evalAdd m c left es) (evalAdd m d left' es)
  | [] => .pure hleft
  | (op, e) :: es =>
    (Expr.eval_mirrors hc e).bind fun hle hright =>
      (Mirrors.addOp op (hleft.mono hle) hright).bind fun hle' hvalue =>
        evalAdd_mirrors (hc.mono (le_trans hle hle')) hvalue es

theorem evalMul_mirrors {ρ : Renaming} {c d : Context} (hc : Related ρ c d) {left left' : Value}
    (hleft : Related ρ left left') :
    ∀ es : List (MulOp × Expr), Mirrors ρ (evalMul m c left es) (evalMul m d left' es)
  | [] => .pure hleft
  | (op, e) :: es =>
    (Expr.eval_mirrors hc e).bind fun hle hright =>
      (Mirrors.ofExcept (op.apply_related (hleft.mono hle) hright)).bind fun hle' hvalue =>
        evalMul_mirrors (hc.mono (le_trans hle hle')) hvalue es

theorem evalChain_mirrors {ρ : Renaming} {c d : Context} (hc : Related ρ c d) {value value' : Value}
    (hvalue : Related ρ value value') :
    ∀ chain : List Accessor, Mirrors ρ (evalChain m c value chain) (evalChain m d value' chain)
  | [] => .pure hvalue
  | .index index :: chain =>
    (Expr.eval_mirrors hc index).bind fun hle hindex =>
      (Mirrors.index (hvalue.mono hle) hindex).bind fun hle' hpart =>
        evalChain_mirrors (hc.mono (le_trans hle hle')) hpart chain
  | .member name :: chain =>
    (Mirrors.member hvalue name).bind fun hle hpart =>
      evalChain_mirrors (hc.mono hle) hpart chain
  | .call args :: chain =>
    (evalAll_mirrors hc args).bind fun hle hargs =>
      (hm.call (hvalue.mono hle) hargs).bind fun hle' hresult =>
        evalChain_mirrors (hc.mono (le_trans hle hle')) hresult chain

theorem Target.assign_mirrors {ρ : Renaming} {c d : Context} (hc : Related ρ c d)
    {revise revise' : Revision}
    (hrevise : ∀ {σ x y}, ρ ≤ σ → Mirrors σ x y → Mirrors σ (revise x) (revise' y)) :
    ∀ target : Target, Mirrors ρ (target.assign m c revise) (target.assign m d revise')
  | .name name =>
    (hrevise (le_refl ρ) (.load hc name)).bind fun hle hvalue => .store (hc.mono hle) name hvalue
  | .index container index =>
    (Expr.eval_mirrors hc container).bind fun hle hcontainer =>
      (Expr.eval_mirrors (hc.mono hle) index).bind fun hle' hindex =>
        (hrevise (le_trans hle hle') (.index (hcontainer.mono hle') hindex)).bind fun hle'' hvalue =>
          .storeIndex (hcontainer.mono (le_trans hle' hle'')) (hindex.mono hle'') hvalue
  | .member container name =>
    (Expr.eval_mirrors hc container).bind fun hle hcontainer =>
      (hrevise hle (.member hcontainer name)).bind fun hle' hvalue =>
        .storeMember (hcontainer.mono hle') name hvalue

theorem Update.eval_mirrors {ρ : Renaming} {c d : Context} (hc : Related ρ c d)
    {current current' : Eval Value} (hcurrent : Mirrors ρ current current') :
    ∀ update : Update, Mirrors ρ (update.eval m c current) (update.eval m d current')
  | .set value => Expr.eval_mirrors hc value
  | .addTo value =>
    hcurrent.bind fun hle hleft =>
      (Expr.eval_mirrors (hc.mono hle) value).bind fun hle' hright =>
        .add (hleft.mono hle') hright
  | .subFrom value =>
    hcurrent.bind fun hle hleft =>
      (Expr.eval_mirrors (hc.mono hle) value).bind fun hle' hright =>
        .ofExcept (subtract_related (hleft.mono hle') hright)
  | .increment => hcurrent.bind fun _ hleft => .add hleft (.number 1.0)
  | .decrement => hcurrent.bind fun _ hleft => .ofExcept (subtract_related hleft (.number 1.0))

theorem Control.eval_mirrors {ρ : Renaming} {c d : Context} (hc : Related ρ c d) :
    ∀ control : Control, Mirrors ρ (control.eval m c) (control.eval m d)
  | .cond branches otherwise =>
    evalBranches_mirrors hc (evalOtherwise_mirrors hc otherwise) branches
  | .while condition body =>
    .whileTrue (Expr.eval_mirrors hc condition) (evalBlock_mirrors hc .null body) m.fuel .null
  | .loop body => .forever (evalBlock_mirrors hc .null body) m.fuel
  | .forIn value key items body =>
    (Expr.eval_mirrors hc items).bind fun hle hcontainer =>
      Mirrors.reading _ _ (fun w hw => w.items_related (hcontainer.mono hw)) fun hle' hitems =>
        (Mirrors.ofExcept hitems).bind fun hle'' hitems =>
          have hc' := hc.mono (le_trans hle (le_trans hle' hle''))
          .forItems (fun hσ hv hkey => .bindItem (hc'.mono hσ) value key hv hkey)
            (evalBlock_mirrors hc' .null body) hitems .null
  | .forOf counter start stop step body => by
    refine (Expr.eval_mirrors hc start).bind fun hle hstart => ?_
    refine (Expr.eval_mirrors (hc.mono hle) stop).bind fun hle' hstop => ?_
    refine (evalOption_mirrors (hc.mono (le_trans hle hle')) step).bind fun hle'' hstep => ?_
    have hrange := Range.ofValues_related (hstart.mono (le_trans hle' hle'')) (hstop.mono hle'') hstep
    refine (Mirrors.ofExcept hrange).bind fun {σ range range'} hle''' hrange => ?_
    have hc' := hc.mono (le_trans hle (le_trans hle' (le_trans hle'' hle''')))
    cases (hrange : range = range')
    exact .forRange (.bindCounter hc' counter) (evalBlock_mirrors hc' .null body) m.fuel range .null
  | .return value =>
    (evalOption_mirrors hc value).bind fun _ hvalue => .pure ⟨related_getD hvalue .null, rfl⟩
  | .continue => .pure ⟨.null, rfl⟩
  | .break => .pure ⟨.null, rfl⟩

theorem evalOption_mirrors {ρ : Renaming} {c d : Context} (hc : Related ρ c d) :
    ∀ e : Option Expr, Mirrors ρ (evalOption m c e) (evalOption m d e)
  | none => .pure .none
  | some e => (Expr.eval_mirrors hc e).bind fun _ hvalue => .pure (.some hvalue)

theorem evalOtherwise_mirrors {ρ : Renaming} {c d : Context} (hc : Related ρ c d) :
    ∀ otherwise : Option (List Expr),
      Mirrors ρ (evalOtherwise m c otherwise) (evalOtherwise m d otherwise)
  | none => .pure ⟨.null, rfl⟩
  | some body => evalBlock_mirrors hc .null body

theorem evalBranches_mirrors {ρ : Renaming} {c d : Context} (hc : Related ρ c d)
    {otherwise otherwise' : Eval Ending} (hotherwise : Mirrors ρ otherwise otherwise') :
    ∀ branches : List (Expr × List Expr),
      Mirrors ρ (evalBranches m c otherwise branches) (evalBranches m d otherwise' branches)
  | [] => hotherwise
  | (condition, body) :: branches =>
    (Expr.eval_mirrors hc condition).bind fun hle hvalue =>
      .iteTruthy hvalue (evalBlock_mirrors (hc.mono hle) .null body)
        (evalBranches_mirrors (hc.mono hle) (hotherwise.mono hle) branches)

theorem evalBlock_mirrors {ρ : Renaming} {c d : Context} (hc : Related ρ c d) {last last' : Value}
    (hlast : Related ρ last last') :
    ∀ block : List Expr, Mirrors ρ (evalBlock m c last block) (evalBlock m d last' block)
  | [] => .pure ⟨hlast, rfl⟩
  | e :: statements => by
    have hrest := fun {σ v v'} (hle : ρ ≤ σ) (hv : Related σ v v') =>
      evalBlock_mirrors (hc.mono hle) hv statements
    cases e with
    | control control => exact (Control.eval_mirrors hc control).sequence hrest
    | _ => exact (Expr.eval_mirrors hc _).bind hrest

end

end Trees

/-! ### Bodies -/

/-- Compiled code is its tree, with function literals that are compiled as well. -/
theorem Body.run_mirrors {call : Value → List Value → Eval Value} (hcall : MirroredCalls call)
    (fuel : Nat) {body : Body} (hplain : body.Plain) {ρ : Renaming} {c d : Context}
    (hc : Related ρ c d) :
    Mirrors ρ (body.run (Host.machineOf call fuel) c) (body.run (Host.machineOf call fuel) d) := by
  cases hplain with
  | tree block => exact evalBlock_mirrors ⟨hcall, .tree⟩ hc .null block
  | code block =>
      rw [Body.run, Body.run, run_compileBlock, run_compileBlock]
      exact evalBlock_mirrors ⟨hcall, .code⟩ hc .null block

theorem mirrors_record (ρ : Renaming) (event event' : Event) :
    Mirrors ρ (modify (·.record event) : Eval PUnit) (modify (·.record event')) :=
  .changing fun w _ => w.exists_recorded event event'

theorem mirrors_complete {ρ : Renaming} (signal : Signal) {v v' : Value} (hv : Related ρ v v') :
    Mirrors ρ (Eval.complete signal v) (Eval.complete signal v') := by
  cases signal with
  | none => exact .pure hv
  | «return» => exact .pure hv
  | _ => exact (mirrors_record ρ _ _).bind fun _ _ => .throw _

theorem Body.evaluate_mirrors {call : Value → List Value → Eval Value} (hcall : MirroredCalls call)
    (fuel : Nat) {body : Body} (hplain : body.Plain) {ρ : Renaming} {c d : Context}
    (hc : Related ρ c d) :
    Mirrors ρ (body.evaluate (Host.machineOf call fuel) c)
      (body.evaluate (Host.machineOf call fuel) d) := by
  refine (Body.run_mirrors hcall fuel hplain hc).bind fun {σ ending ending'} _ hending => ?_
  obtain ⟨value, signal⟩ := ending
  obtain ⟨value', signal'⟩ := ending'
  obtain ⟨hvalue, hsignal⟩ := hending
  cases (hsignal : signal = signal')
  exact mirrors_complete signal hvalue

/-! ### Calls -/

theorem mirrors_checkArity {ρ : Renaming} (name : String) (expected found : Nat) :
    Mirrors ρ (Eval.checkArity name expected found) (Eval.checkArity name expected found) := by
  unfold Eval.checkArity
  split
  · exact .pure rfl
  · exact .throw _

theorem mirrors_bindParams {ρ : Renaming} {c d : Context} (hc : Related ρ c d)
    (params : List String) {args args' : List Value} (hargs : Related ρ args args') :
    Mirrors ρ (Eval.bindParams c params args) (Eval.bindParams d params args') := by
  apply Mirrors.changing
  intro w hw
  replace hc := hc.mono hw
  replace hargs := hargs.mono hw
  induction params generalizing w args args' with
  | nil => exact ⟨w, le_refl w, rfl, rfl⟩
  | cons param params ih =>
      cases hargs with
      | nil => exact ⟨w, le_refl w, rfl, rfl⟩
      | cons hhead htail =>
          obtain ⟨w', hle, hleft, hright⟩ := w.exists_modifyFrame (Context.inner_related hc)
            fun hframe => Frame.bind_related hframe param hhead
          obtain ⟨w'', hle', hleft', hright'⟩ := ih w' (le_trans hw hle.places)
            (hc.mono hle.places) (Renamable.mono hle.places htail)
          refine ⟨w'', le_trans hle hle', ?_, ?_⟩
          · rw [hleft', hleft]
            rfl
          · rw [hright', hright]
            rfl

theorem Closure.call_mirrors {call : Value → List Value → Eval Value} (hcall : MirroredCalls call)
    (fuel : Nat) {ρ : Renaming} {f g : Closure} (hfg : Related ρ f g) {args args' : List Value}
    (hargs : Related ρ args args') :
    Mirrors ρ (f.call (Host.machineOf call fuel) args) (g.call (Host.machineOf call fuel) args') := by
  unfold Closure.call
  rw [show f.name = g.name from hfg.name, show f.params = g.params from hfg.params,
    show f.body = g.body from hfg.body, List.Forall₂.length_eq hargs]
  refine (mirrors_checkArity _ _ _).bind fun hle _ => ?_
  refine (Mirrors.enter (hfg.context.mono hle)).bind fun hle' hc => ?_
  refine (mirrors_bindParams hc g.params (hargs.mono (le_trans hle hle'))).bind fun hle'' _ => ?_
  exact Body.evaluate_mirrors hcall fuel hfg.plain (hc.mono hle'')

namespace Host

/-- What the functions of a host do is determined by their arguments up to the choice of places, and
all that they touch is found through the arguments or new; they may also print and call. -/
def ActsOnArguments (host : Host) : Prop :=
  ∀ ref native {call : Value → List Value → Eval Value}, MirroredCalls call →
    ∀ {ρ : Renaming} {args args' : List Value}, Related ρ args args' →
      Mirrors ρ (host.perform ref native call args) (host.perform ref native call args')

variable {host : Host} (hhost : host.ActsOnArguments)

include hhost

theorem callNative_mirrors {call : Value → List Value → Eval Value} (hcall : MirroredCalls call)
    (ref : NativeRef) (native : Native) {ρ : Renaming} {args args' : List Value}
    (hargs : Related ρ args args') :
    Mirrors ρ (host.callNative call ref native args) (host.callNative call ref native args') := by
  have hperform : ∀ {σ}, ρ ≤ σ → Mirrors σ
      ((modify (·.record (.called ref args)) : Eval PUnit) >>= fun _ =>
        host.perform ref native call args)
      ((modify (·.record (.called ref args')) : Eval PUnit) >>= fun _ =>
        host.perform ref native call args') := fun {σ} hle =>
    (mirrors_record σ _ _).bind fun hle' _ => hhost ref native hcall (hargs.mono (le_trans hle hle'))
  unfold Host.callNative
  cases native.arity with
  | none => exact hperform (le_refl ρ)
  | some arity =>
      dsimp only
      rw [List.Forall₂.length_eq hargs]
      exact (mirrors_checkArity _ _ _).bind fun hle _ => hperform hle

theorem call_mirrors (fuel : Nat) : MirroredCalls (host.call fuel) := by
  induction fuel with
  | zero => exact fun _ _ => .throw _
  | succ fuel ih =>
      intro ρ f f' args args' hf hargs w hw
      cases hf with
      | function h =>
          -- The body may call any function, this one included, but only with less fuel.
          obtain ⟨f, g, hf, hg, hfg⟩ := w.function_related (hw h)
          rw [Host.call, get_bind_apply, Host.call, get_bind_apply, hf, hg]
          exact Closure.call_mirrors ih fuel hfg (hargs.mono hw) w (le_refl _)
      | native ref =>
          rw [Host.call, get_bind_apply, Host.call, get_bind_apply, w.native?_eq ref]
          cases w.right.native? ref with
          | none => exact Mirrors.throw _ w hw
          | some native => exact callNative_mirrors hhost ih ref native hargs w hw
      | _ => exact Mirrors.throw _ w hw

/-- A run in related contexts is the same up to renaming. -/
theorem run_mirrors (fuel : Nat) {program : Prepared} (hplain : program.Plain) {ρ : Renaming}
    {c d : Context} (hc : Related ρ c d) :
    Mirrors ρ (host.run fuel program c) (host.run fuel program d) :=
  Body.evaluate_mirrors (call_mirrors hhost fuel) fuel hplain hc

end Host

/-- The usual host acts on arguments only. -/
theorem Host.standard_actsOnArguments : Host.standard.ActsOnArguments := by
  intro ref native call hcall ρ args args' hargs
  have hfirst : Related ρ (args.headD .null) (args'.headD .null) := related_headD hargs .null
  have hsecond : Related ρ ((args.drop 1).headD .null) ((args'.drop 1).headD .null) :=
    related_headD (List.forall₂_drop 1 hargs) .null
  unfold Host.standard
  dsimp only
  split
  · -- `print`
    refine Mirrors.bind (.changing fun w hw => ?_) fun _ _ => .pure .null
    rw [w.line_eq (hargs.mono hw)]
    exact w.exists_printed _ rfl rfl rfl rfl Array.push_eq_append Array.push_eq_append
  · -- `type`
    rw [Value.Renamed.type_eq hfirst]
    exact .pure (.string _)
  · -- `str`
    refine .reading (fun s => Value.string (s.text (args.headD .null)))
      (fun s => Value.string (s.text (args'.headD .null))) (fun w hw => ?_)
      fun _ hresult => .pure hresult
    rw [w.text_eq (hfirst.mono hw)]
    exact .string _
  · -- `fail`
    refine .reading (·.line args) (·.line args')
      (f := fun line => Eval.fault (.host line)) (g := fun line => Eval.fault (.host line))
      (fun w hw => w.line_eq (hargs.mono hw)) fun {σ line line'} _ hline => ?_
    cases (hline : line = line')
    exact .throw _
  · -- `apply`
    generalize args.headD .null = callee, args'.headD .null = callee' at hfirst ⊢
    generalize (args.drop 1).headD .null = list, (args'.drop 1).headD .null = list' at hsecond ⊢
    cases hsecond with
    | @list a b h =>
        exact .reading (fun s => (s.list a).toList) (fun s => (s.list b).toList)
          (f := call callee) (g := call callee') (fun w hw => w.list_related (hw h))
          fun hle hvalues => hcall (hfirst.mono hle) hvalues
    | _ => exact .throw _
  · exact .throw _

end TableScript
