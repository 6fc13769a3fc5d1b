import TableScript.Code.Cells
import TableScript.Code.Compile
import TableScript.Store.Basic

/-!
The list literals and the loop signals that occur in a program, each with the place where it stands.
Properties of programs that depend on these alone are policies, which allow or refuse single
occurrences. A tree and the code that it is compiled to have the same ones.
-/

namespace TableScript

/-- Where a node stands: whether a loop of the same function has it in its body, and whether it can
be evaluated more than once because it stands in a function, a loop body or a loop condition. -/
structure Site where
  inLoop : Bool
  repeated : Bool
deriving DecidableEq, Repr

namespace Site

/-- The site of a program's own statements. -/
def top : Site :=
  ⟨false, false⟩

/-- Inside a function no loop around the function counts. -/
def function : Site :=
  ⟨false, true⟩

def loopBody : Site :=
  ⟨true, true⟩

/-- A condition is evaluated before each turn, but is no part of the loop's body. -/
def condition (site : Site) : Site :=
  { site with repeated := true }

end Site

/-- A node of the kinds that matter here. -/
inductive Feature where
  | list (cell : Option CellRef)
  | continue
  | break
deriving DecidableEq, Repr

/-- A feature at a site. -/
structure Occurrence where
  site : Site
  feature : Feature
deriving DecidableEq, Repr

/-- Which features are allowed at which sites. -/
abbrev Policy := Site → Feature → Bool

namespace Policy

/-- The policy under which everything is allowed. -/
def anything : Policy :=
  fun _ _ => true

/-- All of the occurrences are allowed. -/
def Allows (policy : Policy) (occurrences : List Occurrence) : Prop :=
  ∀ o ∈ occurrences, policy o.site o.feature

instance (policy : Policy) (occurrences : List Occurrence) :
    Decidable (policy.Allows occurrences) :=
  inferInstanceAs (Decidable (∀ o ∈ occurrences, policy o.site o.feature))

variable {policy policy' : Policy} {first rest : List Occurrence}

theorem allows_singleton {site : Site} {feature : Feature} :
    policy.Allows [⟨site, feature⟩] ↔ policy site feature := by
  simp [Allows]

theorem allows_cons {o : Occurrence} :
    policy.Allows (o :: rest) ↔ policy o.site o.feature ∧ policy.Allows rest :=
  List.forall_mem_cons

theorem allows_append : policy.Allows (first ++ rest) ↔ policy.Allows first ∧ policy.Allows rest :=
  List.forall_mem_append

theorem anything_allows (occurrences : List Occurrence) : anything.Allows occurrences :=
  fun _ _ => rfl

theorem Allows.mono (himplies : ∀ site feature, policy site feature → policy' site feature)
    (hallowed : policy.Allows first) : policy'.Allows first :=
  fun o ho => himplies o.site o.feature (hallowed o ho)

end Policy

mutual

def Expr.occurrences (site : Site) : Expr → List Occurrence
  | .null => []
  | .bool _ => []
  | .number _ => []
  | .string _ => []
  | .name _ => []
  | .list elements => allOccurrences site elements ++ [⟨site, .list none⟩]
  | .table entries => entryOccurrences site entries
  | .function _ _ body => blockOccurrences .function body
  | .unary _ operand => operand.occurrences site
  | .or first rest => first.occurrences site ++ allOccurrences site rest
  | .and first rest => first.occurrences site ++ allOccurrences site rest
  | .compare first rest => first.occurrences site ++ compareOccurrences site rest
  | .add first rest => first.occurrences site ++ addOccurrences site rest
  | .mul first rest => first.occurrences site ++ mulOccurrences site rest
  | .access target chain => target.occurrences site ++ chainOccurrences site chain
  | .assign target update => target.occurrences site ++ update.occurrences site
  | .global _ value => value.occurrences site
  | .control control => control.occurrences site

def Control.occurrences (site : Site) : Control → List Occurrence
  | .cond branches otherwise =>
    branchOccurrences site branches ++ otherwiseOccurrences site otherwise
  | .while condition body => condition.occurrences site.condition ++ blockOccurrences .loopBody body
  | .loop body => blockOccurrences .loopBody body
  | .forIn _ _ items body => items.occurrences site ++ blockOccurrences .loopBody body
  | .forOf _ start stop step body =>
    start.occurrences site ++ stop.occurrences site ++ optionOccurrences site step
      ++ blockOccurrences .loopBody body
  | .return value => optionOccurrences site value
  | .continue => [⟨site, .continue⟩]
  | .break => [⟨site, .break⟩]

def Target.occurrences (site : Site) : Target → List Occurrence
  | .name _ => []
  | .index container index => container.occurrences site ++ index.occurrences site
  | .member container _ => container.occurrences site

def Update.occurrences (site : Site) : Update → List Occurrence
  | .set value => value.occurrences site
  | .addTo value => value.occurrences site
  | .subFrom value => value.occurrences site
  | .increment => []
  | .decrement => []

def allOccurrences (site : Site) : List Expr → List Occurrence
  | [] => []
  | e :: es => e.occurrences site ++ allOccurrences site es

def entryOccurrences (site : Site) : List Entry → List Occurrence
  | [] => []
  | .named _ value :: entries => value.occurrences site ++ entryOccurrences site entries
  | .computed key value :: entries =>
    key.occurrences site ++ value.occurrences site ++ entryOccurrences site entries

def compareOccurrences (site : Site) : List (CompareOp × Expr) → List Occurrence
  | [] => []
  | (_, e) :: es => e.occurrences site ++ compareOccurrences site es

def addOccurrences (site : Site) : List (AddOp × Expr) → List Occurrence
  | [] => []
  | (_, e) :: es => e.occurrences site ++ addOccurrences site es

def mulOccurrences (site : Site) : List (MulOp × Expr) → List Occurrence
  | [] => []
  | (_, e) :: es => e.occurrences site ++ mulOccurrences site es

def chainOccurrences (site : Site) : List Accessor → List Occurrence
  | [] => []
  | .index index :: chain => index.occurrences site ++ chainOccurrences site chain
  | .member _ :: chain => chainOccurrences site chain
  | .call args :: chain => allOccurrences site args ++ chainOccurrences site chain

def optionOccurrences (site : Site) : Option Expr → List Occurrence
  | none => []
  | some e => e.occurrences site

def otherwiseOccurrences (site : Site) : Option (List Expr) → List Occurrence
  | none => []
  | some body => blockOccurrences site body

def branchOccurrences (site : Site) : List (Expr × List Expr) → List Occurrence
  | [] => []
  | (condition, body) :: branches =>
    condition.occurrences site ++ blockOccurrences site body ++ branchOccurrences site branches

/-- What occurs in the statements of a block. -/
def blockOccurrences (site : Site) : List Expr → List Occurrence
  | [] => []
  | e :: statements => e.occurrences site ++ blockOccurrences site statements

end

mutual

def Code.occurrences (site : Site) : Code → List Occurrence
  | .const _ => []
  | .load _ => []
  | .list cell elements => codeOccurrences site elements ++ [⟨site, .list cell⟩]
  | .table entries => codeEntryOccurrences site entries
  | .function _ _ body => stepOccurrences .function body
  | .unary _ operand => operand.occurrences site
  | .or operands => codeOccurrences site operands
  | .and operands => codeOccurrences site operands
  | .fold first rest => first.occurrences site ++ restOccurrences site rest
  | .index container index => container.occurrences site ++ index.occurrences site
  | .member container _ => container.occurrences site
  | .call callee args => callee.occurrences site ++ codeOccurrences site args
  | .store _ value => value.occurrences site
  | .update _ _ value => value.occurrences site
  | .storeGlobal _ value => value.occurrences site
  | .storeIndex container index value =>
    container.occurrences site ++ index.occurrences site ++ value.occurrences site
  | .updateIndex _ container index value =>
    container.occurrences site ++ index.occurrences site ++ value.occurrences site
  | .storeMember container _ value => container.occurrences site ++ value.occurrences site
  | .updateMember _ container _ value => container.occurrences site ++ value.occurrences site
  | .flow flow => flow.occurrences site

def Flow.occurrences (site : Site) : Flow → List Occurrence
  | .nothing => []
  | .block body => stepOccurrences site body
  | .branch condition body otherwise =>
    condition.occurrences site ++ stepOccurrences site body ++ otherwise.occurrences site
  | .while condition body => condition.occurrences site.condition ++ stepOccurrences .loopBody body
  | .loop body => stepOccurrences .loopBody body
  | .forIn _ _ items body => items.occurrences site ++ stepOccurrences .loopBody body
  | .forOf _ start stop step body =>
    start.occurrences site ++ stop.occurrences site ++ step.occurrences site
      ++ stepOccurrences .loopBody body
  | .return value => value.occurrences site
  | .continue => [⟨site, .continue⟩]
  | .break => [⟨site, .break⟩]

def codeOccurrences (site : Site) : List Code → List Occurrence
  | [] => []
  | code :: codes => code.occurrences site ++ codeOccurrences site codes

def restOccurrences (site : Site) : List (BinaryOp × Code) → List Occurrence
  | [] => []
  | (_, code) :: rest => code.occurrences site ++ restOccurrences site rest

def codeEntryOccurrences (site : Site) : List CodeEntry → List Occurrence
  | [] => []
  | .fixed _ value :: entries => value.occurrences site ++ codeEntryOccurrences site entries
  | .computed key value :: entries =>
    key.occurrences site ++ value.occurrences site ++ codeEntryOccurrences site entries

/-- What occurs in some statements of code. -/
def stepOccurrences (site : Site) : List Step → List Occurrence
  | [] => []
  | .value code :: steps => code.occurrences site ++ stepOccurrences site steps
  | .flow flow :: steps => flow.occurrences site ++ stepOccurrences site steps

end

/-- What occurs in the body of a function, or in a program. -/
def Body.occurrences (site : Site) : Body → List Occurrence
  | .tree block => blockOccurrences site block
  | .code steps => stepOccurrences site steps

/-! ### Compilation -/

/-- What occurs in the code that an update writes. -/
def CodeUpdate.occurrences (site : Site) : CodeUpdate → List Occurrence
  | .store value => value.occurrences site
  | .modify _ value => value.occurrences site

theorem CodeUpdate.occurrences_toName (site : Site) (name : String) (update : CodeUpdate) :
    (update.toName name).occurrences site = update.occurrences site := by
  cases update <;> simp [toName, Code.occurrences, occurrences]

theorem CodeUpdate.occurrences_toIndex (site : Site) (container index : Code)
    (update : CodeUpdate) :
    (update.toIndex container index).occurrences site
      = (container.occurrences site ++ index.occurrences site
          ++ update.occurrences site) := by
  cases update <;> simp [toIndex, Code.occurrences, occurrences]

theorem CodeUpdate.occurrences_toMember (site : Site) (container : Code) (name : String)
    (update : CodeUpdate) :
    (update.toMember container name).occurrences site
      = (container.occurrences site ++ update.occurrences site) := by
  cases update <;> simp [toMember, Code.occurrences, occurrences]

mutual

/-- What occurs in code is what occurs in its tree. -/
theorem Expr.occurrences_compile (site : Site) :
    ∀ e : Expr, e.compile.occurrences site = e.occurrences site
  | .null => rfl
  | .bool _ => rfl
  | .number _ => rfl
  | .string _ => rfl
  | .name _ => rfl
  | .list elements => by
    simp only [Expr.compile, Code.occurrences, Expr.occurrences,
      occurrences_compileAll site elements]
  | .table entries => by
    simp only [Expr.compile, Code.occurrences, Expr.occurrences,
      occurrences_compileEntries site entries]
  | .function _ _ body => by
    simp only [Expr.compile, Code.occurrences, Expr.occurrences,
      occurrences_compileBlock .function body]
  | .unary _ operand => by
    simp only [Expr.compile, Code.occurrences, Expr.occurrences,
      Expr.occurrences_compile site operand]
  | .or first rest => by
    simp only [Expr.compile, Code.occurrences, codeOccurrences, Expr.occurrences,
      Expr.occurrences_compile site first, occurrences_compileAll site rest]
  | .and first rest => by
    simp only [Expr.compile, Code.occurrences, codeOccurrences, Expr.occurrences,
      Expr.occurrences_compile site first, occurrences_compileAll site rest]
  | .compare first rest => by
    simp only [Expr.compile, Code.occurrences, Expr.occurrences,
      Expr.occurrences_compile site first, occurrences_compileCompare site rest]
  | .add first rest => by
    simp only [Expr.compile, Code.occurrences, Expr.occurrences,
      Expr.occurrences_compile site first, occurrences_compileAdd site rest]
  | .mul first rest => by
    simp only [Expr.compile, Code.occurrences, Expr.occurrences,
      Expr.occurrences_compile site first, occurrences_compileMul site rest]
  | .access target chain => by
    simp only [Expr.compile, Expr.occurrences, occurrences_compileChain site _ chain,
      Expr.occurrences_compile site target]
  | .assign target update => by
    simp only [Expr.compile, Expr.occurrences, Target.occurrences_compile site _ target,
      Update.occurrences_compile site update]
  | .global _ value => by
    simp only [Expr.compile, Code.occurrences, Expr.occurrences,
      Expr.occurrences_compile site value]
  | .control control => by
    simp only [Expr.compile, Code.occurrences, Expr.occurrences,
      Control.occurrences_compile site control]

theorem Control.occurrences_compile (site : Site) :
    ∀ control : Control, control.compile.occurrences site = control.occurrences site
  | .cond branches otherwise => by
    simp only [Control.compile, Control.occurrences, occurrences_compileBranches site _ branches,
      occurrences_compileOtherwise site otherwise]
  | .while condition body => by
    simp only [Control.compile, Flow.occurrences, Control.occurrences,
      Expr.occurrences_compile site.condition condition, occurrences_compileBlock .loopBody body]
  | .loop body => by
    simp only [Control.compile, Flow.occurrences, Control.occurrences,
      occurrences_compileBlock .loopBody body]
  | .forIn _ _ items body => by
    simp only [Control.compile, Flow.occurrences, Control.occurrences,
      Expr.occurrences_compile site items, occurrences_compileBlock .loopBody body]
  | .forOf _ start stop step body => by
    simp only [Control.compile, Flow.occurrences, Control.occurrences,
      Expr.occurrences_compile site start, Expr.occurrences_compile site stop,
      occurrences_compileOr? site .one rfl step, occurrences_compileBlock .loopBody body]
  | .return value => by
    simp only [Control.compile, Flow.occurrences, Control.occurrences,
      occurrences_compileOr? site (.const .null) rfl value]
  | .continue => rfl
  | .break => rfl

theorem Target.occurrences_compile (site : Site) (update : CodeUpdate) :
    ∀ target : Target, (target.compile update).occurrences site
      = (target.occurrences site ++ update.occurrences site)
  | .name _ => by
    simp only [Target.compile, Target.occurrences, CodeUpdate.occurrences_toName, List.nil_append]
  | .index container index => by
    simp only [Target.compile, Target.occurrences, CodeUpdate.occurrences_toIndex,
      Expr.occurrences_compile site container, Expr.occurrences_compile site index]
  | .member container _ => by
    simp only [Target.compile, Target.occurrences, CodeUpdate.occurrences_toMember,
      Expr.occurrences_compile site container]

theorem Update.occurrences_compile (site : Site) :
    ∀ update : Update, update.compile.occurrences site = update.occurrences site
  | .set value => by
    simp only [Update.compile, CodeUpdate.occurrences, Update.occurrences,
      Expr.occurrences_compile site value]
  | .addTo value => by
    simp only [Update.compile, CodeUpdate.occurrences, Update.occurrences,
      Expr.occurrences_compile site value]
  | .subFrom value => by
    simp only [Update.compile, CodeUpdate.occurrences, Update.occurrences,
      Expr.occurrences_compile site value]
  | .increment => rfl
  | .decrement => rfl

theorem occurrences_compileAll (site : Site) :
    ∀ es : List Expr, codeOccurrences site (compileAll es) = allOccurrences site es
  | [] => rfl
  | e :: es => by
    simp only [compileAll, codeOccurrences, allOccurrences, Expr.occurrences_compile site e,
      occurrences_compileAll site es]

theorem occurrences_compileEntries (site : Site) :
    ∀ entries : List Entry,
      codeEntryOccurrences site (compileEntries entries) = entryOccurrences site entries
  | [] => rfl
  | .named _ value :: entries => by
    simp only [compileEntries, codeEntryOccurrences, entryOccurrences,
      Expr.occurrences_compile site value, occurrences_compileEntries site entries]
  | .computed key value :: entries => by
    simp only [compileEntries, codeEntryOccurrences, entryOccurrences,
      Expr.occurrences_compile site key, Expr.occurrences_compile site value,
      occurrences_compileEntries site entries]

theorem occurrences_compileCompare (site : Site) :
    ∀ es : List (CompareOp × Expr),
      restOccurrences site (compileCompare es) = compareOccurrences site es
  | [] => rfl
  | (_, e) :: es => by
    simp only [compileCompare, restOccurrences, compareOccurrences,
      Expr.occurrences_compile site e, occurrences_compileCompare site es]

theorem occurrences_compileAdd (site : Site) :
    ∀ es : List (AddOp × Expr), restOccurrences site (compileAdd es) = addOccurrences site es
  | [] => rfl
  | (_, e) :: es => by
    simp only [compileAdd, restOccurrences, addOccurrences, Expr.occurrences_compile site e,
      occurrences_compileAdd site es]

theorem occurrences_compileMul (site : Site) :
    ∀ es : List (MulOp × Expr), restOccurrences site (compileMul es) = mulOccurrences site es
  | [] => rfl
  | (_, e) :: es => by
    simp only [compileMul, restOccurrences, mulOccurrences, Expr.occurrences_compile site e,
      occurrences_compileMul site es]

theorem occurrences_compileChain (site : Site) (target : Code) :
    ∀ chain : List Accessor, (compileChain target chain).occurrences site
      = (target.occurrences site ++ chainOccurrences site chain)
  | [] => by simp only [compileChain, chainOccurrences, List.append_nil]
  | .index index :: chain => by
    simp only [compileChain, Code.occurrences, chainOccurrences,
      occurrences_compileChain site _ chain, Expr.occurrences_compile site index, List.append_assoc]
  | .member _ :: chain => by
    simp only [compileChain, Code.occurrences, chainOccurrences,
      occurrences_compileChain site _ chain]
  | .call args :: chain => by
    simp only [compileChain, Code.occurrences, chainOccurrences,
      occurrences_compileChain site _ chain, occurrences_compileAll site args, List.append_assoc]

theorem occurrences_compileOr? (site : Site) (absent : Code)
    (habsent : absent.occurrences site = []) :
    ∀ e : Option Expr, (compileOr? absent e).occurrences site = optionOccurrences site e
  | none => habsent
  | some e => by simp only [compileOr?, optionOccurrences, Expr.occurrences_compile site e]

theorem occurrences_compileOtherwise (site : Site) :
    ∀ otherwise : Option (List Expr),
      (compileOtherwise otherwise).occurrences site = otherwiseOccurrences site otherwise
  | none => rfl
  | some body => by
    simp only [compileOtherwise, Flow.occurrences, otherwiseOccurrences,
      occurrences_compileBlock site body]

theorem occurrences_compileBranches (site : Site) (otherwise : Flow) :
    ∀ branches : List (Expr × List Expr), (compileBranches otherwise branches).occurrences site
      = (branchOccurrences site branches ++ otherwise.occurrences site)
  | [] => rfl
  | (condition, body) :: branches => by
    simp only [compileBranches, Flow.occurrences, branchOccurrences,
      occurrences_compileBranches site otherwise branches, Expr.occurrences_compile site condition,
      occurrences_compileBlock site body, List.append_assoc]

theorem occurrences_compileBlock (site : Site) :
    ∀ block : List Expr, stepOccurrences site (compileBlock block) = blockOccurrences site block
  | [] => rfl
  | e :: statements => by
    cases e <;>
      simp only [compileBlock, stepOccurrences, blockOccurrences, Expr.occurrences,
        Control.occurrences_compile site _, Expr.occurrences_compile site _,
        occurrences_compileBlock site statements]

end

end TableScript
