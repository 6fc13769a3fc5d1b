import TableScript.Proofs.Meanings

/-!
Regrouping operands. Operators of one level form one flat node, and a node may also be an operand of
another node of its level. Grouping operands from the left into a node of their own changes nothing on
any level; for `or` and `and` an operand that is a node of the same level may stand anywhere.
-/

namespace TableScript

open Eval TableScript.Numbering

/-! ### What the operands of `or` and `and` amount to -/

namespace Eval

/-- The first value that holds, or `false`. What comes after it is not evaluated. -/
def firstOf : List (Eval Value) → Eval Value
  | [] => return .bool false
  | x :: xs => do
    let value ← x
    if value.truthy then return value else firstOf xs

/-- The last value, or `false` as soon as one does not hold. -/
def allOf (last : Value) : List (Eval Value) → Eval Value
  | [] => return last
  | x :: xs => do
    let value ← x
    if value.truthy then allOf value xs else return .bool false

theorem allOf_cons (last : Value) (x : Eval Value) (xs : List (Eval Value)) :
    allOf last (x :: xs) = (do
      let value ← x
      if value.truthy then allOf value xs else return .bool false) :=
  rfl

/-- Where the first operands come to nothing, the value is that of the others. -/
theorem firstOf_append (xs ys : List (Eval Value)) :
    firstOf (xs ++ ys) = (do
      let value ← firstOf xs
      if value.truthy then return value else firstOf ys) := by
  induction xs with
  | nil => rfl
  | cons x xs ih =>
      simp only [List.cons_append, firstOf, bind_assoc]
      refine congrArg (x >>= ·) (funext fun value => ?_)
      by_cases hvalue : value.truthy
      · simp only [hvalue, if_true, pure_bind]
      · simp only [hvalue, ih]
        rfl

theorem allOf_append {last : Value} (hlast : last.truthy) (xs ys : List (Eval Value)) :
    allOf last (xs ++ ys) = (do
      let value ← allOf last xs
      if value.truthy then allOf value ys else return .bool false) := by
  induction xs generalizing last with
  | nil => simp only [List.nil_append, allOf, pure_bind, hlast, if_true]
  | cons x xs ih =>
      simp only [List.cons_append, allOf, bind_assoc]
      refine congrArg (x >>= ·) (funext fun value => ?_)
      by_cases hvalue : value.truthy
      · simp only [hvalue, if_true, ih hvalue]
      · simp only [hvalue]
        rfl

/-- An operand that is the first value of some operands can be replaced by these. -/
theorem firstOf_flatten (xs ys zs : List (Eval Value)) :
    firstOf (xs ++ firstOf ys :: zs) = firstOf (xs ++ (ys ++ zs)) := by
  rw [firstOf_append, firstOf_append xs, firstOf_append ys, firstOf]

/-- An operand that is the last value of some operands can be replaced by these. -/
theorem allOf_flatten (last : Value) (xs : List (Eval Value)) (y : Eval Value)
    (ys zs : List (Eval Value)) :
    allOf last (xs ++ allOf .null (y :: ys) :: zs) = allOf last (xs ++ (y :: ys ++ zs)) := by
  induction xs generalizing last with
  | nil =>
      simp only [List.nil_append, List.cons_append, allOf, bind_assoc]
      refine congrArg (y >>= ·) (funext fun value => ?_)
      by_cases hvalue : value.truthy
      · simp only [hvalue, if_true, allOf_append hvalue ys zs]
      · simp only [hvalue]
        rfl
  | cons x xs ih =>
      rw [List.cons_append, List.cons_append, allOf_cons last x, allOf_cons last x]
      exact congrArg (x >>= ·) (funext fun value => by rw [ih])

end Eval

/-! ### Nodes of `or` and `and` -/

section Logic

variable (m : Machine) (c : Context)

theorem evalOr_eq_firstOf (es : List Expr) :
    evalOr m c es = firstOf (es.map fun e => e.eval m c) := by
  induction es with
  | nil => rfl
  | cons e es ih => simp only [evalOr, List.map_cons, firstOf, ih]

theorem evalAnd_eq_allOf (last : Value) (es : List Expr) :
    evalAnd m c last es = allOf last (es.map fun e => e.eval m c) := by
  induction es generalizing last with
  | nil => rfl
  | cons e es ih => simp only [evalAnd, List.map_cons, allOf, ih]

theorem runOr_eq_firstOf (codes : List Code) :
    runOr m c codes = firstOf (codes.map fun code => code.run m c) := by
  induction codes with
  | nil => rfl
  | cons code codes ih => simp only [runOr, List.map_cons, firstOf, ih]

theorem runAnd_eq_allOf (last : Value) (codes : List Code) :
    runAnd m c last codes = allOf last (codes.map fun code => code.run m c) := by
  induction codes generalizing last with
  | nil => rfl
  | cons code codes ih => simp only [runAnd, List.map_cons, allOf, ih]

end Logic

/-- The meanings of operands, from left to right. -/
def meanings (setup : Setup) (es : List Expr) : Numbering (List Meaning) :=
  es.mapM (Expr.meaning setup)

section Meanings

variable (setup : Setup)

theorem meanings_cons (e : Expr) (es : List Expr) :
    meanings setup (e :: es) = (do return (← e.meaning setup) :: (← meanings setup es)) :=
  List.mapM_cons

theorem meanings_append (es es' : List Expr) :
    meanings setup (es ++ es') = (do return (← meanings setup es) ++ (← meanings setup es')) :=
  List.mapM_append

theorem meanings_interpreter (keepLists : Bool) (es : List Expr) :
    meanings ⟨.interpreter, keepLists⟩ es = pure (es.map fun e m c => e.eval m c) :=
  List.mapM_pure

theorem meanings_compiler (es : List Expr) :
    meanings ⟨.compiler, false⟩ es = pure (es.map fun e m c => e.compile.run m c) :=
  List.mapM_pure

/-- Once they are numbered, the codes of operands are run as the operands are meant. -/
theorem meanings_numbered (es : List Expr) :
    meanings ⟨.compiler, true⟩ es = (do
      let codes ← numberAll (compileAll es)
      return codes.map fun code m c => code.run m c) := by
  induction es with
  | nil => rfl
  | cons e es ih =>
      rw [meanings_cons, ih]
      simp only [Expr.meaning, compileAll, numberAll, bind_assoc, pure_bind, List.map_cons]

end Meanings

namespace Expr

/-- A node is to every engine what its operands amount to, if its tree is that, and so is the node that
its code is once it is numbered. -/
theorem meaning_of_operands {e : Expr} {es : List Expr} {node : List Code → Code}
    {amount : List (Eval Value) → Eval Value}
    (htree : ∀ m c, e.eval m c = amount (es.map fun e => e.eval m c))
    (hnumber : e.compile.number = (do return node (← numberAll (compileAll es))))
    (hrun : ∀ m c codes, (node codes).run m c = amount (codes.map fun code => code.run m c))
    (setup : Setup) :
    e.meaning setup = (do
      let xs ← meanings setup es
      return fun m c => amount (xs.map fun x => x m c)) := by
  obtain ⟨engine, keepLists⟩ := setup
  cases engine with
  | interpreter =>
      rw [meanings_interpreter, pure_bind]
      refine congrArg pure (funext fun m => funext fun c => ?_)
      rw [htree, List.map_map]
      rfl
  | compiler =>
      cases keepLists with
      | true =>
          simp only [Expr.meaning, hnumber, meanings_numbered, bind_assoc, pure_bind]
          refine congrArg (numberAll (compileAll es) >>= ·) (funext fun codes => ?_)
          refine congrArg pure (funext fun m => funext fun c => ?_)
          rw [hrun, List.map_map]
          rfl
      | false =>
          -- Without cells, a code is its tree already.
          rw [meanings_compiler, pure_bind]
          refine congrArg pure (funext fun m => funext fun c => ?_)
          rw [run_compile, htree, List.map_map]
          exact congrArg amount (List.map_congr_left fun e _ => (run_compile m c e).symm)

/-- To every engine an `or` is the first of its operands that holds. -/
theorem meaning_or (setup : Setup) (first : Expr) (rest : List Expr) :
    (Expr.or first rest).meaning setup = (do
      let xs ← meanings setup (first :: rest)
      return fun m c => firstOf (xs.map fun x => x m c)) := by
  have htree : ∀ m c, (Expr.or first rest).eval m c =
      firstOf ((first :: rest).map fun e => e.eval m c) := by
    intro m c
    simp only [Expr.eval, evalOr_eq_firstOf, List.map_cons, firstOf]
  exact meaning_of_operands htree rfl runOr_eq_firstOf setup

/-- To every engine an `and` is the last of its operands, as long as they hold. -/
theorem meaning_and (setup : Setup) (first : Expr) (rest : List Expr) :
    (Expr.and first rest).meaning setup = (do
      let xs ← meanings setup (first :: rest)
      return fun m c => allOf .null (xs.map fun x => x m c)) := by
  have htree : ∀ m c, (Expr.and first rest).eval m c =
      allOf .null ((first :: rest).map fun e => e.eval m c) := by
    intro m c
    simp only [Expr.eval, evalAnd_eq_allOf, List.map_cons, allOf]
  exact meaning_of_operands htree rfl (fun m c => runAnd_eq_allOf m c .null) setup

/-- An operand that is an `or` itself can be replaced by its operands, wherever it stands. -/
theorem firstOf_meanings_flatten (setup : Setup) (before : List Expr) (first : Expr)
    (rest after : List Expr) :
    (do let xs ← meanings setup (before ++ .or first rest :: after)
        return fun m c => firstOf (xs.map fun x => x m c) : Numbering Meaning) = (do
      let xs ← meanings setup (before ++ (first :: rest ++ after))
      return fun m c => firstOf (xs.map fun x => x m c)) := by
  simp only [meanings_append, meanings_cons _ (.or first rest), meaning_or, bind_assoc, pure_bind,
    List.map_append, List.map_cons, firstOf_flatten]

theorem allOf_meanings_flatten (setup : Setup) (before : List Expr) (first : Expr)
    (rest after : List Expr) :
    (do let xs ← meanings setup (before ++ .and first rest :: after)
        return fun m c => allOf .null (xs.map fun x => x m c) : Numbering Meaning) = (do
      let xs ← meanings setup (before ++ (first :: rest ++ after))
      return fun m c => allOf .null (xs.map fun x => x m c)) := by
  simp only [meanings_append, meanings_cons, meaning_and, bind_assoc, pure_bind, List.map_append,
    List.map_cons, allOf_flatten, List.cons_append]

end Expr

/-! ### Nodes of comparison, sums and products -/

section Folds

variable (m : Machine) (c : Context)

theorem evalCompare_append (left : Value) (es es' : List (CompareOp × Expr)) :
    evalCompare m c left (es ++ es') = (do evalCompare m c (← evalCompare m c left es) es') := by
  induction es generalizing left with
  | nil => simp only [List.nil_append, evalCompare, pure_bind]
  | cons operation es ih => simp only [List.cons_append, evalCompare, bind_assoc, ih]

theorem evalAdd_append (left : Value) (es es' : List (AddOp × Expr)) :
    evalAdd m c left (es ++ es') = (do evalAdd m c (← evalAdd m c left es) es') := by
  induction es generalizing left with
  | nil => simp only [List.nil_append, evalAdd, pure_bind]
  | cons operation es ih => simp only [List.cons_append, evalAdd, bind_assoc, ih]

theorem evalMul_append (left : Value) (es es' : List (MulOp × Expr)) :
    evalMul m c left (es ++ es') = (do evalMul m c (← evalMul m c left es) es') := by
  induction es generalizing left with
  | nil => simp only [List.nil_append, evalMul, pure_bind]
  | cons operation es ih => simp only [List.cons_append, evalMul, bind_assoc, ih]

theorem runRest_append (left : Value) (rest rest' : List (BinaryOp × Code)) :
    runRest m c left (rest ++ rest') = (do runRest m c (← runRest m c left rest) rest') := by
  induction rest generalizing left with
  | nil => simp only [List.nil_append, runRest, pure_bind]
  | cons operation rest ih => simp only [List.cons_append, runRest, bind_assoc, ih]

end Folds

theorem compileCompare_append (es es' : List (CompareOp × Expr)) :
    compileCompare (es ++ es') = compileCompare es ++ compileCompare es' := by
  induction es with
  | nil => rfl
  | cons operation es ih => exact congrArg (List.cons _) ih

theorem compileAdd_append (es es' : List (AddOp × Expr)) :
    compileAdd (es ++ es') = compileAdd es ++ compileAdd es' := by
  induction es with
  | nil => rfl
  | cons operation es ih => exact congrArg (List.cons _) ih

theorem compileMul_append (es es' : List (MulOp × Expr)) :
    compileMul (es ++ es') = compileMul es ++ compileMul es' := by
  induction es with
  | nil => rfl
  | cons operation es ih => exact congrArg (List.cons _) ih

theorem numberRest_append (rest rest' : List (BinaryOp × Code)) :
    numberRest (rest ++ rest') = (do return (← numberRest rest) ++ (← numberRest rest')) := by
  induction rest with
  | nil => simp only [List.nil_append, numberRest, pure_bind, bind_pure]
  | cons operation rest ih =>
      simp only [List.cons_append, numberRest, bind_assoc, pure_bind, ih]

/-- Numbered, a fold whose first operands are a fold of their own runs as the flat one: the operands get
the same cells, and the inner fold hands on the value that the flat one has got to. -/
theorem Code.number_fold_append (first : Code) (rest rest' : List (BinaryOp × Code)) :
    (do let code ← (Code.fold first (rest ++ rest')).number
        return fun m c => code.run m c : Numbering Meaning) = (do
      let code ← (Code.fold (.fold first rest) rest').number
      return fun m c => code.run m c) := by
  simp only [Code.number, numberRest_append, bind_assoc, pure_bind, Code.run, runRest_append]

/-- Operands can be regrouped. On every level, the operands up to any one of them can be made a node
of their own, which is then the first operand; and an operand of an `or` or `and` that is a node of
the same level can be replaced by its operands, wherever it stands. The value or fault, the store and
the operands that are evaluated are the same to every engine. -/
theorem regrouping_keeps_meaning :
    (∀ first rest rest', Expr.Equivalent (.or first (rest ++ rest')) (.or (.or first rest) rest')) ∧
    (∀ first rest rest',
      Expr.Equivalent (.and first (rest ++ rest')) (.and (.and first rest) rest')) ∧
    (∀ first rest rest',
      Expr.Equivalent (.compare first (rest ++ rest')) (.compare (.compare first rest) rest')) ∧
    (∀ first rest rest',
      Expr.Equivalent (.add first (rest ++ rest')) (.add (.add first rest) rest')) ∧
    (∀ first rest rest',
      Expr.Equivalent (.mul first (rest ++ rest')) (.mul (.mul first rest) rest')) ∧
    (∀ first before operand operands after,
      Expr.Equivalent (.or first (before ++ .or operand operands :: after))
        (.or first (before ++ (operand :: operands ++ after)))) ∧
    ∀ first before operand operands after,
      Expr.Equivalent (.and first (before ++ .and operand operands :: after))
        (.and first (before ++ (operand :: operands ++ after))) := by
  refine ⟨?_, ?_, ?_, ?_, ?_, ?_, ?_⟩
  · intro first rest rest' setup
    rw [Expr.meaning_or, Expr.meaning_or]
    exact (Expr.firstOf_meanings_flatten setup [] first rest rest').symm
  · intro first rest rest' setup
    rw [Expr.meaning_and, Expr.meaning_and]
    exact (Expr.allOf_meanings_flatten setup [] first rest rest').symm
  · intro first rest rest'
    refine .of_trees (fun m c => ?_) ?_
    · simp only [Expr.eval, evalCompare_append, bind_assoc]
    · simp only [Expr.compile, compileCompare_append, Code.number_fold_append]
  · intro first rest rest'
    refine .of_trees (fun m c => ?_) ?_
    · simp only [Expr.eval, evalAdd_append, bind_assoc]
    · simp only [Expr.compile, compileAdd_append, Code.number_fold_append]
  · intro first rest rest'
    refine .of_trees (fun m c => ?_) ?_
    · simp only [Expr.eval, evalMul_append, bind_assoc]
    · simp only [Expr.compile, compileMul_append, Code.number_fold_append]
  · intro first before operand operands after setup
    rw [Expr.meaning_or, Expr.meaning_or]
    exact Expr.firstOf_meanings_flatten setup (first :: before) operand operands after
  · intro first before operand operands after setup
    rw [Expr.meaning_and, Expr.meaning_and]
    exact Expr.allOf_meanings_flatten setup (first :: before) operand operands after

end TableScript
