import TableScript.Proofs.Keys
import TableScript.Proofs.Meanings

/-!
Table literals and assignments. A literal evaluates its keys and values from left to right and puts them
into a new table. What it makes of them is what assignments make of them that are performed one after
another on an empty table, except for `null`: an assignment of `null` takes the key out, and a literal
only leaves the entry out.
-/

namespace TableScript

open Eval TableScript.Numbering Entries

/-! ### The parts of a literal -/

/-- The key and the value of an entry, as an engine means them. -/
def Entry.meaning (setup : Setup) : Entry → Numbering (Meaning × Meaning)
  | .named text value => do
    let value ← value.meaning setup
    return (fun _ _ => return .string text, value)
  | .computed key value => do
    let key ← key.meaning setup
    let value ← value.meaning setup
    return (key, value)

/-- How the keys and values of a literal are evaluated, where the given cell is the first free one. -/
def entryParts (setup : Setup) (entries : List Entry) (first : Nat) (m : Machine) (c : Context) :
    List (Eval Value × Eval Value) :=
  ((entries.mapM (Entry.meaning setup)).startingAt first).1.map fun part => (part.1 m c, part.2 m c)

/-- Keys and values are evaluated in turn, without a fault, and each key is one that a table can have. -/
inductive InTurn : Store → List (Eval Value × Eval Value) → List (Value × Value) → Store → Prop where
  | nil (s : Store) : InTurn s [] [] s
  | cons {s s₁ s₂ s₃ : Store} {key value : Eval Value} {k v : Value} {found : Key}
      {parts : List (Eval Value × Eval Value)} {pairs : List (Value × Value)}
      (hkey : key s = .ok k s₁) (hfound : Key.ofValue k = .ok found) (hvalue : value s₁ = .ok v s₂)
      (hrest : InTurn s₂ parts pairs s₃) : InTurn s ((key, value) :: parts) ((k, v) :: pairs) s₃

/-! ### What a literal makes of its parts -/

/-- Puts keys and values into a table, one after another. An entry whose value is `null` is left out. -/
def Eval.fillTable (table : Table) : List (Eval Value × Eval Value) → Eval Table
  | [] => return table
  | (key, value) :: parts => do
    let found ← Eval.ofExcept (Key.ofValue (← key))
    let v ← value
    fillTable (if v.isNull then table else table.insert found v) parts

section Parts

variable (setup : Setup) (table : Table) (entries : List Entry) (first : Nat) (m : Machine) (c : Context)

theorem entryParts_named (text : String) (value : Expr) :
    entryParts setup (.named text value :: entries) first m c =
      (return .string text, ((value.meaning setup).startingAt first).1 m c) ::
        entryParts setup entries ((value.meaning setup).startingAt first).2 m c := by
  simp only [entryParts, List.mapM_cons, Entry.meaning, startingAt_bind, startingAt_pure, List.map_cons]

theorem entryParts_computed (key value : Expr) :
    entryParts setup (.computed key value :: entries) first m c =
      let part := (key.meaning setup).startingAt first
      (part.1 m c, ((value.meaning setup).startingAt part.2).1 m c) ::
        entryParts setup entries ((value.meaning setup).startingAt part.2).2 m c := by
  simp only [entryParts, List.mapM_cons, Entry.meaning, startingAt_bind, startingAt_pure, List.map_cons]

theorem fillTable_named (text : String) (value : Expr) :
    fillTable table (entryParts setup (.named text value :: entries) first m c) = (do
      let part := (value.meaning setup).startingAt first
      let v ← part.1 m c
      fillTable (if v.isNull then table else table.insert (.string text) v)
        (entryParts setup entries part.2 m c)) := by
  simp only [entryParts_named, fillTable, pure_bind, Key.ofValue, Eval.ofExcept]

theorem fillTable_computed (key value : Expr) :
    fillTable table (entryParts setup (.computed key value :: entries) first m c) = (do
      let part := (key.meaning setup).startingAt first
      let found ← Eval.ofExcept (Key.ofValue (← part.1 m c))
      let part := (value.meaning setup).startingAt part.2
      let v ← part.1 m c
      fillTable (if v.isNull then table else table.insert found v)
        (entryParts setup entries part.2 m c)) := by
  simp only [entryParts_computed, fillTable]

theorem evalEntries_eq_fillTable (keepLists : Bool) : evalEntries m c table entries =
    fillTable table (entryParts ⟨.interpreter, keepLists⟩ entries first m c) := by
  induction entries generalizing table first with
  | nil => rfl
  | cons entry entries ih =>
      cases entry with
      | named text value =>
          rw [fillTable_named, evalEntries]
          exact congrArg (value.eval m c >>= ·) (funext fun v => ih _ _)
      | computed key value =>
          rw [fillTable_computed, evalEntries]
          refine congrArg (key.eval m c >>= ·) (funext fun k => ?_)
          refine congrArg (Eval.ofExcept (Key.ofValue k) >>= ·) (funext fun found => ?_)
          exact congrArg (value.eval m c >>= ·) (funext fun v => ih _ _)

theorem runEntries_eq_fillTable : runEntries m c table (compileEntries entries) =
    fillTable table (entryParts ⟨.compiler, false⟩ entries first m c) := by
  induction entries generalizing table first with
  | nil => rfl
  | cons entry entries ih =>
      cases entry with
      | named text value =>
          rw [fillTable_named, compileEntries, runEntries]
          exact congrArg (value.compile.run m c >>= ·) (funext fun v => ih _ _)
      | computed key value =>
          rw [fillTable_computed, compileEntries, runEntries]
          refine congrArg (key.compile.run m c >>= ·) (funext fun k => ?_)
          refine congrArg (Eval.ofExcept (Key.ofValue k) >>= ·) (funext fun found => ?_)
          exact congrArg (value.compile.run m c >>= ·) (funext fun v => ih _ _)

theorem runEntries_numbered_eq_fillTable :
    runEntries m c table ((numberEntries (compileEntries entries)).startingAt first).1 =
      fillTable table (entryParts ⟨.compiler, true⟩ entries first m c) := by
  induction entries generalizing table first with
  | nil => rfl
  | cons entry entries ih =>
      cases entry with
      | named text value =>
          rw [fillTable_named]
          simp only [compileEntries, numberEntries, startingAt_bind, startingAt_pure, runEntries]
          exact congrArg (_ >>= ·) (funext fun v => ih _ _)
      | computed key value =>
          rw [fillTable_computed]
          simp only [compileEntries, numberEntries, startingAt_bind, startingAt_pure, runEntries]
          refine congrArg (_ >>= ·) (funext fun k => ?_)
          refine congrArg (Eval.ofExcept (Key.ofValue k) >>= ·) (funext fun found => ?_)
          exact congrArg (_ >>= ·) (funext fun v => ih _ _)

/-- To every engine a table literal is a new table with what its parts come to. -/
theorem Expr.meaning_table :
    (((Expr.table entries).meaning setup).startingAt first).1 m c = (do
      newTable (← fillTable .empty (entryParts setup entries first m c))) := by
  obtain ⟨engine, keepLists⟩ := setup
  cases engine with
  | interpreter =>
      rw [← evalEntries_eq_fillTable]
      rfl
  | compiler =>
      cases keepLists with
      | false =>
          rw [← runEntries_eq_fillTable]
          rfl
      | true =>
          rw [← runEntries_numbered_eq_fillTable]
          rfl

variable {setup entries first m c}

theorem Expr.meaning_table_ok {s s₁ : Store} {filled : Table}
    (hfill : fillTable .empty (entryParts setup entries first m c) s = .ok filled s₁) :
    (((Expr.table entries).meaning setup).startingAt first).1 m c s =
      .ok (.table (s₁.newTable filled).1) (s₁.newTable filled).2 := by
  rw [Expr.meaning_table, bind_apply, hfill]
  rfl

end Parts

/-! ### Assignments in turn -/

namespace Store

/-- Performs assignments to one container, one after another. -/
def assignAll (s : Store) (container : Value) (pairs : List (Value × Value)) : Except Fault Store :=
  pairs.foldlM (fun s pair => s.setIndex container pair.1 pair.2) s

variable {s : Store} {t : TableRef} {k v : Value} {key : Key}

theorem assignAll_cons (hkey : Key.ofValue k = .ok key) (pairs : List (Value × Value)) :
    s.assignAll (.table t) ((k, v) :: pairs) =
      (s.write (.key t key) v).assignAll (.table t) pairs := by
  rw [assignAll, List.foldlM_cons, setIndex, place_table hkey]
  rfl

/-- What an assignment to a table makes of its entries. -/
theorem toList_write (h : s.Holds (.table t)) (key : Key) (v : Value) :
    ((s.write (.key t key) v).table t).toList =
      if v.isNull then without key (s.table t).toList else put key v (s.table t).toList := by
  have htable : (s.write (.key t key) v).table t =
      if v.isNull then (s.table t).erase key else (s.table t).insert key v :=
    s.table_modifyTable h.1 _
  rw [htable]
  split
  · exact (h.2.remove_eq key).2
  · exact h.2.toList_insert key v

theorem holds_write (h : s.Holds (.table t)) (key : Key) (v : Value) :
    (s.write (.key t key) v).Holds (.table t) := by
  have hsize : (s.write (.key t key) v).tables.size = s.tables.size := Array.size_modify
  exact ⟨hsize ▸ h.1, table_write_valid h.1 h.2 key v⟩

end Store

/-- No `null` comes after a value with the same key. -/
def NullsFirst (pairs : List (Value × Value)) : Prop :=
  pairs.Pairwise fun pair later =>
    later.2 = .null → pair.2 ≠ .null → Key.ofValue pair.1 ≠ Key.ofValue later.1

namespace InTurn

variable {s s₁ s₂ s₃ : Store} {parts : List (Eval Value × Eval Value)} {pairs : List (Value × Value)}
  {table filled : Table}

/-- One entry of a literal. -/
theorem fillTable_cons {key value : Eval Value} {k v : Value} {found : Key} (hkey : key s = .ok k s₁)
    (hfound : Key.ofValue k = .ok found) (hvalue : value s₁ = .ok v s₂) :
    fillTable table ((key, value) :: parts) s =
      fillTable (if v.isNull then table else table.insert found v) parts s₂ := by
  rw [fillTable, bind_apply, hkey]
  simp only [hfound, Eval.ofExcept, pure_bind]
  rw [bind_apply, hvalue]

theorem fillTable_ok (h : InTurn s parts pairs s₁) (table : Table) :
    ∃ filled, fillTable table parts s = .ok filled s₁ := by
  induction h generalizing table with
  | nil s => exact ⟨table, rfl⟩
  | cons hkey hfound hvalue _ ih =>
      rw [fillTable_cons hkey hfound hvalue]
      exact ih _

/-- A literal has the entries that assignments leave. Any assignment of `null` may be left out of them,
and those that are kept must not find their key. -/
theorem assigns (h : InTurn s parts pairs s₁) (hfill : fillTable table parts s = .ok filled s₁)
    (hvalid : table.Valid) {s₀ : Store} {t : TableRef} (hholds : s₀.Holds (.table t))
    (hsame : (s₀.table t).toList = table.toList) {keep : Value × Value → Bool}
    (hkeep : ∀ pair, keep pair = false → pair.2 = .null) (horder : NullsFirst (pairs.filter keep))
    (habsent : ∀ pair ∈ pairs.filter keep, pair.2 = .null →
      ∀ key, Key.ofValue pair.1 = .ok key → key ∉ keys table.toList) :
    ∃ s', s₀.assignAll (.table t) (pairs.filter keep) = .ok s' ∧
      (s'.table t).toList = filled.toList := by
  induction h generalizing table s₀ with
  | nil s =>
      cases hfill
      exact ⟨s₀, rfl, hsame⟩
  | @cons _ _ _ _ key value k v found _ pairs hkey hfound hvalue _ ih =>
      rw [fillTable_cons hkey hfound hvalue] at hfill
      by_cases hkept : keep (k, v) = true
      case neg =>
        obtain rfl : v = .null := hkeep (k, v) (Bool.eq_false_iff.2 hkept)
        rw [List.filter_cons_of_neg hkept] at horder habsent ⊢
        exact ih hfill hvalid hholds hsame horder habsent
      rw [List.filter_cons_of_pos hkept] at horder habsent ⊢
      obtain ⟨hfirst, hlater⟩ := List.pairwise_cons.1 horder
      obtain ⟨hhere, hthere⟩ := List.forall_mem_cons.1 habsent
      rw [Store.assignAll_cons hfound]
      have hwritten := Store.toList_write hholds found v
      have hholds' := Store.holds_write hholds found v
      by_cases hnull : v = .null
      · have hisNull : v.isNull = true := hnull ▸ rfl
        rw [hisNull, if_pos rfl] at hfill hwritten
        refine ih hfill hvalid hholds' ?_ hlater hthere
        rw [hwritten, hsame, without_of_absent (hhere hnull found hfound)]
      · have hisNull := Value.isNull_eq_false_iff.2 hnull
        rw [hisNull, if_neg Bool.false_ne_true] at hfill hwritten
        refine ih hfill (hvalid.insert found v) hholds' ?_ hlater ?_
        · rw [hwritten, hvalid.toList_insert, hsame]
        · -- the key just written is not that of a `null` to come
          intro pair hpair hpairNull key hpairKey hmem
          rw [hvalid.toList_insert] at hmem
          obtain ⟨entry, hentry, rfl⟩ := List.mem_map.1 hmem
          rcases mem_of_mem_put hentry with rfl | hentry
          · exact hfirst pair hpair hpairNull hnull (hfound.trans hpairKey.symm)
          · exact hthere pair hpair hpairNull entry.1 hpairKey (List.mem_map_of_mem hentry)

end InTurn

/-- A table literal is its assignments. Where the keys and values of a literal evaluate in turn without a
fault, every engine makes a new table of them, and its entries are, in order, those that an empty table
has after the assignments of all values that are not `null`: a repeated key keeps its place and takes
the later value. The assignments of `null` may be performed too, except where `null` comes after a value
with the same key: an assignment takes the key out then, and the literal does not. -/
theorem table_literal_assigns_values (setup : Setup) (entries : List Entry) (first : Nat) (m : Machine)
    (c : Context) (s s₁ : Store) (pairs : List (Value × Value))
    (h : InTurn s (entryParts setup entries first m c) pairs s₁) :
    ∃ ref s₂, (((Expr.table entries).meaning setup).startingAt first).1 m c s = .ok (.table ref) s₂ ∧
      s₁.newTable (s₂.table ref) = (ref, s₂) ∧
      ∀ (s₀ : Store) (t : TableRef), s₀.Holds (.table t) → (s₀.table t).toList = [] →
        (∃ s', s₀.assignAll (.table t) (pairs.filter fun pair => !pair.2.isNull) = .ok s' ∧
          (s'.table t).toList = (s₂.table ref).toList) ∧
        (NullsFirst pairs → ∃ s', s₀.assignAll (.table t) pairs = .ok s' ∧
          (s'.table t).toList = (s₂.table ref).toList) := by
  obtain ⟨filled, hfill⟩ := h.fillTable_ok .empty
  refine ⟨_, _, Expr.meaning_table_ok hfill, ?_, fun s₀ t hholds hempty => ?_⟩
  · rw [Store.table_newTable]
  · rw [Store.table_newTable]
    have hassigns := @InTurn.assigns _ _ _ _ _ _ h hfill Table.valid_empty s₀ t hholds hempty
    constructor
    · have hvalues : ∀ pair ∈ pairs.filter fun pair => !pair.2.isNull, pair.2 ≠ .null := by
        intro pair hpair
        have hisNull := (List.mem_filter.1 hpair).2
        exact Value.isNull_eq_false_iff.1 (by simpa using hisNull)
      refine hassigns ?_ ?_ fun pair hpair hnull => absurd hnull (hvalues pair hpair)
      · intro pair hleftOut
        by_contra hvalue
        rw [Value.isNull_eq_false_iff.2 hvalue] at hleftOut
        cases hleftOut
      · exact List.pairwise_of_forall_mem_list fun _ _ later hlater hnull =>
          absurd hnull (hvalues later hlater)
    · intro horder
      have hall := @hassigns fun _ => true
      rw [List.filter_true] at hall
      exact hall (fun _ h => by cases h) horder fun _ _ _ _ _ hmem => by cases hmem

/-- `{[-0]: 1, [0]: 2, b: null}`, where both numbers have one key. -/
theorem table_literal_assigns_values_zeros :
    let entries := [Entry.computed (.number (-0.0)) (.number 1.0), .computed (.number 0.0) (.number 2.0),
      .named "b" .null]
    let pairs := [(Value.number (-0.0), Value.number 1.0), (.number 0.0, .number 2.0),
      (.string "b", .null)]
    NullsFirst pairs ∧ ∀ (m : Machine) (c : Context),
      InTurn .empty (entryParts ⟨.compiler, true⟩ entries 0 m c) pairs .empty ∧
        ∃ ref s₂ s', (((Expr.table entries).meaning ⟨.compiler, true⟩).startingAt 0).1 m c .empty =
            .ok (.table ref) s₂ ∧
          emptyTableStore.assignAll (.table ⟨0⟩) pairs = .ok s' ∧
          (s'.table ⟨0⟩).toList = (s₂.table ref).toList := by
  intro entries pairs
  have hnegative : Key.ofValue (.number (-0.0)) = .ok (.ofNumber (-0.0)) := by decide +kernel
  have hpositive : Key.ofValue (.number 0.0) = .ok (.ofNumber 0.0) := by decide +kernel
  have hstring : Key.ofValue (.string "b") = .ok (.string "b") := rfl
  have horder : NullsFirst pairs := by
    simp [NullsFirst, pairs, hnegative, hpositive, hstring, Key.ofNumber]
  refine ⟨horder, fun m c => ?_⟩
  have hturn : InTurn .empty (entryParts ⟨.compiler, true⟩ entries 0 m c) pairs .empty := by
    simp only [entries, entryParts_computed, entryParts_named]
    exact .cons rfl hnegative rfl (.cons rfl hpositive rfl (.cons rfl rfl rfl (.nil _)))
  obtain ⟨ref, s₂, hliteral, -, hassign⟩ := table_literal_assigns_values _ _ _ _ _ _ _ _ hturn
  obtain ⟨s', hassigned, hsame⟩ :=
    (hassign emptyTableStore ⟨0⟩ ⟨by decide, Table.valid_empty⟩ rfl).2 horder
  exact ⟨hturn, ref, s₂, s', hliteral, hassigned, hsame⟩

/-- In `{a: 1, a: null}` the `null` takes nothing out, and the assignment of it would. -/
theorem null_entry_takes_nothing_out :
    let entries := [Entry.named "a" (.number 1.0), .named "a" .null]
    let pairs := [(Value.string "a", Value.number 1.0), (.string "a", .null)]
    (∃ s', emptyTableStore.assignAll (.table ⟨0⟩) pairs = .ok s' ∧ (s'.table ⟨0⟩).toList = []) ∧
      ∀ (setup : Setup) (m : Machine) (c : Context),
        InTurn .empty (entryParts setup entries 0 m c) pairs .empty ∧
          ∃ ref s₂, (((Expr.table entries).meaning setup).startingAt 0).1 m c .empty =
              .ok (.table ref) s₂ ∧
            (s₂.table ref).toList = [(.string "a", .number 1.0)] := by
  intro entries pairs
  have hholds : emptyTableStore.Holds (.table ⟨0⟩) := ⟨by decide, Table.valid_empty⟩
  refine ⟨?_, fun setup m c => ?_⟩
  · refine ⟨_, (Store.assignAll_cons rfl _).trans (Store.assignAll_cons rfl []), ?_⟩
    rw [Store.toList_write (Store.holds_write hholds _ _), Store.toList_write hholds]
    rfl
  · have hturn : InTurn .empty (entryParts setup entries 0 m c) pairs .empty := by
      simp only [entries, entryParts_named]
      obtain ⟨_ | _, _ | _⟩ := setup <;> exact .cons rfl rfl rfl (.cons rfl rfl rfl (.nil _))
    have hfill : fillTable .empty (entryParts setup entries 0 m c) .empty =
        .ok (Table.empty.insert (.string "a") (.number 1.0)) .empty := by
      simp only [entries, entryParts_named]
      obtain ⟨_ | _, _ | _⟩ := setup <;>
        exact (InTurn.fillTable_cons rfl rfl rfl).trans (InTurn.fillTable_cons rfl rfl rfl)
    refine ⟨hturn, _, _, Expr.meaning_table_ok hfill, ?_⟩
    rw [Store.table_newTable, Table.valid_empty.toList_insert]
    rfl

end TableScript
