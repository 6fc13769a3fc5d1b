import Mathlib.Data.List.Forall2
import TableScript.Proofs.Composition
import TableScript.Proofs.DataSyntax
import TableScript.Proofs.KeptLists

/-!
Running the text of data makes a copy of it. Literals only add lists and tables to a store, so what
the first ones have made is still there when the last one is done. That holds for both engines, and
whether or not list literals keep their lists: each literal of the text runs once, when its cell is
still empty.
-/

namespace TableScript

open Entries TableScript.Numbering

/-! ### Copies -/

namespace Store

/-- In `t` the second value is a copy of what the first one is in `s`: a list of copies in the same
order, a table with copies under the same keys in the same order, or an equal value without parts. -/
def Copies (s t : Store) : Nat → Value → Value → Prop
  | depth + 1, .list ref, copy =>
    ∃ made elements, copy = .list made ∧ t.lists[made.index]? = some elements ∧
      List.Forall₂ (s.Copies t depth) (s.list ref).toList elements.toList
  | depth + 1, .table ref, copy =>
    ∃ made table, copy = .table made ∧ t.tables[made.index]? = some table ∧
      List.Forall₂ (fun entry entry' => entry.1 = entry'.1 ∧ s.Copies t depth entry.2 entry'.2)
        (s.table ref).toList table.toList
  | 0, .list _, _ | 0, .table _, _ => False
  | _, value, copy => value.equal copy

/-- The lists and tables of one store are those of another one and perhaps more. -/
structure GrowsInto (t t' : Store) : Prop where
  lists : ∀ {i : Nat} {elements}, t.lists[i]? = some elements → t'.lists[i]? = some elements
  tables : ∀ {i : Nat} {table}, t.tables[i]? = some table → t'.tables[i]? = some table

/-- All cells from the given one on are empty. -/
def EmptyFrom (t : Store) (first : Nat) : Prop :=
  ∀ cell : CellRef, first ≤ cell.index → t.cell? cell = none

variable {s t t' : Store} {depth : Nat} {value copy : Value}

namespace GrowsInto

theorem refl (t : Store) : t.GrowsInto t :=
  ⟨id, id⟩

theorem trans {t'' : Store} (h : t.GrowsInto t') (h' : t'.GrowsInto t'') : t.GrowsInto t'' :=
  ⟨fun hlist => h'.lists (h.lists hlist), fun htable => h'.tables (h.tables htable)⟩

theorem newList (t : Store) (elements : Array Value) : t.GrowsInto (t.newList elements).2 where
  lists {i} _ hlist := by
    have hlt := (Array.getElem?_eq_some_iff.1 hlist).1
    rw [Store.newList, Array.getElem?_push_lt hlt, ← hlist, Array.getElem?_eq_getElem]
  tables := id

theorem newTable (t : Store) (table : Table) : t.GrowsInto (t.newTable table).2 where
  lists := id
  tables {i} _ htable := by
    have hlt := (Array.getElem?_eq_some_iff.1 htable).1
    rw [Store.newTable, Array.getElem?_push_lt hlt, ← htable, Array.getElem?_eq_getElem]

end GrowsInto

theorem copies_scalar (h : value.IsScalar) (depth : Nat) :
    s.Copies t depth value copy ↔ value.equal copy := by
  cases value with
  | list | table | function | native => cases h
  | null | bool | number | string => cases depth <;> exact Iff.rfl

/-- A copy stays one while the store grows. -/
theorem Copies.mono (h : s.Copies t depth value copy) (hgrow : t.GrowsInto t') :
    s.Copies t' depth value copy := by
  induction depth generalizing value copy with
  | zero =>
      cases value with
      | list | table => cases h
      | _ => exact h
  | succ depth ih =>
      cases value with
      | list ref =>
          obtain ⟨made, elements, rfl, hlist, hcopies⟩ := h
          exact ⟨made, elements, rfl, hgrow.lists hlist, hcopies.imp fun _ _ => ih⟩
      | table ref =>
          obtain ⟨made, table, rfl, htable, hcopies⟩ := h
          exact ⟨made, table, rfl, hgrow.tables htable,
            hcopies.imp fun _ _ hentry => ⟨hentry.1, ih hentry.2⟩⟩
      | _ => exact h

theorem Copies.isNull_eq_false (h : s.Copies t depth value copy) (hvalue : value ≠ .null) :
    copy.isNull = false := by
  cases copy with
  | null =>
      cases depth <;> cases value <;> simp [Copies, Value.equal] at h hvalue
  | _ => rfl

theorem cell?_fillCell_of_ne {cell other : CellRef} (hne : cell ≠ other) (t : Store)
    (list : ListRef) : (t.fillCell cell list).cell? other = t.cell? other := by
  have hindex : cell.index ≠ other.index := fun heq => hne (by cases cell; cases other; cases heq; rfl)
  simp [cell?, fillCell, Array.getElem?_modify, hindex]

end Store

/-! ### Evaluation that makes copies -/

namespace Eval

variable {α : Type} {s : Store} {depth first mid next : Nat}

/-- If all cells from `first` on are empty, an evaluation ends with a value of which `made` holds. It
only adds lists and tables, and leaves the cells from `next` on empty. -/
def Makes (first next : Nat) (made : Store → α → Prop) (x : Eval α) : Prop :=
  ∀ t : Store, t.EmptyFrom first →
    ∃ a t', x t = .ok a t' ∧ t.GrowsInto t' ∧ t'.EmptyFrom next ∧ made t' a

/-- An evaluation makes copies of some values. -/
def MakesAll (s : Store) (depth first next : Nat) (values : List Value) :
    Eval (List Value) → Prop :=
  Makes first next fun t copies => List.Forall₂ (s.Copies t depth) values copies

/-- An evaluation adds copies of some entries to a table. -/
def MakesEntries (s : Store) (depth first next : Nat) (table : Table) (entries : Entries) :
    Eval Table → Prop :=
  Makes first next fun t made => ∃ added, made.toList = table.toList ++ added ∧
    List.Forall₂ (fun entry entry' => entry.1 = entry'.1 ∧ s.Copies t depth entry.2 entry'.2)
      entries added

theorem Makes.pure {made : Store → α → Prop} {a : α} (h : ∀ t, made t a) (first : Nat) :
    Makes first first made (Pure.pure a) :=
  fun t hempty => ⟨a, t, rfl, .refl t, hempty, h t⟩

theorem MakesAll.cons {value : Value} {values : List Value} {x : Eval Value}
    {y : Eval (List Value)} (hx : Makes first mid (fun t => s.Copies t depth value) x)
    (hy : MakesAll s depth mid next values y) :
    MakesAll s depth first next (value :: values) (do
      let copy ← x
      return copy :: (← y)) := by
  intro t hempty
  obtain ⟨copy, t₁, hrun, hgrow, hempty₁, hcopy⟩ := hx t hempty
  obtain ⟨copies, t₂, hrun₂, hgrow₂, hempty₂, hcopies⟩ := hy t₁ hempty₁
  refine ⟨copy :: copies, t₂, ?_, hgrow.trans hgrow₂, hempty₂, .cons (hcopy.mono hgrow₂) hcopies⟩
  rw [bind_apply, hrun]
  simp only
  rw [bind_apply, hrun₂]
  rfl

/-- A list of copies is a copy of the list. -/
theorem MakesAll.newList {ref : ListRef} {x : Eval (List Value)}
    (hx : MakesAll s depth first next (s.list ref).toList x) :
    Makes first next (fun t => s.Copies t (depth + 1) (.list ref)) (do Eval.newList (← x)) := by
  intro t hempty
  obtain ⟨copies, t₁, hrun, hgrow, hempty₁, hcopies⟩ := hx t hempty
  have hnew := Store.GrowsInto.newList t₁ copies.toArray
  refine ⟨.list ⟨t₁.lists.size⟩, (t₁.newList copies.toArray).2, ?_, hgrow.trans hnew, hempty₁,
    ⟨t₁.lists.size⟩, copies.toArray, rfl, ?_, ?_⟩
  · rw [bind_apply, hrun]
    rfl
  · simp [Store.newList]
  · exact hcopies.imp fun _ _ hcopy => hcopy.mono hnew

/-- An evaluation of a literal that finds its cell empty, and still does when it has its elements. -/
theorem fillList_run {cell : CellRef} {x : Eval (List Value)} {t t₁ : Store} {copies : List Value}
    (hrun : x (t.record (.entered cell)) = .ok copies t₁) (hcell : t₁.cell? cell = none) :
    ∃ (made : ListRef) (t' : Store), fillList cell x t = .ok (.list made) t' ∧ t₁.GrowsInto t' ∧
      t'.lists[made.index]? = some copies.toArray ∧
      ∀ other, cell ≠ other → t'.cell? other = t₁.cell? other := by
  let made := (t₁.newList copies.toArray).1
  let filled := (t₁.newList copies.toArray).2.fillCell cell made
  have hkept : (filled.cell? cell).getD made = made := Store.getD_cell?_fillCell hcell made
  have hnew := Store.GrowsInto.newList t₁ copies.toArray
  have hrest : fillList cell x t = .ok (.list ((filled.cell? cell).getD made))
      (filled.record (.completed cell made ((filled.cell? cell).getD made))) := by
    change (x >>= _) (t.record (.entered cell)) = _
    rw [bind_apply, hrun]
    rfl
  rw [hkept] at hrest
  refine ⟨made, _, hrest, ⟨hnew.lists, hnew.tables⟩, ?_, ?_⟩
  · exact Array.getElem?_push_size
  · intro other hother
    exact Store.cell?_fillCell_of_ne hother _ made

/-- A literal whose cell is the first one after those of its elements. -/
theorem MakesAll.keepList {ref : ListRef} {x : Eval (List Value)} (hle : first ≤ next)
    (hx : MakesAll s depth first next (s.list ref).toList x) :
    Makes first (next + 1) (fun t => s.Copies t (depth + 1) (.list ref))
      (Eval.keepList ⟨next⟩ x) := by
  intro t hempty
  obtain ⟨copies, t₁, hrun, hgrow, hempty₁, hcopies⟩ := hx (t.record (.entered ⟨next⟩)) hempty
  obtain ⟨made, t', hfill, hgrow', hlist, hcells⟩ :=
    fillList_run hrun (hempty₁ ⟨next⟩ (Nat.le_refl next))
  refine ⟨.list made, t', ?_, Store.GrowsInto.trans ⟨hgrow.lists, hgrow.tables⟩ hgrow', ?_, made,
    copies.toArray, rfl, hlist, hcopies.imp fun _ _ hcopy => hcopy.mono hgrow'⟩
  · rw [Eval.keepList, get_bind_apply, hempty ⟨next⟩ hle]
    exact hfill
  · intro cell hcell
    have hne : (⟨next⟩ : CellRef) ≠ cell := by
      rintro rfl
      exact Nat.lt_irrefl next hcell
    rw [hcells cell hne]
    exact hempty₁ cell (Nat.le_of_succ_le hcell)

/-- An entry whose key is not yet there. -/
theorem MakesEntries.cons (rest : Table → Eval Table) {table : Table} {entry : Key × Value}
    {entries : Entries} (hvalid : table.Valid) (habsent : entry.1 ∉ keys table.toList) (hnull : entry.2 ≠ .null)
    {x : Eval Value} (hx : Makes first mid (fun t => s.Copies t depth entry.2) x)
    (hrest : ∀ copy, MakesEntries s depth mid next (table.insert entry.1 copy) entries
      (rest (table.insert entry.1 copy))) :
    MakesEntries s depth first next table (entry :: entries) (do
      let value ← x
      rest (if value.isNull then table else table.insert entry.1 value)) := by
  intro t hempty
  obtain ⟨copy, t₁, hrun, hgrow, hempty₁, hcopy⟩ := hx t hempty
  obtain ⟨made, t₂, hrun₂, hgrow₂, hempty₂, added, hadded, hcopies⟩ := hrest copy t₁ hempty₁
  rw [hvalid.toList_insert, put_of_absent habsent, List.append_assoc] at hadded
  refine ⟨made, t₂, ?_, hgrow.trans hgrow₂, hempty₂, (entry.1, copy) :: added, hadded,
    .cons ⟨rfl, hcopy.mono hgrow₂⟩ hcopies⟩
  rw [bind_apply, hrun]
  simp only
  rw [hcopy.isNull_eq_false hnull]
  exact hrun₂

/-- A table with copies of the entries of a table is a copy of it. -/
theorem MakesEntries.newTable {ref : TableRef} {x : Eval Table}
    (hx : MakesEntries s depth first next .empty (s.table ref).toList x) :
    Makes first next (fun t => s.Copies t (depth + 1) (.table ref)) (do Eval.newTable (← x)) := by
  intro t hempty
  obtain ⟨made, t₁, hrun, hgrow, hempty₁, added, hadded, hcopies⟩ := hx t hempty
  have hnew := Store.GrowsInto.newTable t₁ made
  refine ⟨.table ⟨t₁.tables.size⟩, (t₁.newTable made).2, ?_, hgrow.trans hnew, hempty₁,
    ⟨t₁.tables.size⟩, made, rfl, Array.getElem?_push_size, ?_⟩
  · rw [bind_apply, hrun]
    rfl
  · rw [hadded]
    exact hcopies.imp fun _ _ hentry => ⟨hentry.1, hentry.2.mono hnew⟩

end Eval

/-! ### Literals -/

/-- What the literal of a value without parts evaluates to. -/
def Value.copy : Value → Value
  | number x => number (if Number.isSigned x then -Number.size x else Number.size x)
  | value => value

namespace Value.IsScalar

variable {value : Value}

theorem equal_copy (h : value.IsScalar) : value.equal value.copy := by
  cases value with
  | list | table | function | native => cases h
  | number x => exact (Number.reads h).same
  | null | bool | string => simp [Value.copy, Value.equal]

theorem eval_literal (h : value.IsScalar) (m : Machine) (c : Context) :
    value.literal.eval m c = pure value.copy := by
  cases value with
  | list | table | function | native => cases h
  | null | bool | string => rfl
  | number x =>
      rw [Value.literal, Value.copy]
      cases Number.isSigned x <;> rfl

theorem number_literal (h : value.IsScalar) (first : Nat) :
    value.literal.compile.number.startingAt first = (value.literal.compile, first) := by
  cases value with
  | list | table | function | native => cases h
  | null | bool | string => rfl
  | number x =>
      rw [Value.literal]
      cases Number.isSigned x <;> rfl

end Value.IsScalar

theorem Key.Legible.ofValue_copy {key : Key} (h : key.Legible) :
    Key.ofValue key.toValue.copy = .ok key := by
  cases h with
  | string => rfl
  | number hfinite hnonneg =>
      obtain ⟨shown, digits, size, hvalue, -, hreads, hkey⟩ := Key.exists_reads hfinite hnonneg
      obtain ⟨hsigned, -, rfl⟩ := hreads.eq
      rw [hvalue, Value.copy, hsigned]
      exact hkey

namespace Store

open Eval

variable {s : Store} {depth : Nat} {value : Value} (m : Machine) (c : Context)

theorem copies_copy (h : value.IsScalar) (t : Store) (depth : Nat) :
    s.Copies t depth value value.copy :=
  (copies_scalar h depth).2 h.equal_copy

/-! ### Trees -/

theorem evalAll_makes {first : Nat} {values : List Value} {literal : Value → Expr}
    (h : ∀ value ∈ values, Makes first first (fun t => s.Copies t depth value)
      ((literal value).eval m c)) :
    MakesAll s depth first first values (evalAll m c (values.map literal)) := by
  induction values with
  | nil => exact .pure (fun _ => .nil) first
  | cons value values ih =>
      rw [List.forall_mem_cons] at h
      rw [List.map_cons, evalAll]
      exact .cons h.1 (ih h.2)

/-- The keys of a literal are not yet in the table when they are put there. -/
theorem keys_insert_append {table : Table} {entry : Key × Value} {entries : Entries}
    (hvalid : table.Valid) (hnodup : (keys table.toList ++ keys (entry :: entries)).Nodup) :
    entry.1 ∉ keys table.toList ∧
      ∀ copy, (keys (table.insert entry.1 copy).toList ++ keys entries).Nodup := by
  have habsent : entry.1 ∉ keys table.toList := by
    intro hmem
    exact (List.nodup_append.1 hnodup).2.2 _ hmem _ (List.mem_cons_self) rfl
  refine ⟨habsent, fun copy => ?_⟩
  rw [hvalid.toList_insert, put_of_absent habsent, keys_append, List.append_assoc]
  exact hnodup

theorem evalEntries_makes {first : Nat} {table : Table} {entries : Entries}
    {literal : Value → Expr} (hvalid : table.Valid)
    (hnodup : (keys table.toList ++ keys entries).Nodup)
    (h : ∀ entry ∈ entries, entry.1.Legible ∧ entry.2 ≠ .null ∧
      Makes first first (fun t => s.Copies t depth entry.2) ((literal entry.2).eval m c)) :
    MakesEntries s depth first first table entries (evalEntries m c table
      (entries.map fun entry => .computed entry.1.toValue.literal (literal entry.2))) := by
  induction entries generalizing table with
  | nil => exact .pure (fun _ => ⟨[], (List.append_nil _).symm, .nil⟩) first
  | cons entry entries ih =>
      rw [List.forall_mem_cons] at h
      obtain ⟨⟨hkey, hnull, hvalue⟩, hrest⟩ := h
      obtain ⟨habsent, hlater⟩ := keys_insert_append hvalid hnodup
      simp only [List.map_cons, evalEntries, hkey.isScalar.eval_literal, hkey.ofValue_copy,
        Eval.ofExcept, pure_bind]
      exact .cons (evalEntries m c · _) hvalid habsent hnull hvalue fun copy =>
        ih (hvalid.insert _ copy) (hlater copy) hrest

/-- Walking the tree of a literal makes a copy. -/
theorem IsData.eval_makes (h : s.IsData depth value) (first : Nat) :
    Makes first first (fun t => s.Copies t depth value) ((s.literal depth value).eval m c) := by
  induction h using IsData.induction with
  | scalar hdata hscalar =>
      rw [literal_scalar hscalar, hscalar.eval_literal]
      exact .pure (fun t => copies_copy hscalar t _) first
  | list hdata ih =>
      rw [Store.literal, Expr.eval]
      exact (evalAll_makes m c ih).newList
  | table hdata ih =>
      rw [Store.literal, Expr.eval]
      apply MakesEntries.newTable
      apply evalEntries_makes m c Table.valid_empty hdata.1
      intro entry hentry
      obtain ⟨hkey, hnull, -⟩ := hdata.2 entry hentry
      exact ⟨hkey, hnull, ih entry hentry⟩

/-! ### Code whose literals have cells -/

/-- However its literals are numbered, some code makes a copy. -/
def NumberedMakes (s : Store) (depth : Nat) (value : Value) (code : Code) : Prop :=
  ∀ first, first ≤ (code.number.startingAt first).2 ∧
    Makes first (code.number.startingAt first).2 (fun t => s.Copies t depth value)
      ((code.number.startingAt first).1.run m c)

theorem runAll_makes {values : List Value} {literal : Value → Expr}
    (h : ∀ value ∈ values, NumberedMakes m c s depth value (literal value).compile) (first : Nat) :
    first ≤ ((numberAll (compileAll (values.map literal))).startingAt first).2 ∧
      MakesAll s depth first ((numberAll (compileAll (values.map literal))).startingAt first).2 values
        (runAll m c ((numberAll (compileAll (values.map literal))).startingAt first).1) := by
  induction values generalizing first with
  | nil => exact ⟨Nat.le_refl first, .pure (fun _ => .nil) first⟩
  | cons value values ih =>
      rw [List.forall_mem_cons] at h
      simp only [List.map_cons, compileAll, numberAll, startingAt_bind, startingAt_pure, runAll]
      obtain ⟨hle, hfirst⟩ := h.1 first
      obtain ⟨hle', hrest⟩ := ih h.2 ((literal value).compile.number.startingAt first).2
      exact ⟨Nat.le_trans hle hle', .cons hfirst hrest⟩

theorem runEntries_makes {table : Table} {entries : Entries} {literal : Value → Expr}
    (hvalid : table.Valid) (hnodup : (keys table.toList ++ keys entries).Nodup)
    (h : ∀ entry ∈ entries, entry.1.Legible ∧ entry.2 ≠ .null ∧
      NumberedMakes m c s depth entry.2 (literal entry.2).compile) (first : Nat) :
    let numbered := (numberEntries (compileEntries (entries.map fun entry =>
      .computed entry.1.toValue.literal (literal entry.2)))).startingAt first
    first ≤ numbered.2 ∧
      MakesEntries s depth first numbered.2 table entries (runEntries m c table numbered.1) := by
  induction entries generalizing table first with
  | nil =>
      exact ⟨Nat.le_refl first, .pure (fun _ => ⟨[], (List.append_nil _).symm, .nil⟩) first⟩
  | cons entry entries ih =>
      rw [List.forall_mem_cons] at h
      obtain ⟨⟨hkey, hnull, hvalue⟩, hrest⟩ := h
      obtain ⟨habsent, hlater⟩ := keys_insert_append hvalid hnodup
      obtain ⟨hle, hfirst⟩ := hvalue first
      have hnext := fun copy => ih (hvalid.insert entry.1 copy) (hlater copy) hrest
        ((literal entry.2).compile.number.startingAt first).2
      simp only [List.map_cons, compileEntries, numberEntries, startingAt_bind, startingAt_pure,
        hkey.isScalar.number_literal, runEntries, Expr.run_compile, hkey.isScalar.eval_literal,
        hkey.ofValue_copy, Eval.ofExcept, pure_bind]
      exact ⟨Nat.le_trans hle (hnext .null).1,
        .cons (runEntries m c · _) hvalid habsent hnull hfirst fun copy => (hnext copy).2⟩

/-- Running the code of a literal makes a copy, each of its list literals having a cell. -/
theorem IsData.run_makes (h : s.IsData depth value) :
    NumberedMakes m c s depth value (s.literal depth value).compile := by
  induction h using IsData.induction with
  | scalar hdata hscalar =>
      intro first
      rw [literal_scalar hscalar, hscalar.number_literal]
      refine ⟨Nat.le_refl first, ?_⟩
      simp only [Expr.run_compile, hscalar.eval_literal]
      exact .pure (fun t => copies_copy hscalar t _) first
  | list hdata ih =>
      intro first
      obtain ⟨hle, hall⟩ := runAll_makes m c ih first
      simp only [Store.literal, Expr.compile, Code.number, startingAt_bind, startingAt_pure,
        startingAt_fresh, Code.run]
      exact ⟨Nat.le_succ_of_le hle, hall.keepList hle⟩
  | table hdata ih =>
      intro first
      obtain ⟨hle, hentries⟩ := runEntries_makes m c Table.valid_empty hdata.1
        (fun entry hentry => ⟨(hdata.2 entry hentry).1, (hdata.2 entry hentry).2.1, ih entry hentry⟩)
        first
      simp only [Store.literal, Expr.compile, Code.number, startingAt_bind, startingAt_pure, Code.run]
      exact ⟨hle, hentries.newTable⟩

/-! ### Whole texts -/

theorem IsData.literal_ne_control (h : s.IsData depth value) (control : Control) :
    s.literal depth value ≠ .control control := by
  induction h using IsData.induction with
  | @scalar depth value hdata hscalar =>
      rw [literal_scalar hscalar]
      cases value with
      | number x =>
          rw [Value.literal]
          split <;> simp
      | _ => simp [Value.literal]
  | list | table => simp [Store.literal]

end Store

theorem Store.emptyFrom_size (t : Store) : t.EmptyFrom t.cells.size := by
  intro cell hcell
  rw [Store.cell?, Array.getElem?_eq_none hcell]
  rfl

/-- Both engines make a copy, and lists that are kept change nothing about it. -/
theorem Host.runNew_literal (host : Host) {s : Store} {depth : Nat} {value : Value}
    (h : s.IsData depth value) (fuel : Nat) (setup : Setup) (c : Context) (t : Store) :
    ∃ copy t', host.runNew fuel setup c [s.literal depth value] t = .ok (copy, .none) t' ∧
      s.Copies t' depth value copy := by
  by_cases hplain : setup.engine = .compiler → setup.keepLists = false
  · obtain ⟨m, hm⟩ := exists_machine host fuel c hplain
    obtain ⟨copy, t', hrun, -, -, hcopy⟩ := h.eval_makes m c t.cells.size t t.emptyFrom_size
    refine ⟨copy, t', ?_, hcopy⟩
    rw [hm, evalBlock_single m c h.literal_ne_control, Eval.bind_apply, hrun]
    rfl
  · obtain ⟨engine, keepLists⟩ := setup
    obtain ⟨rfl, hkeep⟩ := Classical.not_imp.1 hplain
    obtain rfl : keepLists = true := by simpa using hkeep
    let numbered := (s.literal depth value).compile.number.startingAt t.cells.size
    have hempty : (t.growCells numbered.2).EmptyFrom t.cells.size := by
      intro cell hcell
      rw [Store.cell?_growCells]
      exact t.emptyFrom_size cell hcell
    obtain ⟨copy, t', hrun, -, -, hcopy⟩ :=
      (h.run_makes (host.machine fuel) c t.cells.size).2 _ hempty
    refine ⟨copy, t', ?_, hcopy⟩
    have hprepare : t.prepare ⟨.compiler, true⟩ [s.literal depth value] =
        (.code [.value numbered.1], t.growCells numbered.2) := by
      simp only [Store.prepare, compileBlock_single h.literal_ne_control]
      rfl
    rw [Host.runNew, hprepare]
    change runSteps (host.machine fuel) c .null [.value numbered.1] (t.growCells numbered.2) = _
    rw [runSteps, Eval.bind_apply, hrun]
    rfl

/-- The text of data other than a string by itself, nested at most sixty deep, is a script whose value
is a copy of the data. So it is on both engines, in every context and every store, with lists kept or
not, and however little fuel there is. -/
theorem data_reads_back {s : Store} {value : Value} (h : s.IsData 60 value)
    (hstring : value.type ≠ .string) (fuel : Nat) (setup : Setup) (c : Context) (t : Store) :
    ∃ copy t', runSource fuel setup c (s.text value) t = .ok copy t' ∧
      s.Copies t' 60 value copy := by
  obtain ⟨tokens, htokens, hwords⟩ := h.tokenize_text (by decide) hstring
  have hparse := h.parse_words (by decide) hwords
  have hsource : Block.ofSource (s.text value) = .ok [s.literal 60 value] := by
    rw [Block.ofSource, htokens]
    simp only [hparse]
  obtain ⟨copy, t', hrun, hcopy⟩ := Host.standard.runNew_literal h fuel setup c t
  exact ⟨copy, t', runSource_of_runNew hsource hrun, hcopy⟩

/-- A list with values of all kinds that have no parts, in a table beside an empty one. -/
def sampleData : Store :=
  { Store.empty with
    lists := #[#[.null, .bool true, .number 1.5, .number (-1e-7), .string "\t\"é\\\r\n"]]
    tables := #[((Table.empty.insert (.string "list") (.list ⟨0⟩)).insert (.ofNumber 2.5)
      (.table ⟨1⟩)), .empty] }

theorem toList_sampleData : (sampleData.table ⟨0⟩).toList =
    [(.string "list", .list ⟨0⟩), (.ofNumber 2.5, .table ⟨1⟩)] := by
  have hfirst := Table.valid_empty.insert (.string "list") (.list ⟨0⟩)
  change ((Table.empty.insert (.string "list") (.list ⟨0⟩)).insert (.ofNumber 2.5)
    (.table ⟨1⟩)).toList = _
  rw [hfirst.toList_insert, Table.valid_empty.toList_insert]
  rfl

theorem isData_sampleData : sampleData.IsData 60 (.table ⟨0⟩) := by
  have hlist : sampleData.IsData 59 (.list ⟨0⟩) := by
    have hscalars : ∀ value ∈ (sampleData.list ⟨0⟩).toList, value.IsScalar := by decide +kernel
    exact fun value hvalue => Store.isData_scalar (hscalars value hvalue) 58
  have htable : sampleData.IsData 59 (.table ⟨1⟩) :=
    ⟨.nil, fun entry hentry => absurd hentry List.not_mem_nil⟩
  constructor
  · rw [toList_sampleData]
    decide +kernel
  · rw [toList_sampleData, List.forall_mem_cons, List.forall_mem_singleton]
    exact ⟨⟨.string (by decide +kernel), nofun, hlist⟩,
      .number (by decide +kernel) (by decide +kernel), nofun, htable⟩

theorem data_reads_back_sampleData :
    sampleData.IsData 60 (.table ⟨0⟩) ∧ Value.type (.table ⟨0⟩) ≠ .string ∧
      ∃ copy t', runSource 0 ⟨.compiler, true⟩ ⟨⟨0⟩, []⟩ (sampleData.text (.table ⟨0⟩)) sampleData =
        .ok copy t' ∧ sampleData.Copies t' 60 (.table ⟨0⟩) copy := by
  have hstring : Value.type (.table ⟨0⟩) ≠ .string := by decide
  exact ⟨isData_sampleData, hstring,
    data_reads_back isData_sampleData hstring 0 ⟨.compiler, true⟩ ⟨⟨0⟩, []⟩ sampleData⟩

end TableScript
