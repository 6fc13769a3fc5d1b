import TableScript.Proofs.Containers
import TableScript.Proofs.Ranks

/-!
Keys and equality. A key stands for all the values that the language takes for equal: the zeros share
one, and no other two numbers do. So an entry that was written under one value is found under every
value equal to it and under no other.
-/

namespace TableScript

open Entries

namespace Key

variable {a b : Value} {key other : Key} {x y : Float}

theorem ofValue_number (x : Float) :
    ofValue (.number x) = if rank? x = none then .error .nanKey else .ok (ofNumber x) :=
  if_congr rank?_eq_none_iff.symm rfl rfl

/-- The values that are keys: strings, truth values, and what is a number. -/
theorem ofValue_eq_ok_iff : ofValue a = .ok key ↔
    (∃ text, a = .string text ∧ key = .string text) ∨ (∃ flag, a = .bool flag ∧ key = .bool flag) ∨
      ∃ x rank, a = .number x ∧ rank? x = some rank ∧ key = ofNumber x := by
  cases a with
  | number x =>
      rw [ofValue_number]
      cases hrank : rank? x <;> simp [hrank, eq_comm]
  | string text => simp [ofValue, eq_comm]
  | bool flag => simp [ofValue, eq_comm]
  | null | list | table | function | native => simp [ofValue]

/-- Two numbers have the same key if they have the same rank. -/
theorem ofNumber_eq_iff {rank rank' : Int} (hx : rank? x = some rank) (hy : rank? y = some rank') :
    ofNumber x = ofNumber y ↔ rank = rank' := by
  rw [ofNumber, ofNumber, zero_eq, Key.number.injEq, ← add_zero_eq_iff hx hy]
  exact ⟨fun h => float_ext (congrArg UInt64.toNat h), congrArg Float.toBits⟩

theorem eq_iff_equal (ha : ofValue a = .ok key) (hb : ofValue b = .ok other) :
    key = other ↔ a.equal b = true := by
  rcases ofValue_eq_ok_iff.1 ha with ⟨text, rfl, rfl⟩ | ⟨flag, rfl, rfl⟩ | ⟨x, rank, rfl, hx, rfl⟩ <;>
    rcases ofValue_eq_ok_iff.1 hb with ⟨text', rfl, rfl⟩ | ⟨flag', rfl, rfl⟩ | ⟨y, rank', rfl, hy, rfl⟩
  case inr.inr.inr.inr =>
    rw [ofNumber_eq_iff hx hy, Value.equal, beq_iff_ranks, hx, hy]
    simp [eq_comm]
  all_goals simp [Value.equal, ofNumber]

/-- The value of a key has the key. -/
theorem ofValue_toValue (h : ofValue a = .ok key) : ofValue key.toValue = .ok key := by
  rcases ofValue_eq_ok_iff.1 h with ⟨text, -, rfl⟩ | ⟨flag, -, rfl⟩ | ⟨x, rank, -, hx, rfl⟩
  · rfl
  · rfl
  · have hsum := rank?_add_zero hx
    have hvalue : (ofNumber x).toValue = .number (x + 0) := by
      rw [ofNumber, zero_eq, toValue, ofBits_add_zero hx]
    rw [hvalue, ofValue_eq_ok_iff]
    exact .inr (.inr ⟨x + 0, rank, rfl, hsum, (ofNumber_eq_iff hx hsum).2 rfl⟩)

theorem exists_error_iff : (∃ fault, ofValue a = .error fault) ↔
    a = .null ∨ (∃ x, a = .number x ∧ x.isNaN = true) ∨ (∃ ref, a = .list ref) ∨ (∃ ref, a = .table ref) ∨
      (∃ ref, a = .function ref) ∨ ∃ ref, a = .native ref := by
  cases a with
  | number x =>
      rw [ofValue_number]
      simp only [← rank?_eq_none_iff]
      cases hrank : rank? x <;> simp [hrank]
  | _ => simp [ofValue]

end Key

/-! ### Entries under other keys -/

theorem Entries.lookup_others {key other : Key} (hne : other ≠ key) (entries : Entries) :
    (others key entries).lookup other = entries.lookup other := by
  induction entries with
  | nil => rfl
  | cons entry entries ih =>
      rw [others] at ih ⊢
      by_cases hkey : entry.1 = key
      · have hother : (other == entry.1) = false := by simpa [hkey] using hne
        rw [List.filter_cons_of_neg (by simpa using hkey), ih, List.lookup_cons, hother]
      · rw [List.filter_cons_of_pos (by simpa using hkey), List.lookup_cons, List.lookup_cons, ih]

theorem Table.Valid.get?_of_others {t t' : Table} {key other : Key} (h : t.Valid) (h' : t'.Valid)
    (hothers : others key t'.toList = others key t.toList) (hne : other ≠ key) :
    t'.get? other = t.get? other := by
  rw [h.get?_eq, h'.get?_eq, ← lookup_others hne, hothers, lookup_others hne]

namespace Store

variable {s : Store} {ref : TableRef} {a b v : Value} {key other : Key}

theorem place_table (ha : Key.ofValue a = .ok key) : s.place (.table ref) a = .ok (.key ref key) := by
  rw [place, ha]
  rfl

theorem index_table (hb : Key.ofValue b = .ok other) :
    s.index (.table ref) b = .ok (((s.table ref).get? other).getD .null) := by
  rw [index, hb]
  rfl

theorem table_write_valid (href : ref.index < s.tables.size) (hvalid : (s.table ref).Valid) (key : Key)
    (v : Value) : ((s.write (.key ref key) v).table ref).Valid := by
  have htable : (s.write (.key ref key) v).table ref =
      if v.isNull then (s.table ref).erase key else (s.table ref).insert key v :=
    s.table_modifyTable href _
  rw [htable]
  split
  · exact hvalid.remove key
  · exact hvalid.insert key v

/-- A value that is written under one key is read under the equal ones, and the others are as before. -/
theorem index_written (href : ref.index < s.tables.size) (hvalid : (s.table ref).Valid)
    (ha : Key.ofValue a = .ok key) (hb : Key.ofValue b = .ok other) :
    (s.write (.key ref key) v).index (.table ref) b =
      if a.equal b then .ok v else s.index (.table ref) b := by
  by_cases heq : other = key
  · subst heq
    rw [if_pos ((Key.eq_iff_equal ha hb).1 rfl)]
    exact (table_written href hvalid hb).1
  · rw [if_neg fun hequal => heq ((Key.eq_iff_equal ha hb).2 hequal).symm, index_table hb, index_table hb,
      hvalid.get?_of_others (table_write_valid href hvalid key v) (table_written href hvalid ha).2 heq]

end Store

/-- Keys agree with the equality of the language. Two values have the same key exactly if they are equal,
the value of a key has that key, and the values without a key are `null`, not-a-number, and all that is
shared. So two values lead to the same entry of a table exactly if they are equal: what is written under
one is read under the other then, and otherwise that one reads as before. -/
theorem keys_agree_with_equality :
    (∀ a b key other, Key.ofValue a = .ok key → Key.ofValue b = .ok other →
        (key = other ↔ a.equal b = true)) ∧
      (∀ a key, Key.ofValue a = .ok key → Key.ofValue key.toValue = .ok key) ∧
      (∀ a, (∃ fault, Key.ofValue a = .error fault) ↔
        a = .null ∨ (∃ x, a = .number x ∧ x.isNaN = true) ∨ (∃ ref, a = .list ref) ∨
          (∃ ref, a = .table ref) ∨ (∃ ref, a = .function ref) ∨ ∃ ref, a = .native ref) ∧
      ∀ (s : Store) (ref : TableRef) (a b v : Value) (key other : Key), s.Holds (.table ref) →
        Key.ofValue a = .ok key → Key.ofValue b = .ok other →
        (s.place (.table ref) a = s.place (.table ref) b ↔ a.equal b = true) ∧
          ∃ s', s.setIndex (.table ref) a v = .ok s' ∧
            s'.index (.table ref) b = if a.equal b then .ok v else s.index (.table ref) b := by
  refine ⟨fun a b key other => Key.eq_iff_equal, fun a key => Key.ofValue_toValue,
    fun a => Key.exists_error_iff, fun s ref a b v key other hholds ha hb => ⟨?_, ?_⟩⟩
  · rw [Store.place_table ha, Store.place_table hb, ← Key.eq_iff_equal ha hb]
    simp
  · have hset : s.setIndex (.table ref) a v = .ok (s.write (.key ref key) v) := by
      rw [Store.setIndex, Store.place_table ha]
      rfl
    exact ⟨_, hset, Store.index_written hholds.1 hholds.2 ha hb⟩

/-- A store with an empty table. -/
def emptyTableStore : Store :=
  (Store.empty.newTable .empty).2

/-- What is written under a negative zero is read under the positive one, but not under `false`. -/
theorem keys_agree_with_equality_zeros : emptyTableStore.Holds (.table ⟨0⟩) ∧
    Key.ofNumber (-0.0) = Key.ofNumber 0.0 ∧ Key.ofNumber (-0.0) ≠ .bool false ∧
    ∃ s', emptyTableStore.setIndex (.table ⟨0⟩) (.number (-0.0)) (.string "a") = .ok s' ∧
      s'.index (.table ⟨0⟩) (.number 0.0) = .ok (.string "a") := by
  obtain ⟨hequal, -, -, hwritten⟩ := keys_agree_with_equality
  have hholds : emptyTableStore.Holds (.table ⟨0⟩) := ⟨by decide, Table.valid_empty⟩
  have hnegative : Key.ofValue (.number (-0.0)) = .ok (.ofNumber (-0.0)) := by decide +kernel
  have hpositive : Key.ofValue (.number 0.0) = .ok (.ofNumber 0.0) := by decide +kernel
  have hzeros : (Value.number (-0.0)).equal (.number 0.0) = true := by decide +kernel
  obtain ⟨-, s', hset, hread⟩ := hwritten _ ⟨0⟩ _ _ (.string "a") _ _ hholds hnegative hpositive
  rw [if_pos hzeros] at hread
  refine ⟨hholds, (hequal _ _ _ _ hnegative hpositive).2 hzeros, fun hfalse => ?_, s', hset, hread⟩
  have hdifferent := (hequal _ (.bool false) _ _ hnegative rfl).1 hfalse
  cases hdifferent

end TableScript
