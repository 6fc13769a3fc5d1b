import TableScript.Eval.Basic
import TableScript.Proofs.OrderedTable
import TableScript.Proofs.Positions
import TableScript.Proofs.SoundTable

/-!
Reading what was written. A part of a list or of a table that has been written is what is read there
next, and all other parts are as they were.
-/

namespace TableScript

namespace Entries

variable {key : Key} {value : Value} {entries : Entries}

/-- The entries with other keys, in order. -/
def others (key : Key) (entries : Entries) : Entries :=
  entries.filter (·.1 ≠ key)

theorem lookup_put : (put key value entries).lookup key = some value := by
  induction entries with
  | nil => simp [put]
  | cons entry entries ih =>
      rw [put]
      split
      next hkey => simp
      next hkey =>
        have hne : (key == entry.1) = false := by simpa using Ne.symm hkey
        rw [List.lookup_cons, hne]
        exact ih

theorem others_put : others key (put key value entries) = others key entries := by
  induction entries with
  | nil => simp [put, others]
  | cons entry entries ih =>
      rw [put]
      split
      next hkey => simp [others, hkey]
      next hkey =>
        simp only [others, List.filter_cons] at ih ⊢
        rw [ih]

theorem others_without : others key (without key entries) = others key entries := by
  induction entries with
  | nil => rfl
  | cons entry entries ih =>
      by_cases hkey : entry.1 = key
      · simp [others, without, hkey]
      · have hrest : without key (entry :: entries) = entry :: without key entries :=
          List.eraseP_cons_of_neg (by simpa using hkey)
        rw [hrest]
        simp only [others, List.filter_cons] at ih ⊢
        rw [ih]

theorem lookup_without (hnodup : (keys entries).Nodup) : (without key entries).lookup key = none := by
  cases hslot : slot? key entries with
  | none =>
      have habsent := slot?_eq_none_iff.1 hslot
      rw [without_of_absent habsent, lookup_of_absent habsent]
  | some slot =>
      obtain ⟨before, value, after, rfl, -, habsent⟩ := exists_of_slot? hslot
      rw [keys_append, keys_cons, List.nodup_append, List.nodup_cons] at hnodup
      rw [without_of_present habsent]
      apply lookup_of_absent
      rw [keys_append, List.mem_append, not_or]
      exact ⟨habsent, hnodup.2.1.1⟩

end Entries

open Entries

namespace Table

variable {t : Table}

theorem Valid.get?_insert (h : t.Valid) (key : Key) (value : Value) :
    (t.insert key value).get? key = some value := by
  rw [(h.insert key value).get?_eq, h.toList_insert, lookup_put]

theorem Valid.get?_erase (h : t.Valid) (key : Key) : (t.erase key).get? key = none := by
  rw [erase, (h.remove key).get?_eq, (h.remove_eq key).2, lookup_without h.nodup]

theorem Valid.others_insert (h : t.Valid) (key : Key) (value : Value) :
    others key (t.insert key value).toList = others key t.toList := by
  rw [h.toList_insert, others_put]

theorem Valid.others_erase (h : t.Valid) (key : Key) :
    others key (t.erase key).toList = others key t.toList := by
  rw [erase, (h.remove_eq key).2, others_without]

end Table

namespace Eval

variable {s s' : Store} {container i v w : Value}

theorem index_of_eq_ok (h : s.index container i = .ok v) : Eval.index container i s = .ok v s := by
  change ofExcept (s.index container i) s = _
  rw [h]
  rfl

theorem storeIndex_eq_ok_iff :
    storeIndex container i v s = .ok w s' ↔
      ∃ place, s.place container i = .ok place ∧ w = v ∧ s' = s.write place v := by
  change (ofExcept (s.place container i) >>= fun place => modify (·.write place v) >>= fun _ => pure v) s
    = _ ↔ _
  cases s.place container i with
  | ok place =>
      constructor
      · intro h
        cases h
        exact ⟨place, rfl, rfl, rfl⟩
      · rintro ⟨place, hplace, rfl, rfl⟩
        cases hplace
        rfl
  | error f =>
      constructor
      · intro h
        cases h
      · rintro ⟨place, hplace, -, -⟩
        cases hplace

/-- Writing a part of a container fails before anything is changed. -/
theorem storeIndex_error {halt : Halt} (h : storeIndex container i v s = .error halt s') : s' = s := by
  change (ofExcept (s.place container i) >>= fun place => modify (·.write place v) >>= fun _ => pure v) s
    = _ at h
  cases hplace : s.place container i with
  | ok place =>
      rw [hplace] at h
      cases h
  | error f =>
      rw [hplace] at h
      cases h
      rfl

end Eval

namespace Store

variable {s : Store}

/-- The store holds a container, and it is not too long for its positions to be told apart. -/
def Holds (s : Store) : Value → Prop
  | .list ref => ref.index < s.lists.size ∧ (s.list ref).size < 2 ^ 53
  | .table ref => ref.index < s.tables.size ∧ (s.table ref).Valid
  | .string text => text.length < 2 ^ 53
  | _ => True

/-! ### Lists -/

variable {ref : ListRef} {i v : Value} {place : Place}

theorem place_of_slot {x : Float} {slot : Nat} (h : slot? x (s.list ref).size = some slot) :
    s.place (.list ref) (.number x) = .ok (.slot ref slot) := by
  simp [place, numericIndex, bind, Except.bind, pure, Except.pure, h]

theorem place_of_no_slot {x : Float} (h : slot? x (s.list ref).size = none) :
    s.place (.list ref) (.number x) =
      if x == Number.ofNat (s.list ref).size then .ok (.back ref)
      else .error (.indexOutOfBounds x (s.list ref).size) := by
  simp only [place, numericIndex, bind, Except.bind, pure, Except.pure, h]
  rfl

/-- An index of a list leads to a position that the list has, or to its end. -/
theorem place_list_eq_ok_iff (hsize : (s.list ref).size ≤ 2 ^ 53) :
    s.place (.list ref) i = .ok place ↔ ∃ x, i = .number x ∧
      ((∃ slot, slot? x (s.list ref).size = some slot ∧ place = .slot ref slot) ∨
        Number.integer? x = some ((s.list ref).size : Int) ∧ place = .back ref) := by
  have hback : ∀ x, Number.integer? x = some ((s.list ref).size : Int) →
      slot? x (s.list ref).size = none := by
    intro x hx
    rw [slot?_of_nonneg hsize hx, if_neg (Nat.lt_irrefl _)]
  have hend : ∀ x, (x == Number.ofNat (s.list ref).size) = true ↔
      Number.integer? x = some ((s.list ref).size : Int) :=
    fun x => beq_iff_integer (integer?_ofNat hsize)
  constructor
  · intro h
    cases i with
    | number x =>
        refine ⟨x, rfl, ?_⟩
        cases hslot : slot? x (s.list ref).size with
        | some slot =>
            rw [place_of_slot hslot] at h
            cases h
            exact .inl ⟨slot, rfl, rfl⟩
        | none =>
            rw [place_of_no_slot hslot] at h
            split at h
            next hx =>
              cases h
              exact .inr ⟨(hend x).1 hx, rfl⟩
            next => cases h
    | _ => cases h
  · rintro ⟨x, rfl, ⟨slot, hslot, rfl⟩ | ⟨hx, rfl⟩⟩
    · exact place_of_slot hslot
    · rw [place_of_no_slot (hback x hx), if_pos ((hend x).2 hx)]

theorem index_list_number (x : Float) :
    s.index (.list ref) (.number x) =
      .ok (((slot? x (s.list ref).size).bind ((s.list ref)[·]?)).getD .null) :=
  rfl

/-- What is written to a list is read there, and all else is as it was. -/
theorem list_written (href : ref.index < s.lists.size) (hsize : (s.list ref).size < 2 ^ 53) {x : Float}
    {k : Int} (hx : Number.integer? x = some k) (hplace : s.place (.list ref) (.number x) = .ok place) :
    (s.write place v).index (.list ref) (.number x) = .ok v ∧
      ((s.write place v).list ref).size =
        (if k = (s.list ref).size then (s.list ref).size + 1 else (s.list ref).size) ∧
      ∀ slot < (s.list ref).size, k ≠ slot → k ≠ (slot : Int) - (s.list ref).size →
        ((s.write place v).list ref)[slot]? = (s.list ref)[slot]? := by
  obtain ⟨x', hx', hplace⟩ := (place_list_eq_ok_iff (Nat.le_of_lt hsize)).1 hplace
  cases hx'
  rcases hplace with ⟨target, htarget, rfl⟩ | ⟨hend, rfl⟩
  · have hlist : (s.write (.slot ref target) v).list ref = (s.list ref).setIfInBounds target v :=
      s.list_modifyList href _
    obtain ⟨hlt, hk⟩ := (slot?_eq_some_iff (Nat.le_of_lt hsize)).1 htarget
    rw [hx, Option.some.injEq, Option.some.injEq] at hk
    refine ⟨?_, ?_, fun slot hslot hne hne' => ?_⟩
    · rw [index_list_number, hlist, Array.size_setIfInBounds, htarget, Option.bind_some,
        Array.getElem?_setIfInBounds_self_of_lt hlt]
      rfl
    · rw [hlist, Array.size_setIfInBounds, if_neg (by omega)]
    · rw [hlist, Array.getElem?_setIfInBounds_ne (by omega)]
  · have hlist : (s.write (.back ref) v).list ref = (s.list ref).push v := s.list_modifyList href _
    obtain rfl : k = (s.list ref).size := Option.some.inj (hx.symm.trans hend)
    refine ⟨?_, ?_, fun slot hslot _ _ => ?_⟩
    · rw [index_list_number, hlist, Array.size_push, slot?_of_nonneg hsize hx,
        if_pos (Nat.lt_succ_self _), Option.bind_some, Array.getElem?_push_size]
      rfl
    · rw [hlist, Array.size_push, if_pos rfl]
    · rw [hlist, Array.getElem?_push, if_neg (Nat.ne_of_lt hslot)]

/-- A list can be written at all its positions, counted from either end, and at its end. -/
theorem exists_place_list_iff (hsize : (s.list ref).size ≤ 2 ^ 53) :
    (∃ place, s.place (.list ref) i = .ok place) ↔ ∃ x k, i = .number x ∧
      Number.integer? x = some k ∧ -((s.list ref).size : Int) ≤ k ∧ k ≤ (s.list ref).size := by
  constructor
  · rintro ⟨place, hplace⟩
    obtain ⟨x, rfl, ⟨slot, hslot, -⟩ | ⟨hx, -⟩⟩ := (place_list_eq_ok_iff hsize).1 hplace
    · obtain ⟨hlt, hx | hx⟩ := (slot?_eq_some_iff hsize).1 hslot
      · exact ⟨x, slot, rfl, hx, by omega, by omega⟩
      · exact ⟨x, _, rfl, hx, by omega, by omega⟩
    · exact ⟨x, _, rfl, hx, by omega, le_rfl⟩
  · rintro ⟨x, k, rfl, hx, hlow, hhigh⟩
    by_cases hend : k = (s.list ref).size
    · exact ⟨_, (place_list_eq_ok_iff hsize).2 ⟨x, rfl, .inr ⟨hend ▸ hx, rfl⟩⟩⟩
    obtain ⟨slot, hslot⟩ : ∃ slot, slot? x (s.list ref).size = some slot := by
      by_cases hk : k < 0
      · rw [slot?_of_neg hsize hk hx, if_pos (by omega)]
        exact ⟨_, rfl⟩
      · obtain ⟨n, rfl⟩ := Int.eq_ofNat_of_zero_le (not_lt.1 hk)
        rw [slot?_of_nonneg hsize hx, if_pos (by omega)]
        exact ⟨_, rfl⟩
    exact ⟨_, place_of_slot hslot⟩

/-! ### Tables -/

theorem place_table_eq_ok {ref : TableRef} (h : s.place (.table ref) i = .ok place) :
    ∃ key, Key.ofValue i = .ok key ∧ place = .key ref key := by
  rw [Store.place] at h
  cases hkey : Key.ofValue i with
  | ok key =>
      rw [hkey] at h
      cases h
      exact ⟨key, rfl, rfl⟩
  | error f =>
      rw [hkey] at h
      cases h

/-- What is written to a table is read there, and the other entries are as they were. -/
theorem table_written {ref : TableRef} (href : ref.index < s.tables.size) (hvalid : (s.table ref).Valid)
    {key : Key} (hkey : Key.ofValue i = .ok key) :
    (s.write (.key ref key) v).index (.table ref) i = .ok v ∧
      others key ((s.write (.key ref key) v).table ref).toList = others key (s.table ref).toList := by
  have htable : (s.write (.key ref key) v).table ref =
      if v.isNull then (s.table ref).erase key else (s.table ref).insert key v :=
    s.table_modifyTable href _
  have hindex : (s.write (.key ref key) v).index (.table ref) i =
      .ok ((((s.write (.key ref key) v).table ref).get? key).getD .null) := by
    rw [index, hkey]
    rfl
  rw [hindex, htable]
  cases hnull : v.isNull with
  | true =>
      have hv : v = .null := by
        by_contra hne
        rw [Value.isNull_eq_false_iff.2 hne] at hnull
        cases hnull
      rw [if_pos rfl, hvalid.get?_erase, hv]
      exact ⟨rfl, hvalid.others_erase key⟩
  | false =>
      rw [if_neg Bool.false_ne_true, hvalid.get?_insert]
      exact ⟨rfl, hvalid.others_insert key v⟩

theorem exists_place_table_iff {ref : TableRef} :
    (∃ place, s.place (.table ref) i = .ok place) ↔ ∃ key, Key.ofValue i = .ok key := by
  rw [place]
  cases Key.ofValue i with
  | ok key => exact ⟨fun _ => ⟨key, rfl⟩, fun _ => ⟨_, rfl⟩⟩
  | error f => exact ⟨nofun, nofun⟩

theorem exists_key_iff : (∃ key, Key.ofValue i = .ok key) ↔
    (∃ text, i = .string text) ∨ (∃ b, i = .bool b) ∨ ∃ x, i = .number x ∧ x.isNaN = false := by
  cases i with
  | number x =>
      cases hnan : x.isNaN with
      | true =>
          have herror : Key.ofValue (.number x) = .error .nanKey := if_pos hnan
          simp only [herror, reduceCtorEq, exists_false, false_or, Value.number.injEq, false_iff]
          rintro ⟨y, rfl, hy⟩
          rw [hnan] at hy
          cases hy
      | false =>
          have hok : Key.ofValue (.number x) = .ok (.ofNumber x) :=
            if_neg (by rw [hnan]; exact Bool.false_ne_true)
          exact ⟨fun _ => .inr (.inr ⟨x, rfl, hnan⟩), fun _ => ⟨_, hok⟩⟩
  | _ => simp [Key.ofValue]

/-! ### Reading -/

/-- The value at a whole number, counted from the end if it is negative. It is `null` if there is none,
and for every number that is not whole. -/
def elementAt (values : List Value) (x : Float) : Value :=
  match Number.integer? x with
  | some k =>
    let position := if k < 0 then values.length + k else k
    if position < 0 then .null else (values[position.toNat]?).getD .null
  | none => .null

theorem getD_slot? {values : List Value} (hlength : values.length ≤ 2 ^ 53) (x : Float) :
    ((slot? x values.length).bind (values[·]?)).getD .null = elementAt values x := by
  rw [elementAt]
  cases hx : Number.integer? x with
  | none =>
      rw [slot?_of_not_whole hx]
      rfl
  | some k =>
      by_cases hk : k < 0
      · simp only [if_pos hk]
        rw [slot?_of_neg hlength hk hx]
        by_cases hle : 0 ≤ values.length + k
        · rw [if_pos hle, if_neg (not_lt.2 hle)]
          rfl
        · rw [if_neg hle, if_pos (not_le.1 hle)]
          rfl
      · obtain ⟨n, rfl⟩ := Int.eq_ofNat_of_zero_le (not_lt.1 hk)
        simp only [if_neg hk]
        rw [slot?_of_nonneg hlength hx]
        by_cases hlt : n < values.length
        · rw [if_pos hlt]
          rfl
        · rw [if_neg hlt, Int.toNat_natCast, List.getElem?_eq_none (not_lt.1 hlt)]
          rfl

theorem index_string_number (text : String) (x : Float) :
    s.index (.string text) (.number x) =
      .ok (((slot? x text.length).bind (charAt? text)).getD .null) :=
  rfl

theorem index_list (hsize : (s.list ref).size ≤ 2 ^ 53) (x : Float) :
    s.index (.list ref) (.number x) = .ok (elementAt (s.list ref).toList x) := by
  rw [index_list_number, ← getD_slot? hsize x]
  simp only [Array.length_toList, Array.getElem?_toList]

/-- The characters of a text, each as a string. -/
def characters (text : String) : List Value :=
  text.toList.map fun c => .string (String.singleton c)

theorem index_string {text : String} (hlength : text.length ≤ 2 ^ 53) (x : Float) :
    s.index (.string text) (.number x) = .ok (elementAt (characters text) x) := by
  have hcharacters : (characters text).length = text.length := by
    rw [characters, List.length_map, String.length_toList]
  rw [index_string_number, ← getD_slot? (hcharacters ▸ hlength) x, hcharacters]
  congr 3
  funext slot
  rw [characters, List.getElem?_map]
  rfl

end Store

/-- What is written to a container is read there next. Writing succeeds at the positions of a list,
counted from either end, and at its end, where the list grows; and under the keys of a table. All other
parts of the container are as they were, and so is everything if writing fails. A number reads the
element at its position, and `null` if it is not whole or lies outside. -/
theorem write_then_read {s : Store} {container : Value} (h : s.Holds container) (i v : Value) :
    (∀ w s', Eval.storeIndex container i v s = .ok w s' →
        w = v ∧ Eval.index container i s' = .ok v s') ∧
      (∀ halt s', Eval.storeIndex container i v s = .error halt s' → s' = s) ∧
      (∀ ref, container = .list ref →
        ((∃ w s', Eval.storeIndex container i v s = .ok w s') ↔ ∃ x k, i = .number x ∧
          Number.integer? x = some k ∧ -((s.list ref).size : Int) ≤ k ∧ k ≤ (s.list ref).size) ∧
        ∀ w s' x k, Eval.storeIndex container i v s = .ok w s' → i = .number x →
          Number.integer? x = some k →
          (s'.list ref).size =
              (if k = (s.list ref).size then (s.list ref).size + 1 else (s.list ref).size) ∧
            ∀ slot < (s.list ref).size, k ≠ slot → k ≠ (slot : Int) - (s.list ref).size →
              (s'.list ref)[slot]? = (s.list ref)[slot]?) ∧
      (∀ ref, container = .table ref →
        ((∃ w s', Eval.storeIndex container i v s = .ok w s') ↔
          (∃ text, i = .string text) ∨ (∃ b, i = .bool b) ∨ ∃ x, i = .number x ∧ x.isNaN = false) ∧
        ∀ w s' key, Eval.storeIndex container i v s = .ok w s' → Key.ofValue i = .ok key →
          others key (s'.table ref).toList = others key (s.table ref).toList) ∧
      ∀ x,
        (∀ ref, container = .list ref →
          Eval.index container (.number x) s = .ok (Store.elementAt (s.list ref).toList x) s) ∧
        ∀ text, container = .string text →
          Eval.index container (.number x) s = .ok (Store.elementAt (Store.characters text) x) s := by
  have hok : (∃ w s', Eval.storeIndex container i v s = .ok w s') ↔
      ∃ place, s.place container i = .ok place := by
    constructor
    · rintro ⟨w, s', hrun⟩
      obtain ⟨place, hplace, -⟩ := Eval.storeIndex_eq_ok_iff.1 hrun
      exact ⟨place, hplace⟩
    · rintro ⟨place, hplace⟩
      exact ⟨v, _, Eval.storeIndex_eq_ok_iff.2 ⟨place, hplace, rfl, rfl⟩⟩
  refine ⟨fun w s' hrun => ?_, fun halt s' hrun => Eval.storeIndex_error hrun, ?_, ?_, fun x => ⟨?_, ?_⟩⟩
  · obtain ⟨place, hplace, rfl, rfl⟩ := Eval.storeIndex_eq_ok_iff.1 hrun
    refine ⟨rfl, Eval.index_of_eq_ok ?_⟩
    cases container with
    | list ref =>
        obtain ⟨x, k, rfl, hx, -⟩ := (Store.exists_place_list_iff (Nat.le_of_lt h.2)).1 ⟨place, hplace⟩
        exact (Store.list_written h.1 h.2 hx hplace).1
    | table ref =>
        obtain ⟨key, hkey, rfl⟩ := Store.place_table_eq_ok hplace
        exact (Store.table_written h.1 h.2 hkey).1
    | _ => cases hplace
  · rintro ref rfl
    refine ⟨hok.trans (Store.exists_place_list_iff (Nat.le_of_lt h.2)), ?_⟩
    rintro w s' x k hrun rfl hx
    obtain ⟨place, hplace, -, rfl⟩ := Eval.storeIndex_eq_ok_iff.1 hrun
    exact (Store.list_written h.1 h.2 hx hplace).2
  · rintro ref rfl
    refine ⟨hok.trans (Store.exists_place_table_iff.trans Store.exists_key_iff), ?_⟩
    intro w s' key hrun hkey
    obtain ⟨place, hplace, -, rfl⟩ := Eval.storeIndex_eq_ok_iff.1 hrun
    obtain ⟨key', hkey', rfl⟩ := Store.place_table_eq_ok hplace
    cases hkey.symm.trans hkey'
    exact (Store.table_written h.1 h.2 hkey).2
  · rintro ref rfl
    exact Eval.index_of_eq_ok (Store.index_list (Nat.le_of_lt h.2) x)
  · rintro text rfl
    exact Eval.index_of_eq_ok (Store.index_string (Nat.le_of_lt h) x)

/-- A store with a list of one value. -/
def singletonStore : Store :=
  (Store.empty.newList #[.bool false]).2

/-- A list of one value that is written at its end. -/
theorem write_then_read_append : singletonStore.Holds (.list ⟨0⟩) ∧
    ∃ s', Eval.storeIndex (.list ⟨0⟩) (.number 1.0) .null singletonStore = .ok .null s' ∧
      Eval.index (.list ⟨0⟩) (.number 1.0) s' = .ok .null s' ∧ (s'.list ⟨0⟩).size = 2 ∧
      (s'.list ⟨0⟩)[0]? = some (.bool false) := by
  have hholds : singletonStore.Holds (.list ⟨0⟩) := by
    constructor <;> decide
  have hone : Number.integer? 1.0 = some 1 := by decide +kernel
  obtain ⟨hread, -, hlist, -⟩ := write_then_read hholds (.number 1.0) .null
  obtain ⟨hok, hkept⟩ := hlist ⟨0⟩ rfl
  obtain ⟨w, s', hrun⟩ := hok.2 ⟨1.0, 1, rfl, hone, by decide, by decide⟩
  obtain ⟨rfl, hindex⟩ := hread w s' hrun
  obtain ⟨hsize, hothers⟩ := hkept _ s' 1.0 1 hrun rfl hone
  exact ⟨hholds, s', hrun, hindex, hsize, hothers 0 (by decide) (by decide) (by decide)⟩

end TableScript
