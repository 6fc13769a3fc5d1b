import TableScript.Proofs.Keys

/-!
Going through a container. Each value comes with a key under which the container has it, and no key comes
twice. For sequences the keys are positions, for tables the values of their keys.
-/

namespace TableScript

open Entries

/-- A key as scripts make it: of a value, or of a name. -/
inductive Key.Made : Key → Prop
  | ofValue {value : Value} {key : Key} (h : Key.ofValue value = .ok key) : Made key
  | ofName (name : String) : Made (.string name)

theorem Key.Made.ofValue_toValue {key : Key} (h : key.Made) : Key.ofValue key.toValue = .ok key := by
  cases h with
  | ofValue h => exact Key.ofValue_toValue h
  | ofName name => rfl

/-- Where no key occurs twice, each entry is found under its key. -/
theorem Entries.lookup_of_mem {entries : Entries} (hnodup : (keys entries).Nodup) {entry : Key × Value}
    (hentry : entry ∈ entries) : entries.lookup entry.1 = some entry.2 := by
  obtain ⟨before, after, rfl⟩ := List.append_of_mem hentry
  rw [keys_append, keys_cons, List.nodup_append] at hnodup
  exact lookup_of_present fun hmem => hnodup.2.2 entry.1 hmem entry.1 List.mem_cons_self rfl

namespace Store

/-- The values of a container in order. Other values have none. -/
def contents (s : Store) : Value → Option (List Value)
  | .list ref => some (s.list ref).toList
  | .string text => some (characters text)
  | .table ref => some ((s.table ref).toList.map (·.2))
  | _ => none

/-- Pairs of a value and its key in a container: the container has each value under its key, and the keys
are different to the language. -/
structure IndexesBack (s : Store) (container : Value) (items : List (Value × Value)) : Prop where
  index_eq : ∀ item ∈ items, s.index container item.2 = .ok item.1
  apart : items.Pairwise fun item other => item.2.equal other.2 = false

variable {s : Store} {values : List Value}

/-! ### Sequences -/

theorem map_fst_numbered (values : List Value) : (numbered values).map (·.1) = values := by
  apply List.ext_getElem
  · simp [numbered]
  · simp [numbered]

/-- Up to a length of `2 ^ 53` the number of a position leads to the position. -/
theorem elementAt_ofNat (hlength : values.length ≤ 2 ^ 53) {i : Nat} (hi : i < values.length) :
    elementAt values (Number.ofNat i) = values[i] := by
  have hnonneg : ¬(i : Int) < 0 := by omega
  rw [elementAt, integer?_ofNat (by omega)]
  simp only [if_neg hnonneg]
  rw [Int.toNat_natCast, List.getElem?_eq_getElem hi]
  rfl

/-- Up to `2 ^ 53` no two positions have the same number. -/
theorem ofNat_beq_ofNat {i j : Nat} (hi : i ≤ 2 ^ 53) (hj : j ≤ 2 ^ 53) (hne : i ≠ j) :
    (Number.ofNat i == Number.ofNat j) = false := by
  rw [← Bool.not_eq_true, beq_iff_integer (integer?_ofNat hj), integer?_ofNat hi, Option.some.injEq]
  exact_mod_cast hne

theorem numbered_indexesBack {container : Value} (hlength : values.length ≤ 2 ^ 53)
    (hindex : ∀ x, s.index container (.number x) = .ok (elementAt values x)) :
    s.IndexesBack container (numbered values) where
  index_eq item hitem := by
    obtain ⟨i, hi, rfl⟩ := List.mem_mapIdx.1 hitem
    rw [hindex, elementAt_ofNat hlength hi]
  apart := by
    rw [List.pairwise_iff_getElem]
    intro i j hi hj hlt
    rw [numbered, List.length_mapIdx] at hi hj
    simp only [numbered, List.getElem_mapIdx, Value.equal]
    exact ofNat_beq_ofNat (by omega) (by omega) (by omega)

/-! ### Tables -/

theorem table_indexesBack {ref : TableRef} (hvalid : (s.table ref).Valid)
    (hmade : ∀ key ∈ keys (s.table ref).toList, key.Made) :
    s.IndexesBack (.table ref) ((s.table ref).toList.map fun entry => (entry.2, entry.1.toValue)) where
  index_eq item hitem := by
    obtain ⟨entry, hentry, rfl⟩ := List.mem_map.1 hitem
    have hkey := (hmade entry.1 (List.mem_map_of_mem hentry)).ofValue_toValue
    rw [index_table hkey, hvalid.get?_eq, lookup_of_mem hvalid.nodup hentry]
    rfl
  apart := by
    have hnodup := hvalid.nodup
    rw [keys, List.nodup_iff_pairwise_ne, List.pairwise_map] at hnodup
    rw [List.pairwise_map]
    refine hnodup.imp_of_mem fun {entry other} hentry hother hne => ?_
    have hkey := (hmade entry.1 (List.mem_map_of_mem hentry)).ofValue_toValue
    have hkey' := (hmade other.1 (List.mem_map_of_mem hother)).ofValue_toValue
    rw [← Bool.not_eq_true, ← Key.eq_iff_equal hkey hkey']
    exact hne

end Store

/-- Going through a container gives each of its values once, in order, with a key under which the
container has it, and the keys are all different. A sequence has to be short enough for the numbers of
its positions to be told apart, and the keys of a table have to be made of values or names. -/
theorem items_index_back {s : Store} {container : Value} {values : List Value}
    (hcontents : s.contents container = some values) (h : s.Holds container)
    (hmade : ∀ ref, container = .table ref → ∀ key ∈ keys (s.table ref).toList, key.Made) :
    ∃ items, s.items container = .ok items ∧ s.IndexesBack container items ∧ items.map (·.1) = values ∧
      ∀ ref, container = .table ref → items.map (·.2) = (keys (s.table ref).toList).map Key.toValue := by
  cases container with
  | list ref =>
      cases hcontents
      have hsize : (s.list ref).toList.length ≤ 2 ^ 53 := h.2.le
      refine ⟨_, rfl, Store.numbered_indexesBack hsize (Store.index_list h.2.le),
        Store.map_fst_numbered _, fun ref' href => ?_⟩
      cases href
  | string text =>
      cases hcontents
      have hlength : (Store.characters text).length ≤ 2 ^ 53 := by
        rw [Store.characters, List.length_map, String.length_toList]
        exact Nat.le_of_lt h
      refine ⟨_, rfl, Store.numbered_indexesBack hlength (Store.index_string (Nat.le_of_lt h)),
        Store.map_fst_numbered _, fun ref href => ?_⟩
      cases href
  | table ref =>
      cases hcontents
      refine ⟨_, rfl, Store.table_indexesBack h.2 (hmade ref rfl), ?_, fun ref' href => ?_⟩
      · rw [List.map_map]
        rfl
      · cases href
        rw [keys, List.map_map, List.map_map]
        rfl
  | _ => cases hcontents

/-- From `2 ^ 53` on the numbers of positions run together. -/
example : Number.ofNat (2 ^ 53) = Number.ofNat (2 ^ 53 + 1) := by
  decide +kernel

/-- A store with a table that has an entry under a negative zero and one under a name. -/
def zeroKeyStore : Store :=
  (Store.empty.newTable ((Table.empty.insert (.ofNumber (-0.0)) (.bool true)).insert (.string "a")
    (.string "b"))).2

theorem toList_zeroKeyStore : (zeroKeyStore.table ⟨0⟩).toList =
    [(.number 0, .bool true), (.string "a", .string "b")] := by
  have hkey : Key.ofNumber (-0.0) = .number 0 := by decide +kernel
  change ((Table.empty.insert (.ofNumber (-0.0)) (.bool true)).insert (.string "a") (.string "b")).toList = _
  rw [(Table.valid_empty.insert _ _).toList_insert, Table.valid_empty.toList_insert, hkey]
  rfl

/-- The entry that was put under a negative zero comes with the positive one, and is found under it. -/
theorem items_index_back_zeroKey : zeroKeyStore.Holds (.table ⟨0⟩) ∧
    ∃ items, zeroKeyStore.items (.table ⟨0⟩) = .ok items ∧
      zeroKeyStore.IndexesBack (.table ⟨0⟩) items ∧
      items.map (·.1) = [.bool true, .string "b"] ∧ items.map (·.2) = [.number 0, .string "a"] := by
  have hholds : zeroKeyStore.Holds (.table ⟨0⟩) :=
    ⟨by decide, (Table.valid_empty.insert _ _).insert _ _⟩
  have hmade : ∀ ref, Value.table ⟨0⟩ = .table ref → ∀ key ∈ keys (zeroKeyStore.table ref).toList,
      key.Made := by
    intro ref href key hkey
    cases href
    rw [toList_zeroKeyStore] at hkey
    simp only [keys, List.map_cons, List.map_nil, List.mem_cons, List.not_mem_nil, or_false] at hkey
    rcases hkey with rfl | rfl
    · exact .ofValue (show Key.ofValue (.number (-0.0)) = _ by decide +kernel)
    · exact .ofName "a"
  obtain ⟨items, hitems, hback, hvalues, hkeys⟩ := items_index_back rfl hholds hmade
  refine ⟨hholds, items, hitems, hback, ?_, ?_⟩
  · rw [hvalues, toList_zeroKeyStore]
    rfl
  · rw [hkeys ⟨0⟩ rfl, toList_zeroKeyStore]
    decide +kernel

end TableScript
