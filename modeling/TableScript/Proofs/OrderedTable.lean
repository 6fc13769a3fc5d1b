import TableScript.Value.Table

/-!
Tables as ordered maps. What a table holds is a list of entries, none with the key of another, and its
index only repeats where in that list each key stands. So a history of operations on a table is one on
such a list, and the index never has to be mentioned.
-/

namespace TableScript

/-- An ordered map without an index: its entries are searched one after another. -/
abbrev Entries := List (Key × Value)

namespace Entries

def keys (entries : Entries) : List Key :=
  entries.map (·.1)

/-- Puts a value under a key, in place of the value there or in a new entry at the end. -/
def put (key : Key) (value : Value) : Entries → Entries
  | [] => [(key, value)]
  | entry :: entries =>
    if entry.1 = key then (key, value) :: entries else entry :: put key value entries

/-- Takes the entry of a key out; the others keep their order. -/
def without (key : Key) (entries : Entries) : Entries :=
  entries.eraseP (·.1 == key)

/-- The slot at which a key stands. -/
def slot? (key : Key) (entries : Entries) : Option Nat :=
  entries.findIdx? (·.1 == key)

variable {key : Key} {value old : Value} {before after entries : Entries}

@[simp]
theorem keys_nil : keys [] = [] :=
  rfl

@[simp]
theorem keys_cons (entry : Key × Value) : keys (entry :: entries) = entry.1 :: keys entries :=
  rfl

@[simp]
theorem keys_append : keys (before ++ after) = keys before ++ keys after :=
  List.map_append

theorem put_of_absent (h : key ∉ keys entries) :
    put key value entries = entries ++ [(key, value)] := by
  induction entries with
  | nil => rfl
  | cons entry entries ih =>
      simp only [keys_cons, List.mem_cons, not_or] at h
      rw [put, if_neg (Ne.symm h.1), ih h.2]
      rfl

theorem put_of_present (h : key ∉ keys before) :
    put key value (before ++ (key, old) :: after) = before ++ (key, value) :: after := by
  induction before with
  | nil => rw [List.nil_append, put, if_pos rfl]; rfl
  | cons entry before ih =>
      simp only [keys_cons, List.mem_cons, not_or] at h
      rw [List.cons_append, put, if_neg (Ne.symm h.1), ih h.2]
      rfl

theorem lookup_of_absent (h : key ∉ keys entries) : entries.lookup key = none := by
  rw [List.lookup_eq_none_iff]
  intro entry hentry
  have hne : key ≠ entry.1 := fun heq => h (heq ▸ List.mem_map_of_mem hentry)
  simpa using hne

theorem lookup_of_present (h : key ∉ keys before) :
    (before ++ (key, value) :: after).lookup key = some value := by
  rw [List.lookup_append, lookup_of_absent h, Option.none_or, List.lookup_cons_self]

theorem without_of_absent (h : key ∉ keys entries) : without key entries = entries := by
  refine List.eraseP_of_forall_not fun entry hentry => ?_
  have hne : entry.1 ≠ key := fun heq => h (heq ▸ List.mem_map_of_mem hentry)
  simpa using hne

theorem without_of_present (h : key ∉ keys before) :
    without key (before ++ (key, value) :: after) = before ++ after := by
  rw [without, List.eraseP_append_right, List.eraseP_cons_of_pos (by simp)]
  intro entry hentry
  have hne : entry.1 ≠ key := fun heq => h (heq ▸ List.mem_map_of_mem hentry)
  simpa using hne

theorem slot?_eq_none_iff : slot? key entries = none ↔ key ∉ keys entries := by
  simp only [slot?, keys, List.findIdx?_eq_none_iff, List.mem_map, not_exists, not_and]
  exact forall₂_congr fun entry _ => by simp

theorem slot?_append :
    slot? key (before ++ after) =
      (slot? key before).or ((slot? key after).map (· + before.length)) :=
  List.findIdx?_append

theorem slot?_cons_of_ne {first : Key} (h : first ≠ key) :
    slot? key ((first, value) :: entries) = (slot? key entries).map (· + 1) := by
  simp [slot?, List.findIdx?_cons, h]

/-- A key that has a slot stands there, and nowhere before. -/
theorem exists_of_slot? {slot : Nat} (h : slot? key entries = some slot) :
    ∃ before value after, entries = before ++ (key, value) :: after ∧ before.length = slot ∧
      key ∉ keys before := by
  obtain ⟨hlt, hkey, hbefore⟩ := List.findIdx?_eq_some_iff_getElem.1 h
  have hentry : (entries[slot]).1 = key := by simpa using hkey
  refine ⟨entries.take slot, (entries[slot]).2, entries.drop (slot + 1), ?_, ?_, ?_⟩
  · rw [← hentry]
    exact ((List.take_append_drop slot entries).symm.trans (by rw [List.drop_eq_getElem_cons hlt]))
  · exact List.length_take_of_le (Nat.le_of_lt hlt)
  · intro hmem
    obtain ⟨entry, hmem, hsame⟩ := List.mem_map.1 hmem
    obtain ⟨i, hi, rfl⟩ := List.mem_take_iff_getElem.1 hmem
    exact hbefore i (by omega) (by simpa using hsame)

/-- Where no key occurs twice, the slot of a key is where it stands. -/
theorem slot?_eq_some_iff (hnodup : (keys entries).Nodup) {slot : Nat} :
    slot? key entries = some slot ↔ ∃ value, entries[slot]? = some (key, value) := by
  constructor
  · intro h
    obtain ⟨before, value, after, rfl, rfl, -⟩ := exists_of_slot? h
    exact ⟨value, by simp⟩
  · rintro ⟨value, hentry⟩
    obtain ⟨hlt, hentry⟩ := List.getElem?_eq_some_iff.1 hentry
    have hsplit : entries = entries.take slot ++ (key, value) :: entries.drop (slot + 1) := by
      rw [← hentry, ← List.drop_eq_getElem_cons hlt, List.take_append_drop]
    have habsent : key ∉ keys (entries.take slot) := by
      rw [hsplit, keys_append, List.nodup_append] at hnodup
      exact fun hmem => hnodup.2.2 key hmem key (by simp) rfl
    rw [hsplit, slot?_append, slot?_eq_none_iff.2 habsent]
    simp [slot?, List.findIdx?_cons, Nat.min_eq_left (Nat.le_of_lt hlt)]

end Entries

namespace Table

open Entries

/-- The index leads a key to a slot exactly if the entry at that slot has the key. -/
structure Valid (t : Table) : Prop where
  slot_iff : ∀ (key : Key) (slot : Nat),
    t.index[key]? = some slot ↔ ∃ value, t.toList[slot]? = some (key, value)
  size_eq : t.index.size = t.toList.length

variable {t : Table} {key : Key} {value : Value}

theorem Valid.nodup (h : t.Valid) : (keys t.toList).Nodup := by
  rw [List.nodup_iff_pairwise_ne, List.pairwise_iff_getElem]
  intro i j hi hj hlt heq
  rw [keys, List.length_map] at hi hj
  simp only [keys, List.getElem_map] at heq
  have hfirst : t.index[(t.toList[i]).1]? = some i :=
    (h.slot_iff _ i).2 ⟨(t.toList[i]).2, List.getElem?_eq_getElem hi⟩
  have hsecond : t.index[(t.toList[j]).1]? = some j :=
    (h.slot_iff _ j).2 ⟨(t.toList[j]).2, List.getElem?_eq_getElem hj⟩
  rw [heq, hsecond] at hfirst
  exact absurd hlt (Option.some.inj hfirst ▸ Nat.lt_irrefl _)

theorem Valid.index_eq (h : t.Valid) (key : Key) : t.index[key]? = slot? key t.toList :=
  Option.ext fun slot => (h.slot_iff key slot).trans (slot?_eq_some_iff h.nodup).symm

theorem Valid.slot_lt (h : t.Valid) {slot : Nat} (hslot : t.index[key]? = some slot) :
    slot < t.size := by
  obtain ⟨value, hentry⟩ := (h.slot_iff key slot).1 hslot
  exact (List.getElem?_eq_some_iff.1 hentry).1

/-- It is enough that the index finds what a search finds. -/
theorem valid_of_index_eq (hnodup : (keys t.toList).Nodup)
    (hindex : ∀ key, t.index[key]? = slot? key t.toList) (hsize : t.index.size = t.toList.length) :
    t.Valid where
  slot_iff key slot := by rw [hindex, slot?_eq_some_iff hnodup]
  size_eq := hsize

theorem valid_empty : empty.Valid :=
  valid_of_index_eq (by simp [toList, empty]) (fun _ => by simp [slot?, toList, empty])
    (by simp [toList, empty])

/-! ### Reading and inserting -/

theorem Valid.get?_eq (h : t.Valid) (key : Key) : t.get? key = t.toList.lookup key := by
  rw [get?, h.index_eq]
  cases hslot : slot? key t.toList with
  | none => rw [lookup_of_absent (slot?_eq_none_iff.1 hslot)]; rfl
  | some slot =>
      obtain ⟨before, value, after, hsplit, rfl, habsent⟩ := exists_of_slot? hslot
      have hentry : t.entries[before.length]? = some (key, value) := by
        rw [← Array.getElem?_toList, show t.entries.toList = _ from hsplit]
        simp
      rw [hsplit, lookup_of_present habsent, Option.bind_some, hentry]
      rfl

theorem Valid.toList_insert (h : t.Valid) (key : Key) (value : Value) :
    (t.insert key value).toList = put key value t.toList := by
  rw [insert, h.index_eq]
  cases hslot : slot? key t.toList with
  | none =>
      rw [put_of_absent (slot?_eq_none_iff.1 hslot)]
      simp [toList]
  | some slot =>
      obtain ⟨before, old, after, hsplit, rfl, habsent⟩ := exists_of_slot? hslot
      rw [hsplit, put_of_present habsent, toList, Array.toList_setIfInBounds,
        show t.entries.toList = _ from hsplit]
      simp

theorem Valid.insert (h : t.Valid) (key : Key) (value : Value) : (t.insert key value).Valid := by
  have htoList := h.toList_insert key value
  have hnodup := h.nodup
  cases hslot : slot? key t.toList with
  | none =>
      have habsent := slot?_eq_none_iff.1 hslot
      have hindex : t.index[key]? = none := (h.index_eq key).trans hslot
      rw [put_of_absent habsent] at htoList
      refine valid_of_index_eq ?_ (fun other => ?_) ?_
      · rw [htoList, keys_append, List.nodup_append]
        exact ⟨hnodup, by simp, fun a ha b hb heq => habsent (by simp_all)⟩
      · have hrest := h.index_eq other
        rw [htoList, slot?_append, ← hrest]
        simp only [Table.insert, hindex, Std.HashMap.getElem?_insert]
        by_cases hkey : key = other
        · subst hkey
          simp [hindex, slot?, toList]
        · simp [hkey, slot?]
      · rw [htoList, List.length_append, ← h.size_eq]
        simp only [Table.insert, hindex]
        rw [Std.HashMap.size_insert, if_neg (by simpa using hindex)]
        rfl
  | some slot =>
      obtain ⟨before, old, after, hsplit, rfl, habsent⟩ := exists_of_slot? hslot
      have hindex := (h.index_eq key).trans hslot
      rw [hsplit, put_of_present habsent] at htoList
      have hsame : (t.insert key value).index = t.index := by simp only [Table.insert, hindex]
      refine valid_of_index_eq ?_ (fun other => ?_) ?_
      · rw [hsplit] at hnodup
        rw [htoList]
        simpa using hnodup
      · rw [hsame, h.index_eq, htoList, hsplit, slot?_append, slot?_append]
        simp [slot?, List.findIdx?_cons]
      · rw [hsame, h.size_eq, htoList, hsplit]
        simp

/-! ### Removing -/

theorem getElem?_moveUp {moved : Entries} (hnodup : (keys moved).Nodup)
    (index : Std.HashMap Key Nat) (key : Key) :
    (moveUp index moved)[key]? =
      if key ∈ keys moved then (index[key]?).map (· - 1) else index[key]? := by
  induction moved generalizing index with
  | nil => simp [moveUp]
  | cons entry moved ih =>
      rw [keys_cons, List.nodup_cons] at hnodup
      have hrest := ih hnodup.2 (index.modify entry.1 fun slot => slot - 1)
      rw [Std.HashMap.getElem?_modify] at hrest
      refine hrest.trans ?_
      by_cases hkey : entry.1 = key
      · subst hkey
        simp [hnodup.1]
      · simp [hkey, Ne.symm hkey]

theorem size_moveUp (moved : Entries) (index : Std.HashMap Key Nat) :
    (moveUp index moved).size = index.size := by
  induction moved generalizing index with
  | nil => rfl
  | cons entry moved ih => exact (ih _).trans Std.HashMap.size_modify

/-- What taking out a key at a known place leaves. -/
theorem remove_of_split {before after : Entries} (h : t.Valid)
    (hsplit : t.toList = before ++ (key, value) :: after) :
    t.remove key = (some value,
      ⟨(before ++ after).toArray, moveUp (t.index.erase key) after⟩) := by
  have hentry : t.toList[before.length]? = some (key, value) := by rw [hsplit]; simp
  have hrest : (t.entries.eraseIdxIfInBounds before.length).toList = before ++ after := by
    rw [Array.toList_eraseIdxIfInBounds, show t.entries.toList = _ from hsplit,
      List.eraseIdx_append_of_length_le (Nat.le_refl _), Nat.sub_self]
    rfl
  have herase : t.entries.eraseIdxIfInBounds before.length = (before ++ after).toArray :=
    congrArg List.toArray hrest
  rw [remove, (h.slot_iff key before.length).2 ⟨value, hentry⟩]
  simp only [herase, List.drop_left]
  rw [← Array.getElem?_toList, show t.entries.toList[before.length]? = _ from hentry]
  rfl

theorem Valid.remove_eq (h : t.Valid) (key : Key) :
    (t.remove key).1 = t.toList.lookup key ∧ (t.remove key).2.toList = without key t.toList := by
  cases hslot : slot? key t.toList with
  | none =>
      have habsent := slot?_eq_none_iff.1 hslot
      rw [remove, h.index_eq, hslot, lookup_of_absent habsent, without_of_absent habsent]
      exact ⟨rfl, rfl⟩
  | some slot =>
      obtain ⟨before, value, after, hsplit, -, habsent⟩ := exists_of_slot? hslot
      rw [remove_of_split h hsplit, hsplit, lookup_of_present habsent, without_of_present habsent]
      exact ⟨rfl, by simp [toList]⟩

theorem Valid.remove (h : t.Valid) (key : Key) : (t.remove key).2.Valid := by
  cases hslot : slot? key t.toList with
  | none =>
      rw [Table.remove, h.index_eq, hslot]
      exact h
  | some slot =>
      obtain ⟨before, value, after, hsplit, -, habsent⟩ := exists_of_slot? hslot
      have hnodup := h.nodup
      rw [remove_of_split h hsplit]
      rw [hsplit, keys_append, keys_cons, List.nodup_append, List.nodup_cons] at hnodup
      obtain ⟨hbefore, ⟨hafter, hnodup⟩, hapart⟩ := hnodup
      refine valid_of_index_eq ?_ (fun other => ?_) ?_
      · simp only [toList, keys_append, List.nodup_append]
        exact ⟨hbefore, hnodup, fun a ha b hb => hapart a ha b (List.mem_cons_of_mem _ hb)⟩
      · simp only [toList]
        rw [getElem?_moveUp hnodup, Std.HashMap.getElem?_erase, h.index_eq, hsplit, slot?_append,
          slot?_append]
        by_cases hkey : key = other
        · subst hkey
          simp [hafter, slot?_eq_none_iff.2 hafter, slot?_eq_none_iff.2 habsent]
        · have hother : (key == other) = false := by simpa using hkey
          simp only [slot?_cons_of_ne hkey, hother, Bool.false_eq_true, if_false]
          by_cases hmem : other ∈ keys after
          · have hfront : other ∉ keys before := fun hfront =>
              hapart other hfront other (List.mem_cons_of_mem _ hmem) rfl
            rw [if_pos hmem, slot?_eq_none_iff.2 hfront]
            cases slot? other after with
            | none => rfl
            | some slot =>
                have hmoved : slot + 1 + before.length - 1 = slot + before.length := by omega
                exact congrArg some hmoved
          · rw [if_neg hmem, slot?_eq_none_iff.2 hmem]
            rfl
      · have hpresent : key ∈ t.index := by
          rw [Std.HashMap.mem_iff_contains, Std.HashMap.contains_eq_isSome_getElem?, h.index_eq,
            hslot]
          rfl
        have hsize := h.size_eq
        rw [hsplit] at hsize
        simp only [size_moveUp, toList, Std.HashMap.size_erase, if_pos hpresent, hsize]
        simp

/-- While a key is taken out, the index has a slot after the first one for each entry that is about to
move up. -/
def MovesUp (t : Table) (key : Key) : Prop :=
  ∀ (slot : Nat) (front back : Entries) (entry : Key × Value), t.index[key]? = some slot →
    (t.entries.eraseIdxIfInBounds slot).toList.drop slot = front ++ entry :: back →
    ∃ position, (moveUp (t.index.erase key) front)[entry.1]? = some position ∧ 0 < position

theorem Valid.movesUp (h : t.Valid) (key : Key) : t.MovesUp key := by
  intro slot front back entry hslot hmoved
  rw [h.index_eq] at hslot
  obtain ⟨before, value, after, hsplit, rfl, habsent⟩ := exists_of_slot? hslot
  rw [Array.toList_eraseIdxIfInBounds, show t.entries.toList = _ from hsplit,
    List.eraseIdx_append_of_length_le (Nat.le_refl _), Nat.sub_self, List.eraseIdx_cons_zero,
    List.drop_left] at hmoved
  subst hmoved
  have hnodup := h.nodup
  have hentry : t.toList[before.length + 1 + front.length]? = some entry := by
    rw [hsplit, List.getElem?_append_right (by omega)]
    simp [show before.length + 1 + front.length - before.length = front.length + 1 by omega]
  have hindex := (h.slot_iff entry.1 _).2 ⟨entry.2, hentry⟩
  rw [hsplit] at hnodup
  simp only [keys_append, keys_cons, List.nodup_append, List.nodup_cons, List.mem_append,
    List.mem_cons, not_or] at hnodup
  obtain ⟨-, ⟨hkey, hfront, -, hapart⟩, -⟩ := hnodup
  have hlater : entry.1 ∉ keys front := fun hmem => hapart entry.1 hmem entry.1 (.inl rfl) rfl
  refine ⟨before.length + 1 + front.length, ?_, by omega⟩
  rw [getElem?_moveUp hfront, if_neg hlater, Std.HashMap.getElem?_erase,
    if_neg (by simpa using hkey.2.1), hindex]

/-! ### Histories -/

/-- The operations on ordered maps. -/
inductive Op where
  | insert (key : Key) (value : Value)
  | remove (key : Key)
  | get (key : Key)
  | size
  | isEmpty
  | toList

/-- What operations answer. -/
inductive Answer where
  | done
  | value (found : Option Value)
  | size (count : Nat)
  | isEmpty (empty : Bool)
  | entries (entries : Entries)

def perform (t : Table) : Op → Answer × Table
  | .insert key value => (.done, t.insert key value)
  | .remove key => (.value (t.remove key).1, (t.remove key).2)
  | .get key => (.value (t.get? key), t)
  | .size => (.size t.size, t)
  | .isEmpty => (.isEmpty t.isEmpty, t)
  | .toList => (.entries t.toList, t)

/-- The operations on an ordered map without an index. -/
def Entries.perform (entries : Entries) : Op → Answer × Entries
  | .insert key value => (.done, put key value entries)
  | .remove key => (.value (entries.lookup key), without key entries)
  | .get key => (.value (entries.lookup key), entries)
  | .size => (.size entries.length, entries)
  | .isEmpty => (.isEmpty entries.isEmpty, entries)
  | .toList => (.entries entries, entries)

/-- The answers to operations one after another, and what they leave. -/
def history {σ : Type} (perform : σ → Op → Answer × σ) : List Op → σ → List Answer × σ
  | [], s => ([], s)
  | op :: ops, s =>
    let rest := history perform ops (perform s op).2
    ((perform s op).1 :: rest.1, rest.2)

theorem Valid.perform (h : t.Valid) (op : Op) :
    (t.perform op).1 = (Entries.perform t.toList op).1 ∧
      (t.perform op).2.toList = (Entries.perform t.toList op).2 ∧ (t.perform op).2.Valid := by
  cases op with
  | insert key value => exact ⟨rfl, h.toList_insert key value, h.insert key value⟩
  | remove key =>
      obtain ⟨hfound, htoList⟩ := h.remove_eq key
      exact ⟨congrArg Answer.value hfound, htoList, h.remove key⟩
  | get key => exact ⟨congrArg Answer.value (h.get?_eq key), rfl, h⟩
  | size => exact ⟨rfl, rfl, h⟩
  | isEmpty => exact ⟨congrArg Answer.isEmpty Array.isEmpty_toList.symm, rfl, h⟩
  | toList => exact ⟨rfl, rfl, h⟩

theorem Valid.history (h : t.Valid) (ops : List Op) :
    (history Table.perform ops t).1 = (history Entries.perform ops t.toList).1 ∧
      (history Table.perform ops t).2.toList = (history Entries.perform ops t.toList).2 ∧
      (history Table.perform ops t).2.Valid := by
  induction ops generalizing t with
  | nil => exact ⟨rfl, rfl, h⟩
  | cons op ops ih =>
      obtain ⟨hanswer, htoList, hvalid⟩ := h.perform op
      obtain ⟨hanswers, hrest, hlast⟩ := ih hvalid
      rw [htoList] at hanswers hrest
      refine ⟨?_, hrest, hlast⟩
      simp only [Table.history, hanswer, hanswers]

/-- A table answers every operation as the plain list of its entries does, whatever was done with it
before. Its index then leads each key to the entry with that key; so no key occurs twice, the index is
as large as the list, its slots are in bounds, and no slot from which an entry moves up is the first. -/
theorem history_refines (ops : List Op) :
    (history perform ops empty).1 = (history Entries.perform ops []).1 ∧
      (history perform ops empty).2.toList = (history Entries.perform ops []).2 ∧
      (history perform ops empty).2.Valid ∧
      (keys (history perform ops empty).2.toList).Nodup ∧
      (∀ (key : Key) (slot : Nat), (history perform ops empty).2.index[key]? = some slot →
        slot < (history perform ops empty).2.size) ∧
      ∀ key, (history perform ops empty).2.MovesUp key := by
  obtain ⟨hanswers, htoList, hvalid⟩ := valid_empty.history ops
  exact ⟨hanswers, htoList, hvalid, hvalid.nodup, fun _ _ => hvalid.slot_lt, hvalid.movesUp⟩

end Table

end TableScript
