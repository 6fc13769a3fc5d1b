import TableScript.Proofs.Coupling
import TableScript.Proofs.OrderedTable

/-!
Tables as scripts build them. A table literal leaves out what is `null`, and writing `null` under a
key takes the key out; so no entry of a table that started out empty holds `null`.
-/

namespace TableScript

open Entries

theorem Value.isNull_eq_false_iff {value : Value} : value.isNull = false ↔ value ≠ .null := by
  cases value <;> simp [isNull]

/-- A table as scripts build it: its index fits its entries, and no entry holds `null`. -/
structure Table.Sound (t : Table) : Prop where
  valid : t.Valid
  noNull : ∀ entry ∈ t.toList, entry.2 ≠ .null

theorem Entries.mem_of_mem_put {key : Key} {value : Value} {entries : Entries}
    {entry : Key × Value} (hmem : entry ∈ put key value entries) :
    entry = (key, value) ∨ entry ∈ entries := by
  induction entries with
  | nil => exact .inl (List.mem_singleton.1 hmem)
  | cons first entries ih =>
      rw [put] at hmem
      split at hmem
      · exact (List.mem_cons.1 hmem).imp_right (List.mem_cons_of_mem first)
      · rcases List.mem_cons.1 hmem with rfl | hmem
        · exact .inr List.mem_cons_self
        · exact (ih hmem).imp_right (List.mem_cons_of_mem first)

namespace Table.Sound

variable {t : Table}

theorem empty : Table.empty.Sound :=
  ⟨valid_empty, by simp [toList, Table.empty]⟩

theorem insert (h : t.Sound) (key : Key) {value : Value} (hvalue : value ≠ .null) :
    (t.insert key value).Sound where
  valid := h.valid.insert key value
  noNull entry hentry := by
    rw [h.valid.toList_insert] at hentry
    rcases mem_of_mem_put hentry with rfl | hmem
    · exact hvalue
    · exact h.noNull entry hmem

theorem erase (h : t.Sound) (key : Key) : (t.erase key).Sound where
  valid := h.valid.remove key
  noNull entry hentry := by
    rw [Table.erase, (h.valid.remove_eq key).2] at hentry
    exact h.noNull entry (List.mem_of_mem_eraseP hentry)

/-- What a literal does with an entry. -/
theorem add (h : t.Sound) (key : Key) (value : Value) :
    (if value.isNull then t else t.insert key value).Sound := by
  cases hvalue : value.isNull with
  | true => exact h
  | false => exact h.insert key (Value.isNull_eq_false_iff.1 hvalue)

/-- What an assignment does to an entry. -/
theorem set (h : t.Sound) (key : Key) (value : Value) :
    (if value.isNull then t.erase key else t.insert key value).Sound := by
  cases hvalue : value.isNull with
  | true => exact h.erase key
  | false => exact h.insert key (Value.isNull_eq_false_iff.1 hvalue)

/-- What is read under a key is `null` exactly if the key is not there. -/
theorem getD_get?_eq_null_iff (h : t.Sound) (key : Key) :
    (t.get? key).getD .null = .null ↔ key ∉ keys t.toList := by
  cases hslot : Entries.slot? key t.toList with
  | none =>
      have habsent := slot?_eq_none_iff.1 hslot
      simp [h.valid.get?_eq, lookup_of_absent habsent, habsent]
  | some slot =>
      obtain ⟨before, value, after, hsplit, -, habsent⟩ := exists_of_slot? hslot
      have hvalue : value ≠ .null := h.noNull (key, value) (by rw [hsplit]; simp)
      rw [h.valid.get?_eq, hsplit, lookup_of_present habsent]
      simp [hvalue]

end Table.Sound

/-! ### Literals -/

/-- Every value that an evaluation can have is known to have a property. -/
def Eval.Ensures {α : Type} (known : α → Prop) (x : Eval α) : Prop :=
  ∀ s a t, x s = .ok a t → known a

namespace Eval.Ensures

variable {α β : Type} {known : β → Prop}

theorem pure {b : β} (hb : known b) : Ensures known (Pure.pure b) := by
  intro s b' t hx
  obtain ⟨rfl, rfl⟩ := EStateM.Result.ok.inj hx
  exact hb

theorem bind {x : Eval α} {f : α → Eval β} (hf : ∀ a, Ensures known (f a)) :
    Ensures known (x >>= f) := by
  intro s b t hx
  rw [bind_apply] at hx
  split at hx
  · exact hf _ _ b t hx
  · cases hx

end Eval.Ensures

open Eval

/-- A table literal makes a sound table. -/
theorem evalEntries_sound (m : Machine) (c : Context) {table : Table} (htable : table.Sound)
    (entries : List Entry) : Ensures Table.Sound (evalEntries m c table entries) := by
  induction entries generalizing table with
  | nil =>
      rw [evalEntries]
      exact .pure htable
  | cons entry entries ih =>
      cases entry with
      | named name value =>
          rw [evalEntries]
          exact .bind fun value => ih (htable.add (.string name) value)
      | computed key value =>
          rw [evalEntries]
          exact .bind fun _ => .bind fun key => .bind fun value => ih (htable.add key value)

theorem runEntries_sound (m : Machine) (c : Context) {table : Table} (htable : table.Sound)
    (entries : List CodeEntry) : Ensures Table.Sound (runEntries m c table entries) := by
  induction entries generalizing table with
  | nil =>
      rw [runEntries]
      exact .pure htable
  | cons entry entries ih =>
      cases entry with
      | fixed key value =>
          rw [runEntries]
          exact .bind fun value => ih (htable.add key value)
      | computed key value =>
          rw [runEntries]
          exact .bind fun _ => .bind fun key => .bind fun value => ih (htable.add key value)

end TableScript
