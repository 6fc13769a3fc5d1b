import TableScript.Proofs.Calls

/-!
No table holds `null`. Of the operations on tables a script has only two: it makes a table from a
literal and it writes an entry, and neither leaves a `null` behind. So throughout a run, whatever is
called, a table reads as `null` exactly under the keys that it does not have.
-/

namespace TableScript

open Eval Entries

/-- Tables as scripts build them, all of them. -/
def SoundTables (tables : Array Table) : Prop :=
  ∀ table ∈ tables, table.Sound

theorem SoundTables.push {tables : Array Table} (h : SoundTables tables) {table : Table}
    (htable : table.Sound) : SoundTables (tables.push table) := by
  intro other hother
  rcases Array.mem_push.1 hother with hmem | rfl
  · exact h other hmem
  · exact htable

theorem SoundTables.modify {tables : Array Table} (h : SoundTables tables) {f : Table → Table}
    (hf : ∀ table, table.Sound → (f table).Sound) (i : Nat) : SoundTables (tables.modify i f) := by
  intro other hother
  obtain ⟨j, hj, rfl⟩ := Array.mem_iff_getElem.1 hother
  rw [Array.size_modify] at hj
  rw [Array.getElem_modify]
  split
  · exact hf _ (h _ (Array.getElem_mem hj))
  · exact h _ (Array.getElem_mem hj)

/-! ### Reading -/

/-- What scripts find in the tables of a store: `null` stands for a key that is not there, and for
nothing else. -/
structure Store.TellsAbsence (s : Store) : Prop where
  index : ∀ ref i key, Key.ofValue i = .ok key →
    (s.index (.table ref) i = .ok .null ↔ key ∉ keys (s.table ref).toList)
  member : ∀ ref name,
    s.member (.table ref) name = .ok .null ↔ .string name ∉ keys (s.table ref).toList
  items : ∀ ref items, s.items (.table ref) = .ok items → ∀ item ∈ items, item.1 ≠ .null

theorem Store.table_sound {s : Store} (h : SoundTables s.tables) (ref : TableRef) :
    (s.table ref).Sound := by
  rw [Store.table]
  cases htable : s.tables[ref.index]? with
  | none => exact .empty
  | some table => exact h table (Array.mem_of_getElem? htable)

theorem Store.tellsAbsence {s : Store} (h : SoundTables s.tables) : s.TellsAbsence := by
  constructor
  · intro ref i key hkey
    have hread : s.index (.table ref) i = .ok (((s.table ref).get? key).getD .null) := by
      rw [Store.index, hkey]
      rfl
    rw [hread, Except.ok.injEq, (table_sound h ref).getD_get?_eq_null_iff key]
  · intro ref name
    rw [Store.member, Except.ok.injEq, (table_sound h ref).getD_get?_eq_null_iff (.string name)]
  · intro ref items hitems item hitem
    obtain rfl := Except.ok.inj hitems
    obtain ⟨entry, hentry, rfl⟩ := List.mem_map.1 hitem
    exact (table_sound h ref).noNull entry hentry

/-! ### Running -/

/-- A store that remembers what another one does, and none of whose tables has ever held `null`. -/
structure Store.Clean (start s : Store) : Prop where
  remembers : ∀ tables, start.seen tables → s.seen tables
  current : s.seen s.tables
  sound : ∀ tables, s.seen tables → SoundTables tables

namespace Store.Clean

variable {start s : Store}

/-- Changes to anything but the tables. -/
theorem of_tables_eq (h : start.Clean s) {t : Store} (htables : t.tables = s.tables)
    (hseen : t.seen = s.seen) : start.Clean t where
  remembers tables := hseen ▸ h.remembers tables
  current := by rw [htables, hseen]; exact h.current
  sound tables := hseen ▸ h.sound tables

/-- The tables are put into another state, which is remembered. -/
theorem change (h : start.Clean s) {t : Store} (hseen : t.seen = s.seenThen t.tables)
    (hsound : SoundTables t.tables) : start.Clean t where
  remembers tables htables := by
    rw [hseen]
    exact .inr (h.remembers tables htables)
  current := by
    rw [hseen]
    exact .inl rfl
  sound tables htables := by
    rw [hseen] at htables
    rcases htables with rfl | hearlier
    · exact hsound
    · exact h.sound tables hearlier

theorem write (h : start.Clean s) (place : Place) (value : Value) :
    start.Clean (s.write place value) := by
  cases place with
  | key ref key =>
      apply h.change rfl
      exact (h.sound _ h.current).modify (fun _ htable => htable.set key value) ref.index
  | slot ref slot => exact h.of_tables_eq rfl rfl
  | back ref => exact h.of_tables_eq rfl rfl

end Store.Clean

/-- Nothing is remembered, so all that is remembered later is of the run. -/
theorem Store.clean_forget {s : Store} (h : SoundTables s.tables) : s.forget.Clean s.forget where
  remembers _ := id
  current := rfl
  sound tables htables := by
    obtain rfl : tables = s.tables := htables
    exact h

theorem Store.Clean.prepare {start s : Store} (h : start.Clean s) (setup : Setup) (block : Block) :
    start.Clean (s.prepare setup block).2 := by
  unfold Store.prepare
  split
  · exact h
  · dsimp only
    split
    · exact h.of_tables_eq rfl rfl
    · exact h

/-- The coupling of a run with itself, as long as no table holds `null`. -/
def Coupling.clean (start : Store) : Coupling :=
  .diagonal start.Clean fun _ => True

variable {start : Store}

theorem Coupling.clean_record {s t : Store} (h : (clean start).rel s t) (event : Event) :
    (clean start).rel (s.record event) (t.record event) := by
  obtain ⟨rfl, hs⟩ := h
  exact ⟨rfl, hs.of_tables_eq rfl rfl⟩

theorem Coupling.clean_stable : (clean start).Stable .anything Eq where
  alike := by
    rintro s _ ⟨rfl, -⟩
    exact .refl s
  newList := by
    rintro s _ ⟨rfl, hs⟩ values
    exact ⟨rfl, hs.of_tables_eq rfl rfl⟩
  newTable := by
    rintro s _ ⟨rfl, hs⟩ table htable
    exact ⟨rfl, hs.change rfl ((hs.sound _ hs.current).push htable)⟩
  newFunction := by
    rintro s _ ⟨rfl, hs⟩ f g hmatch
    obtain rfl := hmatch.eq
    exact ⟨rfl, hs.of_tables_eq rfl rfl⟩
  newFrame := by
    rintro s _ ⟨rfl, hs⟩
    exact ⟨rfl, hs.of_tables_eq rfl rfl⟩
  newFrame_growable _ := trivial
  bind := by
    rintro s _ ⟨rfl, hs⟩ ref name _ value
    exact ⟨rfl, hs.of_tables_eq rfl rfl⟩
  publish := by
    rintro s _ ⟨rfl, hs⟩ c name value
    exact ⟨rfl, hs.of_tables_eq rfl rfl⟩
  write := by
    rintro s _ ⟨rfl, hs⟩ place value
    exact ⟨rfl, hs.write place value⟩
  called h ref args := clean_record h (.called ref args)
  keepList := by
    intro _ cell _ x y hxy
    apply keepList_invariant fun _ _ => .rfl
    · exact fun _ hs values => hs.of_tables_eq rfl rfl
    · exact fun _ hs list => hs.of_tables_eq rfl rfl
    · exact fun _ hs event _ => hs.of_tables_eq rfl rfl
    · exact hxy
  outOfFuel := trivial
  fault _ := trivial

theorem Coupling.clean_runs : (clean start).Runs Eq := by
  rintro body _ rfl call call' hcall fuel c -
  have hm : Machine.Paired (clean start) (Host.machineOf call fuel) (Host.machineOf call' fuel) :=
    ⟨hcall, rfl⟩
  have hrun := Body.run_coupled clean_stable hm (fun _ _ => rfl) (fun _ _ => rfl) c trivial .top
    body (Policy.anything_allows _)
  apply hrun.bind
  intro ending
  apply Eval.complete_coupled
  · exact fun _ => trivial
  · exact fun signal _ _ h => clean_record h (.escaped signal)

/-- A host whose functions leave no table with `null`, given that the functions they call do not, and
remember the states of tables as scripts do. -/
def Host.KeepsTablesClean (host : Host) : Prop :=
  ∀ start, host.Respects (Coupling.clean start)

theorem Host.standard_keepsTablesClean : Host.standard.KeepsTablesClean := by
  intro start
  apply Coupling.clean_stable.standard_respects
  rintro s _ ⟨rfl, hs⟩ line
  exact ⟨rfl, hs.of_tables_eq rfl rfl⟩

namespace Host

/-- If no table holds `null` when a program starts to run, on whichever engine and whether or not list
literals keep their lists, then none does at any time until it ends, in a value, in a fault or for lack
of fuel. At each of these times a table reads as `null` under a key exactly if it does not have the key,
and a loop over a table binds no `null` as a value. -/
theorem tables_never_hold_null {host : Host} (hhost : host.KeepsTablesClean) (setup : Setup)
    (block : Block) (c : Context) (fuel : Nat) {s : Store} (hs : SoundTables s.tables) :
    let prepared := s.forget.prepare setup block
    let final := Outcome.store (host.run fuel prepared.1 c prepared.2)
    final.seen s.tables ∧ final.seen final.tables ∧
      ∀ now : Store, final.seen now.tables →
        (∀ table ∈ now.tables, ∀ entry ∈ table.toList, entry.2 ≠ .null) ∧ now.TellsAbsence := by
  intro prepared final
  have hprepared : s.forget.Clean prepared.2 := (Store.clean_forget hs).prepare setup block
  have hrun := Coupling.clean_stable.run (hhost s.forget) Coupling.clean_runs fuel
    (l := prepared.1) rfl c
  obtain ⟨-, -, -, hfinal⟩ := Coupling.agree_iff.mp (hrun _ _ ⟨rfl, hprepared⟩)
  have hfinal : s.forget.Clean final := hfinal
  refine ⟨hfinal.remembers _ rfl, hfinal.current, ?_⟩
  intro now hnow
  have hsound := hfinal.sound _ hnow
  exact ⟨fun table htable => (hsound table htable).noNull, Store.tellsAbsence hsound⟩

/-- Nulls in a literal, under a computed key, assigned to an index and to a member, and returned. -/
def nullProgram : Block :=
  [.assign (.name "t") (.set (.table [.named "a" (.number 1), .computed (.string "b") .null])),
    .assign (.member (.name "t") "a") (.set .null),
    .assign (.index (.name "t") (.number 2)) (.set (.access (.name "print") [.call []])),
    .assign (.member (.name "t") "d") (.set (.number 4)),
    .control (.forIn "v" (some "k") (.name "t") [.access (.name "print") [.call [.name "v"]]])]

theorem tables_never_hold_null_nullProgram :
    let fresh := Store.empty.newContextWith Native.all
    let start := (fresh.2.newTable (Table.empty.insert (.string "a") (.bool true))).2
    let prepared := start.forget.prepare ⟨.compiler, true⟩ nullProgram
    let final := Outcome.store (standard.run 9 prepared.1 fresh.1 prepared.2)
    standard.KeepsTablesClean ∧ SoundTables start.tables ∧
      final.seen start.tables ∧ final.seen final.tables ∧
      ∀ now : Store, final.seen now.tables →
        (∀ table ∈ now.tables, ∀ entry ∈ table.toList, entry.2 ≠ .null) ∧ now.TellsAbsence := by
  intro fresh start
  have hsound : SoundTables start.tables := by
    have hnone : SoundTables #[] := by simp [SoundTables]
    exact hnone.push (Table.Sound.empty.insert (.string "a") (by simp))
  exact ⟨standard_keepsTablesClean, hsound,
    tables_never_hold_null standard_keepsTablesClean ⟨.compiler, true⟩ nullProgram fresh.1 9 hsound⟩

end Host

end TableScript
