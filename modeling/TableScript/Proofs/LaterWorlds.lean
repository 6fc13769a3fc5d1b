import TableScript.Proofs.World

/-!
What two stores side by side may turn into while the same is done to both. Pairs of places stay, and
new pairs are of places that were free on both sides; places that are in no pair keep what they hold;
and both stores get the same lines printed. Each operation on a store leads to a later world.
-/

namespace TableScript

namespace World

/-- The second world is one that the first may turn into. -/
structure Precedes (w w' : World) : Prop where
  places : w.places ≤ w'.places
  fresh : ∀ {a b}, w'.places.pairs a b →
    w.places.pairs a b ∨ w.left.content? a = none ∧ w.right.content? b = none
  left : ∀ {a x}, w.left.content? a = some x → (∀ b, ¬w.places.pairs a b) →
    w'.left.content? a = some x
  right : ∀ {b y}, w.right.content? b = some y → (∀ a, ¬w.places.pairs a b) →
    w'.right.content? b = some y
  natives : w'.left.natives = w.left.natives
  output : ∃ lines, w'.left.output = w.left.output ++ lines ∧
    w'.right.output = w.right.output ++ lines

variable {w w' w'' : World} {a b : Node}

theorem held_left (hab : w.places.pairs a b) : w.left.content? a ≠ none := by
  obtain ⟨x, y, hx, _, _⟩ := w.contents hab
  simp [hx]

theorem held_right (hab : w.places.pairs a b) : w.right.content? b ≠ none := by
  obtain ⟨x, y, _, hy, _⟩ := w.contents hab
  simp [hy]

namespace Precedes

theorem refl (w : World) : w.Precedes w where
  places := le_refl _
  fresh := .inl
  left hx _ := hx
  right hy _ := hy
  natives := rfl
  output := ⟨#[], by simp⟩

/-- What is free later was free before. -/
theorem free_left (h : w.Precedes w') (ha : w'.left.content? a = none) :
    w.left.content? a = none := by
  cases hx : w.left.content? a with
  | none => rfl
  | some x =>
      by_cases hpaired : ∃ b, w.places.pairs a b
      · obtain ⟨b, hab⟩ := hpaired
        exact absurd ha (held_left (h.places hab))
      · rw [h.left hx (not_exists.mp hpaired)] at ha
        cases ha

theorem free_right (h : w.Precedes w') (hb : w'.right.content? b = none) :
    w.right.content? b = none := by
  cases hy : w.right.content? b with
  | none => rfl
  | some y =>
      by_cases hpaired : ∃ a, w.places.pairs a b
      · obtain ⟨a, hab⟩ := hpaired
        exact absurd hb (held_right (h.places hab))
      · rw [h.right hy (not_exists.mp hpaired)] at hb
        cases hb

/-- A place that holds something and is in no pair gets into none. -/
theorem unpaired_left (h : w.Precedes w') (ha : w.left.content? a ≠ none)
    (hpaired : ∀ b, ¬w.places.pairs a b) (b : Node) : ¬w'.places.pairs a b := by
  intro hab
  rcases h.fresh hab with hab | ⟨hfree, _⟩
  · exact hpaired b hab
  · exact ha hfree

theorem unpaired_right (h : w.Precedes w') (hb : w.right.content? b ≠ none)
    (hpaired : ∀ a, ¬w.places.pairs a b) (a : Node) : ¬w'.places.pairs a b := by
  intro hab
  rcases h.fresh hab with hab | ⟨_, hfree⟩
  · exact hpaired a hab
  · exact hb hfree

theorem trans (h : w.Precedes w') (h' : w'.Precedes w'') : w.Precedes w'' where
  places := le_trans h.places h'.places
  fresh hab := by
    rcases h'.fresh hab with hab | ⟨ha, hb⟩
    · exact h.fresh hab
    · exact .inr ⟨h.free_left ha, h.free_right hb⟩
  left hx hpaired := h'.left (h.left hx hpaired) (h.unpaired_left (by simp [hx]) hpaired)
  right hy hpaired := h'.right (h.right hy hpaired) (h.unpaired_right (by simp [hy]) hpaired)
  natives := h'.natives.trans h.natives
  output := by
    obtain ⟨lines, hleft, hright⟩ := h.output
    obtain ⟨lines', hleft', hright'⟩ := h'.output
    refine ⟨lines ++ lines', ?_, ?_⟩
    · rw [hleft', hleft, Array.append_assoc]
    · rw [hright', hright, Array.append_assoc]

end Precedes

instance : Preorder World where
  le := Precedes
  le_refl := Precedes.refl
  le_trans _ _ _ := Precedes.trans

end World

/-! ### One place at a time -/

/-- The second store is the first but for what one place holds. -/
structure Store.Becomes (s : Store) (node : Node) (content : Content) (s' : Store) : Prop where
  content : ∀ n, s'.content? n = if n = node then some content else s.content? n
  natives : s'.natives = s.natives
  output : s'.output = s.output

namespace Store

variable (s : Store)

theorem newList_becomes (values : Array Value) :
    s.Becomes (.list (s.newList values).1) (.list values) (s.newList values).2 := by
  refine ⟨fun n => ?_, rfl, rfl⟩
  cases n with
  | list ref =>
      obtain ⟨i⟩ := ref
      simp only [newList, content?, Array.getElem?_push, Node.list.injEq, ListRef.mk.injEq]
      split <;> rfl
  | _ => rfl

theorem newTable_becomes (table : Table) :
    s.Becomes (.table (s.newTable table).1) (.table table) (s.newTable table).2 := by
  refine ⟨fun n => ?_, rfl, rfl⟩
  cases n with
  | table ref =>
      obtain ⟨i⟩ := ref
      simp only [newTable, content?, Array.getElem?_push, Node.table.injEq, TableRef.mk.injEq]
      split <;> rfl
  | _ => rfl

theorem newFunction_becomes (closure : Closure) :
    s.Becomes (.function (s.newFunction closure).1) (.function closure)
      (s.newFunction closure).2 := by
  refine ⟨fun n => ?_, rfl, rfl⟩
  cases n with
  | function ref =>
      obtain ⟨i⟩ := ref
      simp only [newFunction, content?, Array.getElem?_push, Node.function.injEq,
        FunctionRef.mk.injEq]
      split <;> rfl
  | _ => rfl

theorem newFrame_becomes (frame : Frame) :
    s.Becomes (.frame (s.newFrame frame).1) (.frame frame) (s.newFrame frame).2 := by
  refine ⟨fun n => ?_, rfl, rfl⟩
  cases n with
  | frame ref =>
      obtain ⟨i⟩ := ref
      simp only [newFrame, content?, Array.getElem?_push, Node.frame.injEq, FrameRef.mk.injEq]
      split <;> rfl
  | _ => rfl

variable {s}

theorem modifyList_becomes {ref : ListRef} {values : Array Value}
    (href : s.content? (.list ref) = some (.list values)) (f : Array Value → Array Value) :
    s.Becomes (.list ref) (.list (f values)) (s.modifyList ref f) := by
  refine ⟨fun n => ?_, rfl, rfl⟩
  cases n with
  | list other =>
      obtain ⟨values', hvalues, ⟨⟩⟩ := Option.map_eq_some_iff.mp href
      obtain ⟨i⟩ := ref
      obtain ⟨j⟩ := other
      simp only [modifyList, content?, Array.getElem?_modify, Node.list.injEq, ListRef.mk.injEq]
      by_cases hij : i = j
      · subst hij
        simp [hvalues]
      · simp [hij, Ne.symm hij]
  | _ => rfl

theorem modifyTable_becomes {ref : TableRef} {table : Table}
    (href : s.content? (.table ref) = some (.table table)) (f : Table → Table) :
    s.Becomes (.table ref) (.table (f table)) (s.modifyTable ref f) := by
  refine ⟨fun n => ?_, rfl, rfl⟩
  cases n with
  | table other =>
      obtain ⟨table', htable, ⟨⟩⟩ := Option.map_eq_some_iff.mp href
      obtain ⟨i⟩ := ref
      obtain ⟨j⟩ := other
      simp only [modifyTable, content?, Array.getElem?_modify, Node.table.injEq, TableRef.mk.injEq]
      by_cases hij : i = j
      · subst hij
        simp [htable]
      · simp [hij, Ne.symm hij]
  | _ => rfl

theorem modifyFrame_becomes {ref : FrameRef} {frame : Frame}
    (href : s.content? (.frame ref) = some (.frame frame)) (f : Frame → Frame) :
    s.Becomes (.frame ref) (.frame (f frame)) (s.modifyFrame ref f) := by
  refine ⟨fun n => ?_, rfl, rfl⟩
  cases n with
  | frame other =>
      obtain ⟨frame', hframe, ⟨⟩⟩ := Option.map_eq_some_iff.mp href
      obtain ⟨i⟩ := ref
      obtain ⟨j⟩ := other
      simp only [modifyFrame, content?, Array.getElem?_modify, Node.frame.injEq, FrameRef.mk.injEq]
      by_cases hij : i = j
      · subst hij
        simp [hframe]
      · simp [hij, Ne.symm hij]
  | _ => rfl

end Store

/-! ### Steps from world to world -/

namespace World

variable (w : World) {a b : Node} {x y : Content} {s t : Store}

/-- Something new at a free place of either store makes one more pair. -/
theorem exists_made (ha : w.left.content? a = none) (hb : w.right.content? b = none)
    (hs : w.left.Becomes a x s) (ht : w.right.Becomes b y t) (hxy : Related w.places x y) :
    ∃ w', w ≤ w' ∧ w'.left = s ∧ w'.right = t ∧ w'.places.pairs a b := by
  let places := w.places.extend a b (fun c hac => held_left hac ha) (fun c hcb => held_right hcb hb)
  have hle : w.places ≤ places := fun _ _ => .inl
  refine ⟨⟨places, s, t, ?_, ?_⟩, ⟨hle, ?_, ?_, ?_, hs.natives, ⟨#[], ?_, ?_⟩⟩, rfl, rfl,
    .inr ⟨rfl, rfl⟩⟩
  · rw [hs.natives, ht.natives, w.natives]
  · rintro c d (hcd | ⟨rfl, rfl⟩)
    · have hca : c ≠ a := fun h => held_left hcd (h ▸ ha)
      have hdb : d ≠ b := fun h => held_right hcd (h ▸ hb)
      obtain ⟨x', y', hx', hy', hxy'⟩ := w.contents hcd
      exact ⟨x', y', by rw [hs.content, if_neg hca, hx'], by rw [ht.content, if_neg hdb, hy'],
        hxy'.mono hle⟩
    · exact ⟨x, y, by rw [hs.content, if_pos rfl], by rw [ht.content, if_pos rfl], hxy.mono hle⟩
  · rintro c d (hcd | ⟨rfl, rfl⟩)
    · exact .inl hcd
    · exact .inr ⟨ha, hb⟩
  · intro c x' hx' _
    have hca : c ≠ a := fun h => by simp [h, ha] at hx'
    rw [hs.content, if_neg hca, hx']
  · intro d y' hy' _
    have hdb : d ≠ b := fun h => by simp [h, hb] at hy'
    rw [ht.content, if_neg hdb, hy']
  · rw [hs.output, Array.append_empty]
  · rw [ht.output, Array.append_empty]

/-- Related places get related things. -/
theorem exists_changed (hab : w.places.pairs a b) (hs : w.left.Becomes a x s)
    (ht : w.right.Becomes b y t) (hxy : Related w.places x y) :
    ∃ w', w ≤ w' ∧ w'.left = s ∧ w'.right = t := by
  refine ⟨⟨w.places, s, t, ?_, ?_⟩, ⟨le_refl _, .inl, ?_, ?_, hs.natives, ⟨#[], ?_, ?_⟩⟩, rfl, rfl⟩
  · rw [hs.natives, ht.natives, w.natives]
  · intro c d hcd
    by_cases hca : c = a
    · cases w.places.functional (hca ▸ hcd) hab
      exact ⟨x, y, by rw [hs.content, if_pos hca], by rw [ht.content, if_pos rfl], hxy⟩
    · have hdb : d ≠ b := fun h => hca (w.places.injective (h ▸ hcd) hab)
      obtain ⟨x', y', hx', hy', hxy'⟩ := w.contents hcd
      exact ⟨x', y', by rw [hs.content, if_neg hca, hx'], by rw [ht.content, if_neg hdb, hy'], hxy'⟩
  · intro c x' hx' hpaired
    have hca : c ≠ a := fun h => hpaired b (h ▸ hab)
    rw [hs.content, if_neg hca, hx']
  · intro d y' hy' hpaired
    have hdb : d ≠ b := fun h => hpaired a (h ▸ hab)
    rw [ht.content, if_neg hdb, hy']
  · rw [hs.output, Array.append_empty]
  · rw [ht.output, Array.append_empty]

section

variable {f g : Frame → Frame} {ref ref' : FrameRef}

theorem exists_modifyFrame (href : Related w.places ref ref')
    (hfg : ∀ {x y : Frame}, Related w.places x y → Related w.places (f x) (g y)) :
    ∃ w', w ≤ w' ∧ w'.left = w.left.modifyFrame ref f ∧ w'.right = w.right.modifyFrame ref' g := by
  obtain ⟨x, y, hx, hy, hxy⟩ := w.contents href
  obtain ⟨_, _, rfl⟩ := Option.map_eq_some_iff.mp hx
  obtain ⟨_, _, rfl⟩ := Option.map_eq_some_iff.mp hy
  cases hxy with
  | frame hxy =>
      exact w.exists_changed href (Store.modifyFrame_becomes hx f) (Store.modifyFrame_becomes hy g)
        (.frame (hfg hxy))

end

section

variable {f g : Array Value → Array Value} {ref ref' : ListRef}

theorem exists_modifyList (href : w.places.pairs (.list ref) (.list ref'))
    (hfg : ∀ {x y : Array Value}, Related w.places x y → Related w.places (f x) (g y)) :
    ∃ w', w ≤ w' ∧ w'.left = w.left.modifyList ref f ∧ w'.right = w.right.modifyList ref' g := by
  obtain ⟨x, y, hx, hy, hxy⟩ := w.contents href
  obtain ⟨_, _, rfl⟩ := Option.map_eq_some_iff.mp hx
  obtain ⟨_, _, rfl⟩ := Option.map_eq_some_iff.mp hy
  cases hxy with
  | list hxy =>
      exact w.exists_changed href (Store.modifyList_becomes hx f) (Store.modifyList_becomes hy g)
        (.list (hfg hxy))

end

section

variable {f g : Table → Table} {ref ref' : TableRef}

theorem exists_modifyTable (href : w.places.pairs (.table ref) (.table ref'))
    (hfg : ∀ {x y : Table}, Related w.places x y → Related w.places (f x) (g y)) :
    ∃ w', w ≤ w' ∧ w'.left = w.left.modifyTable ref f ∧ w'.right = w.right.modifyTable ref' g := by
  obtain ⟨x, y, hx, hy, hxy⟩ := w.contents href
  obtain ⟨_, _, rfl⟩ := Option.map_eq_some_iff.mp hx
  obtain ⟨_, _, rfl⟩ := Option.map_eq_some_iff.mp hy
  cases hxy with
  | table hxy =>
      exact w.exists_changed href (Store.modifyTable_becomes hx f) (Store.modifyTable_becomes hy g)
        (.table (hfg hxy))

end

/-- Related parts of containers get related values. -/
theorem exists_written {place place' : Place} {v v' : Value} (hplace : Related w.places place place')
    (hv : Related w.places v v') :
    ∃ w', w ≤ w' ∧ w'.left = w.left.write place v ∧ w'.right = w.right.write place' v' := by
  cases hplace with
  | key h key =>
      apply w.exists_modifyTable h
      intro t u htu
      rw [Value.Renamed.isNull_eq hv]
      split
      · exact Table.erase_related htu key
      · exact Table.insert_related htu key hv
  | slot h slot => exact w.exists_modifyList h fun hxy => Array.setIfInBounds_related hxy hv slot
  | back h => exact w.exists_modifyList h fun hxy => Array.push_related hxy hv

/-- The same lines are printed. What is printed and what happened is no part of any place. -/
theorem exists_printed (lines : Array String) (hs : s.content? = w.left.content?)
    (ht : t.content? = w.right.content?) (hnatives : s.natives = w.left.natives)
    (hnatives' : t.natives = w.right.natives) (hleft : s.output = w.left.output ++ lines)
    (hright : t.output = w.right.output ++ lines) :
    ∃ w', w ≤ w' ∧ w'.left = s ∧ w'.right = t := by
  refine ⟨⟨w.places, s, t, ?_, ?_⟩, ⟨le_refl _, .inl, ?_, ?_, hnatives, ⟨lines, hleft, hright⟩⟩,
    rfl, rfl⟩
  · rw [hnatives, hnatives', w.natives]
  · rw [hs, ht]
    exact w.contents
  · intro c x' hx' _
    rw [hs, hx']
  · intro d y' hy' _
    rw [ht, hy']

/-- An event is no part of what a store holds. -/
theorem exists_recorded (event event' : Event) :
    ∃ w', w ≤ w' ∧ w'.left = w.left.record event ∧ w'.right = w.right.record event' :=
  w.exists_printed #[] rfl rfl rfl rfl Array.append_empty.symm Array.append_empty.symm

end World

end TableScript
