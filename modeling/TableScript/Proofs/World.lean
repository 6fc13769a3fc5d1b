import TableScript.Proofs.Renaming

/-!
Two stores that are the same up to a renaming of some of their places. What is read at related places
is related, and so is all that scripts can find out about it: the value of a name, the parts of a
container, the text of a value.
-/

namespace TableScript

variable {ρ : Renaming}

/-! ### Parts of sequences -/

section

variable {α : Type} [Renamable α]

theorem related_getElem? {xs ys : List α} (h : Related ρ xs ys) (i : Nat) :
    Related ρ xs[i]? ys[i]? := by
  induction h generalizing i with
  | nil => exact .none
  | cons hhead _ ih =>
      cases i with
      | zero => exact .some hhead
      | succ i => exact ih i

theorem related_set {xs ys : List α} (h : Related ρ xs ys) {a b : α} (hab : Related ρ a b)
    (i : Nat) : Related ρ (xs.set i a) (ys.set i b) := by
  induction h generalizing i with
  | nil => exact .nil
  | cons hhead htail ih =>
      cases i with
      | zero => exact .cons hab htail
      | succ i => exact .cons hhead (ih i)

theorem related_eraseIdx {xs ys : List α} (h : Related ρ xs ys) (i : Nat) :
    Related ρ (xs.eraseIdx i) (ys.eraseIdx i) := by
  induction h generalizing i with
  | nil => exact .nil
  | cons hhead htail ih =>
      cases i with
      | zero => exact htail
      | succ i => exact .cons hhead (ih i)

theorem related_append {xs ys xs' ys' : List α} (h : Related ρ xs ys) (h' : Related ρ xs' ys') :
    Related ρ (xs ++ xs') (ys ++ ys') :=
  List.rel_append h h'

theorem related_headD {xs ys : List α} (h : Related ρ xs ys) {a b : α} (hab : Related ρ a b) :
    Related ρ (xs.headD a) (ys.headD b) := by
  cases h with
  | nil => exact hab
  | cons hhead _ => exact hhead

theorem related_getLastD {xs ys : List α} (h : Related ρ xs ys) {a b : α} (hab : Related ρ a b) :
    Related ρ (xs.getLastD a) (ys.getLastD b) := by
  induction h generalizing a b with
  | nil => exact hab
  | cons hhead _ ih =>
      rw [List.getLastD_cons, List.getLastD_cons]
      exact ih hhead

/-- What makes the same of related members makes the same of related lists. -/
theorem map_eq_of_related {β : Type} {f g : α → β} (hfg : ∀ {a b}, Related ρ a b → f a = g b)
    {xs ys : List α} (h : Related ρ xs ys) : xs.map f = ys.map g := by
  induction h with
  | nil => rfl
  | cons hhead _ ih => rw [List.map_cons, List.map_cons, hfg hhead, ih]

section

variable {β : Type} [Renamable β] {x y : Option α}

theorem isSome_eq_of_related (h : Related ρ x y) : x.isSome = y.isSome := by
  cases h <;> rfl

theorem related_getD (h : Related ρ x y) {a b : α} (hab : Related ρ a b) :
    Related ρ (x.getD a) (y.getD b) := by
  cases h with
  | none => exact hab
  | some h => exact h

theorem related_map {f g : α → β} (h : Related ρ x y)
    (hfg : ∀ {a b}, Related ρ a b → Related ρ (f a) (g b)) : Related ρ (x.map f) (y.map g) := by
  cases h with
  | none => exact .none
  | some h => exact .some (hfg h)

end

namespace Array

variable {xs ys : Array α} {a b : α}

theorem size_eq_of_related (h : Related ρ xs ys) : xs.size = ys.size :=
  List.Forall₂.length_eq h

theorem getElem?_related (h : Related ρ xs ys) (i : Nat) : Related ρ xs[i]? ys[i]? := by
  rw [← Array.getElem?_toList, ← Array.getElem?_toList]
  exact related_getElem? h i

theorem push_related (h : Related ρ xs ys) (hab : Related ρ a b) :
    Related ρ (xs.push a) (ys.push b) := by
  change Related ρ (xs.push a).toList (ys.push b).toList
  rw [Array.toList_push, Array.toList_push]
  exact related_append h (.cons hab .nil)

theorem setIfInBounds_related (h : Related ρ xs ys) (hab : Related ρ a b) (i : Nat) :
    Related ρ (xs.setIfInBounds i a) (ys.setIfInBounds i b) := by
  change Related ρ (xs.setIfInBounds i a).toList (ys.setIfInBounds i b).toList
  rw [Array.toList_setIfInBounds, Array.toList_setIfInBounds]
  exact related_set h hab i

theorem eraseIdxIfInBounds_related (h : Related ρ xs ys) (i : Nat) :
    Related ρ (xs.eraseIdxIfInBounds i) (ys.eraseIdxIfInBounds i) := by
  change Related ρ (xs.eraseIdxIfInBounds i).toList (ys.eraseIdxIfInBounds i).toList
  rw [Array.toList_eraseIdxIfInBounds, Array.toList_eraseIdxIfInBounds]
  exact related_eraseIdx h i

end Array

end

/-! ### Scopes -/

namespace Frame

variable {f g : Frame} {v w : Value}

theorem get?_related (h : Related ρ f g) (name : String) :
    Related ρ (f.get? name) (g.get? name) := by
  obtain ⟨bindings⟩ := f
  obtain ⟨bindings'⟩ := g
  change List.Forall₂ (Related ρ) bindings bindings' at h
  change Related ρ (bindings.lookup name) (bindings'.lookup name)
  induction h with
  | nil => exact .none
  | @cons x y _ _ hhead _ ih =>
      obtain ⟨key, value⟩ := x
      obtain ⟨_, value'⟩ := y
      obtain ⟨rfl, hvalue⟩ := hhead
      rw [List.lookup_cons, List.lookup_cons]
      cases name == key with
      | true => exact .some hvalue
      | false => exact ih

theorem binds_eq (h : Related ρ f g) (name : String) : f.binds name = g.binds name :=
  isSome_eq_of_related (get?_related h name)

theorem bind_related (h : Related ρ f g) (name : String) (hvalue : Related ρ v w) :
    Related ρ (f.bind name v) (g.bind name w) := by
  obtain ⟨bindings⟩ := f
  obtain ⟨bindings'⟩ := g
  change List.Forall₂ (Related ρ) bindings bindings' at h
  change List.Forall₂ (Related ρ) (Frame.insert name v bindings) (Frame.insert name w bindings')
  induction h with
  | nil => exact .cons ⟨rfl, hvalue⟩ .nil
  | @cons x y _ _ hhead htail ih =>
      obtain ⟨key, value⟩ := x
      obtain ⟨_, value'⟩ := y
      obtain ⟨rfl, hold⟩ := hhead
      rw [Frame.insert, Frame.insert]
      by_cases hkey : key = name
      · rw [if_pos hkey, if_pos hkey]
        exact .cons ⟨rfl, hvalue⟩ htail
      · rw [if_neg hkey, if_neg hkey]
        exact .cons ⟨rfl, hold⟩ ih

end Frame

namespace Context

variable {c d : Context}

theorem inner_related (h : Related ρ c d) : Related ρ c.inner d.inner := by
  cases h with
  | cons hinner _ => exact hinner

theorem root_related (h : Related ρ c d) : Related ρ c.root d.root := by
  cases h with
  | cons hinner houter => exact related_getLastD houter hinner

theorem enter_related (h : Related ρ c d) {f g : FrameRef} (hfg : Related ρ f g) :
    Related ρ (c.enter f) (d.enter g) :=
  .cons hfg h

end Context

/-! ### Tables -/

namespace Table

variable {t u : Table} {v w : Value}

theorem get?_related (h : Related ρ t u) (key : Key) :
    Related ρ (t.get? key) (u.get? key) := by
  unfold Table.get?
  rw [h.1]
  cases u.index[key]? with
  | none => exact .none
  | some slot =>
      exact related_map (Array.getElem?_related h.2 slot) fun hentry => hentry.2

theorem insert_related (h : Related ρ t u) (key : Key) (hvalue : Related ρ v w) :
    Related ρ (t.insert key v) (u.insert key w) := by
  have hentry : Related ρ (key, v) (key, w) := ⟨rfl, hvalue⟩
  unfold Table.insert
  rw [h.1]
  cases u.index[key]? with
  | none =>
      refine ⟨?_, Array.push_related h.2 hentry⟩
      dsimp only
      rw [Array.size_eq_of_related h.2]
  | some slot => exact ⟨rfl, Array.setIfInBounds_related h.2 hentry slot⟩

/-- An entry of a literal is left out if its value is `null`. -/
theorem add_related (h : Related ρ t u) (key : Key) (hvalue : Related ρ v w) :
    Related ρ (if v.isNull then t else t.insert key v) (if w.isNull then u else u.insert key w) := by
  rw [Value.Renamed.isNull_eq hvalue]
  split
  · exact h
  · exact insert_related h key hvalue

/-- Moving entries up looks only at their keys. -/
theorem moveUp_eq {moved moved' : List (Key × Value)} (h : Related ρ moved moved')
    (index : Std.HashMap Key Nat) : moveUp index moved = moveUp index moved' := by
  unfold moveUp
  induction h generalizing index with
  | nil => rfl
  | cons hhead _ ih =>
      rw [List.foldl_cons, List.foldl_cons, hhead.1]
      exact ih _

theorem erase_related (h : Related ρ t u) (key : Key) : Related ρ (t.erase key) (u.erase key) := by
  unfold Table.erase Table.remove
  rw [h.1]
  cases u.index[key]? with
  | none => exact h
  | some slot =>
      have hentries := Array.eraseIdxIfInBounds_related h.2 slot
      exact ⟨moveUp_eq (List.forall₂_drop slot hentries) _, hentries⟩

end Table

/-! ### Two stores -/

/-- Two stores with a renaming, such that related places hold related things. -/
structure World where
  places : Renaming
  left : Store
  right : Store
  natives : left.natives = right.natives
  contents : ∀ {a b}, places.pairs a b →
    ∃ x y, left.content? a = some x ∧ right.content? b = some y ∧ Related places x y

namespace World

variable (w : World)

theorem frame_related {f g : FrameRef} (h : Related w.places f g) :
    Related w.places (w.left.frame f) (w.right.frame g) := by
  obtain ⟨x, y, hx, hy, hxy⟩ := w.contents h
  obtain ⟨f', hf, rfl⟩ := Option.map_eq_some_iff.mp hx
  obtain ⟨g', hg, rfl⟩ := Option.map_eq_some_iff.mp hy
  cases hxy with
  | frame hxy =>
      rw [Store.frame, Store.frame, hf, hg]
      exact hxy

theorem list_related {a b : ListRef} (h : w.places.pairs (.list a) (.list b)) :
    Related w.places (w.left.list a) (w.right.list b) := by
  obtain ⟨x, y, hx, hy, hxy⟩ := w.contents h
  obtain ⟨xs, hxs, rfl⟩ := Option.map_eq_some_iff.mp hx
  obtain ⟨ys, hys, rfl⟩ := Option.map_eq_some_iff.mp hy
  cases hxy with
  | list hxy =>
      rw [Store.list, Store.list, hxs, hys]
      exact hxy

theorem table_related {a b : TableRef} (h : w.places.pairs (.table a) (.table b)) :
    Related w.places (w.left.table a) (w.right.table b) := by
  obtain ⟨x, y, hx, hy, hxy⟩ := w.contents h
  obtain ⟨t, ht, rfl⟩ := Option.map_eq_some_iff.mp hx
  obtain ⟨u, hu, rfl⟩ := Option.map_eq_some_iff.mp hy
  cases hxy with
  | table hxy =>
      rw [Store.table, Store.table, ht, hu]
      exact hxy

theorem function_related {a b : FunctionRef}
    (h : w.places.pairs (.function a) (.function b)) :
    ∃ f g, w.left.function? a = some f ∧ w.right.function? b = some g ∧ Related w.places f g := by
  obtain ⟨x, y, hx, hy, hxy⟩ := w.contents h
  obtain ⟨f, hf, rfl⟩ := Option.map_eq_some_iff.mp hx
  obtain ⟨g, hg, rfl⟩ := Option.map_eq_some_iff.mp hy
  cases hxy with
  | function hxy => exact ⟨f, g, hf, hg, hxy⟩

theorem native?_eq (ref : NativeRef) : w.left.native? ref = w.right.native? ref := by
  rw [Store.native?, Store.native?, w.natives]

/-! ### Names -/

section

variable {c d : Context} (hc : Related w.places c d)

include hc

theorem lookup_related (name : String) :
    Related w.places (w.left.lookup c name) (w.right.lookup d name) := by
  unfold Store.lookup
  change List.Forall₂ (Related w.places) c.frames d.frames at hc
  generalize c.frames = frames, d.frames = frames' at hc ⊢
  induction hc with
  | nil => exact .none
  | cons hframe _ ih =>
      have hget := Frame.get?_related (w.frame_related hframe) name
      rw [List.findSome?_cons, List.findSome?_cons]
      generalize (w.left.frame _).get? name = x, (w.right.frame _).get? name = y at hget ⊢
      cases hget with
      | none => exact ih
      | some hvalue => exact .some hvalue

theorem get_related (name : String) :
    Related w.places (w.left.get c name) (w.right.get d name) :=
  related_getD (w.lookup_related hc name) .null

theorem find?_related (name : String) : Related w.places
    (c.frames.find? fun frame => (w.left.frame frame).binds name)
    (d.frames.find? fun frame => (w.right.frame frame).binds name) := by
  change List.Forall₂ (Related w.places) c.frames d.frames at hc
  generalize c.frames = frames, d.frames = frames' at hc ⊢
  induction hc with
  | nil => exact .none
  | cons hframe _ ih =>
      rw [List.find?_cons, List.find?_cons, Frame.binds_eq (w.frame_related hframe) name]
      split
      · exact .some hframe
      · exact ih

/-- Assignments go to related scopes. -/
theorem home_related (name : String) :
    Related w.places (w.left.home c name) (w.right.home d name) :=
  related_getD (w.find?_related hc name) (Context.inner_related hc)

end

/-! ### Containers -/

theorem index_related {container container' index index' : Value}
    (hcontainer : Related w.places container container') (hindex : Related w.places index index') :
    Related w.places (w.left.index container index) (w.right.index container' index') := by
  cases hcontainer with
  | table h =>
      simp only [Store.index, Key.ofValue_eq hindex]
      cases Key.ofValue index' with
      | error fault => exact .error fault
      | ok key => exact .ok (related_getD (Table.get?_related (w.table_related h) key) .null)
  | list h =>
      have hlist := w.list_related h
      simp only [Store.index, numericIndex_eq _ hindex, Array.size_eq_of_related hlist]
      cases numericIndex .list index' with
      | error fault => exact .error fault
      | ok position =>
          refine .ok (related_getD ?_ .null)
          cases slot? position (w.right.list _).size with
          | none => exact .none
          | some slot => exact Array.getElem?_related hlist slot
  | string text =>
      simp only [Store.index, numericIndex_eq _ hindex]
      cases numericIndex .string index' with
      | error fault => exact .error fault
      | ok position =>
          refine .ok (related_getD ?_ .null)
          cases slot? position text.length with
          | none => exact .none
          | some slot =>
              rw [Option.bind_some, charAt?]
              cases text.toList[slot]? with
              | none => exact .none
              | some char => exact .some (.string _)
  | _ => exact .error _

theorem member_related {container container' : Value}
    (hcontainer : Related w.places container container') (name : String) :
    Related w.places (w.left.member container name) (w.right.member container' name) := by
  cases hcontainer with
  | table h => exact .ok (related_getD (Table.get?_related (w.table_related h) _) .null)
  | _ => exact .error _

theorem place_related {container container' index index' : Value}
    (hcontainer : Related w.places container container') (hindex : Related w.places index index') :
    Related w.places (w.left.place container index) (w.right.place container' index') := by
  cases hcontainer with
  | table h =>
      simp only [Store.place, Key.ofValue_eq hindex]
      cases Key.ofValue index' with
      | error fault => exact .error fault
      | ok key => exact .ok (.key h key)
  | list h =>
      simp only [Store.place, numericIndex_eq _ hindex, Array.size_eq_of_related (w.list_related h)]
      cases numericIndex .list index' with
      | error fault => exact .error fault
      | ok position =>
          simp only [bind, Except.bind]
          cases slot? position (w.right.list _).size with
          | some slot => exact .ok (.slot h slot)
          | none =>
              dsimp only
              split
              · exact .ok (.back h)
              · exact .error _
  | _ => exact .error _

theorem memberPlace_related {ρ : Renaming} {container container' : Value}
    (hcontainer : Related ρ container container') (name : String) :
    Related ρ (Store.memberPlace container name) (Store.memberPlace container' name) := by
  cases hcontainer with
  | table h => exact .ok (.key h _)
  | _ => exact .error _

theorem numbered_related {ρ : Renaming} {values values' : List Value}
    (h : Related ρ values values') :
    Related ρ (Store.numbered values) (Store.numbered values') := by
  unfold Store.numbered
  refine List.forall₂_iff_get.mpr ⟨?_, fun i hi hi' => ?_⟩
  · rw [List.length_mapIdx, List.length_mapIdx, List.Forall₂.length_eq h]
  · simp only [List.get_eq_getElem, List.getElem_mapIdx]
    exact ⟨List.Forall₂.get h _ _, .number _⟩

theorem toValue_related (ρ : Renaming) (key : Key) : Related ρ key.toValue key.toValue := by
  cases key <;> constructor

theorem items_related {container container' : Value}
    (hcontainer : Related w.places container container') :
    Related w.places (w.left.items container) (w.right.items container') := by
  cases hcontainer with
  | list h => exact .ok (numbered_related (w.list_related h))
  | table h =>
      refine .ok (List.rel_map ?_ (w.table_related h).2)
      rintro ⟨key, value⟩ ⟨key', value'⟩ ⟨hkey, hvalue⟩
      cases (hkey : key = key')
      exact ⟨hvalue, toValue_related w.places key⟩
  | string text =>
      refine .ok (numbered_related (List.forall₂_same.mpr fun value hvalue => ?_))
      obtain ⟨char, _, rfl⟩ := List.mem_map.mp hvalue
      exact .string _
  | _ => exact .error _

/-! ### Texts -/

theorem functionName_eq {a b : FunctionRef} (h : w.places.pairs (.function a) (.function b)) :
    (w.left.function? a).bind (·.name) = (w.right.function? b).bind (·.name) := by
  obtain ⟨f, g, hf, hg, hfg⟩ := w.function_related h
  rw [hf, hg, Option.bind_some, Option.bind_some, hfg.name]

theorem textInside_eq {ρ : Renaming} {f g : Value → String}
    (hfg : ∀ {v v'}, Related ρ v v' → f v = g v') {v v' : Value} (hv : Related ρ v v') :
    v.textInside f = v'.textInside g := by
  have htext := hfg hv
  cases hv with
  | string text => rfl
  | _ => exact htext

/-- Related values have the same text: a text shows no places. -/
theorem textWithin_eq (depth : Nat) {v v' : Value} (hv : Related w.places v v') :
    w.left.textWithin depth v = w.right.textWithin depth v' := by
  induction depth generalizing v v' with
  | zero =>
      cases hv with
      | function h => simp only [Store.textWithin, w.functionName_eq h]
      | native ref => simp only [Store.textWithin, w.native?_eq ref]
      | _ => simp only [Store.textWithin]
  | succ depth ih =>
      cases hv with
      | function h => simp only [Store.textWithin, w.functionName_eq h]
      | native ref => simp only [Store.textWithin, w.native?_eq ref]
      | list h =>
          simp only [Store.textWithin]
          rw [map_eq_of_related (textInside_eq ih) (w.list_related h)]
      | table h =>
          have hentry : ∀ {e e' : Key × Value}, Related w.places e e' →
              e.1.toValue.textInside (w.left.textWithin depth) ++ ": "
                  ++ e.2.textInside (w.left.textWithin depth)
                = e'.1.toValue.textInside (w.right.textWithin depth) ++ ": "
                  ++ e'.2.textInside (w.right.textWithin depth) := by
            rintro ⟨key, value⟩ ⟨key', value'⟩ ⟨hkey, hvalue⟩
            cases (hkey : key = key')
            rw [textInside_eq ih (toValue_related w.places key), textInside_eq ih hvalue]
          simp only [Store.textWithin, Table.toList]
          rw [map_eq_of_related hentry (w.table_related h).2]
      | _ => simp only [Store.textWithin]

theorem text_eq {v v' : Value} (hv : Related w.places v v') : w.left.text v = w.right.text v' :=
  w.textWithin_eq Store.ampleDepth hv

theorem line_eq {args args' : List Value} (hargs : Related w.places args args') :
    w.left.line args = w.right.line args' := by
  rw [Store.line, Store.line, map_eq_of_related w.text_eq hargs]

end World

end TableScript
