import TableScript.Proofs.Equivariance

/-!
Contexts from which nothing common can be reached do not notice each other. Runs in the one context
leave alone all that can be reached from the other, and where they have taken up places in the store
matters to nobody; so runs in a context are what they were without the runs in the other, up to a
renaming of what they make.
-/

namespace TableScript

open Eval

/-! ### What can be reached -/

/-- The place that a value refers to. -/
def Value.node? : Value → Option Node
  | .list ref => some (.list ref)
  | .table ref => some (.table ref)
  | .function ref => some (.function ref)
  | _ => none

/-- The places that something refers to. -/
inductive Content.Mentions : Content → Node → Prop where
  | variable {frame : Frame} {name : String} {value : Value} {node : Node}
      (hbound : (name, value) ∈ frame.bindings) (hnode : value.node? = some node) :
      Mentions (.frame frame) node
  | element {values : Array Value} {value : Value} {node : Node} (hvalue : value ∈ values.toList)
      (hnode : value.node? = some node) : Mentions (.list values) node
  | entry {table : Table} {key : Key} {value : Value} {node : Node}
      (hentry : (key, value) ∈ table.entries.toList) (hnode : value.node? = some node) :
      Mentions (.table table) node
  | scope {closure : Closure} {frame : FrameRef} (hframe : frame ∈ closure.context.frames) :
      Mentions (.function closure) (.frame frame)

/-- The scopes, lists, tables and functions that can be reached from a context. -/
inductive Store.Reaches (s : Store) (c : Context) : Node → Prop where
  | scope {frame : FrameRef} (hframe : frame ∈ c.frames) : Reaches s c (.frame frame)
  | next {node other : Node} {content : Content} (hnode : s.Reaches c node)
      (hcontent : s.content? node = some content) (hother : content.Mentions other) :
      Reaches s c other

/-- All that can be reached from a context is there, and the functions among it are as the engines
make them when no list literal keeps its list. -/
structure Store.Sound (s : Store) (c : Context) : Prop where
  held : ∀ {node}, s.Reaches c node → s.content? node ≠ none
  plain : ∀ {ref closure}, s.Reaches c (.function ref) → s.function? ref = some closure →
    closure.body.Plain

/-- Two contexts from which no place can be reached in common. -/
def Store.Separate (s : Store) (a b : Context) : Prop :=
  ∀ node, s.Reaches a node → ¬s.Reaches b node

section

variable {s : Store} {c : Context}

theorem Value.related_identity {P : Node → Prop} {value : Value}
    (hvalue : ∀ {node}, value.node? = some node → P node) :
    Related (.identity P) value value := by
  cases value with
  | list ref => exact .list ⟨rfl, hvalue rfl⟩
  | table ref => exact .table ⟨rfl, hvalue rfl⟩
  | function ref => exact .function ⟨rfl, hvalue rfl⟩
  | _ => constructor

/-- What can be reached is the same as itself if only what can be reached is compared. -/
theorem Store.Sound.related_identity (hsound : s.Sound c) {node : Node} {content : Content}
    (hnode : s.Reaches c node) (hcontent : s.content? node = some content) :
    Related (.identity (s.Reaches c)) content content := by
  cases content with
  | frame frame =>
      refine .frame (List.forall₂_same.mpr fun binding hbinding => ⟨rfl, ?_⟩)
      exact Value.related_identity fun h => .next hnode hcontent (.variable hbinding h)
  | list values =>
      refine .list (List.forall₂_same.mpr fun value hvalue => ?_)
      exact Value.related_identity fun h => .next hnode hcontent (.element hvalue h)
  | table table =>
      refine .table ⟨rfl, List.forall₂_same.mpr fun entry hentry => ⟨rfl, ?_⟩⟩
      exact Value.related_identity fun h => .next hnode hcontent (.entry hentry h)
  | function closure =>
      refine .function ⟨rfl, rfl, rfl, ?_, List.forall₂_same.mpr fun frame hframe => ?_⟩
      · cases node with
        | function ref =>
            obtain ⟨closure', hclosure, ⟨⟩⟩ := Option.map_eq_some_iff.mp hcontent
            exact hsound.plain hnode hclosure
        | _ => simp [Store.content?] at hcontent
      · exact ⟨rfl, .next hnode hcontent (.scope hframe)⟩

/-- A store beside itself, with what can be reached from a context. -/
def World.own (s : Store) (c : Context) (hsound : s.Sound c) : World where
  places := .identity (s.Reaches c)
  left := s
  right := s
  natives := rfl
  contents := by
    rintro node _ ⟨rfl, hnode⟩
    obtain ⟨content, hcontent⟩ := Option.ne_none_iff_exists'.mp (hsound.held hnode)
    exact ⟨content, content, hcontent, hcontent, hsound.related_identity hnode hcontent⟩

theorem World.own_context (hsound : s.Sound c) : Related (World.own s c hsound).places c c :=
  List.forall₂_same.mpr fun _ hframe => ⟨rfl, .scope hframe⟩

end

/-! ### Visits -/

/-- A run of a program in the first or the second of two contexts. -/
structure Visit where
  first : Bool
  program : Prepared
  fuel : Nat

/-- A visit, with the store that it found and how it ended. -/
structure Account where
  visit : Visit
  before : Store
  outcome : Outcome Value

namespace Host

variable (host : Host) (a b : Context)

/-- Makes a visit. -/
def attend (visit : Visit) (s : Store) : Outcome Value :=
  host.run visit.fuel visit.program (if visit.first then a else b) s

/-- Makes visits one after another, and accounts for each. -/
def accounts : List Visit → Store → List Account
  | [], _ => []
  | visit :: visits, s =>
    ⟨visit, s, host.attend a b visit s⟩ :: accounts visits (host.attend a b visit s).store

/-- The store after some visits. -/
def afterVisits (visits : List Visit) (s : Store) : Store :=
  visits.foldl (fun s visit => (host.attend a b visit s).store) s

end Host

/-- A context has the same state in two stores: a renaming leaves its scopes in place, and places
that it relates hold the same. -/
structure Context.SameState (c : Context) (ρ : Renaming) (s t : Store) : Prop where
  scopes : Related ρ c c
  contents : ∀ {m n}, ρ.pairs m n → Related ρ (s.content? m) (t.content? n)

/-- Two visits to a context were the same up to a renaming: the same value or the same halt, the same
lines, and the same state of the context afterwards. -/
structure Account.Same (ρ : Renaming) (c : Context) (x y : Account) : Prop where
  visit : x.visit = y.visit
  result : Related ρ x.outcome.result y.outcome.result
  lines : ∃ lines, x.outcome.store.output = x.before.output ++ lines ∧
    y.outcome.store.output = y.before.output ++ lines
  state : c.SameState ρ x.outcome.store y.outcome.store

/-! ### From visit to visit -/

namespace World

/-- More pairs, of places that were free on both sides, and no place has been given back. -/
structure Extends (w w' : World) : Prop where
  places : w.places ≤ w'.places
  fresh : ∀ {m n}, w'.places.pairs m n →
    w.places.pairs m n ∨ w.left.content? m = none ∧ w.right.content? n = none
  left : ∀ {m}, w'.left.content? m = none → w.left.content? m = none
  right : ∀ {n}, w'.right.content? n = none → w.right.content? n = none

namespace Extends

variable {w w' w'' : World}

theorem refl (w : World) : w.Extends w :=
  ⟨le_refl _, .inl, id, id⟩

theorem of_le (h : w ≤ w') : w.Extends w' :=
  ⟨h.places, h.fresh, h.free_left, h.free_right⟩

theorem trans (h : w.Extends w') (h' : w'.Extends w'') : w.Extends w'' where
  places := le_trans h.places h'.places
  fresh hmn := by
    rcases h'.fresh hmn with hmn | ⟨hm, hn⟩
    · exact h.fresh hmn
    · exact .inr ⟨h.left hm, h.right hn⟩
  left hm := h.left (h'.left hm)
  right hn := h.right (h'.right hn)

/-- Pairs that come later say nothing about the stores of now. -/
theorem sameState (h : w.Extends w') {c : Context} (hc : Related w.places c c) :
    c.SameState w'.places w.left w.right where
  scopes := hc.mono h.places
  contents hmn := by
    rcases h.fresh hmn with hmn | ⟨hm, hn⟩
    · obtain ⟨x, y, hx, hy, hxy⟩ := w.contents hmn
      rw [hx, hy]
      exact .some (hxy.mono h.places)
    · rw [hm, hn]
      exact .none

end Extends

/-- The same pairs in other stores that hold the same there. -/
def moved (w : World) (s t : Store) (hnatives : s.natives = t.natives)
    (hs : ∀ {m n}, w.places.pairs m n → s.content? m = w.left.content? m)
    (ht : ∀ {m n}, w.places.pairs m n → t.content? n = w.right.content? n) : World where
  places := w.places
  left := s
  right := t
  natives := hnatives
  contents := by
    intro m n hmn
    rw [hs hmn, ht hmn]
    exact w.contents hmn

/-- What an evaluation and its mirror image leave. -/
theorem Agree.exists_later {α : Type} [Renamable α] {w : World} {x y : Outcome α}
    (h : w.Agree x y) :
    ∃ w', w ≤ w' ∧ w'.left = x.store ∧ w'.right = y.store ∧
      Related w'.places x.result y.result := by
  cases h with
  | ok hle h => exact ⟨_, hle, rfl, rfl, .ok h⟩
  | error hle halt => exact ⟨_, hle, rfl, rfl, .error halt⟩

end World

/-- One world compares the first context with and without the visits to the second, and another one
has what the second context can reach. They have no place in common. -/
structure World.Apart (a b : Context) (w v : World) : Prop where
  left : v.left = w.left
  right : v.right = w.left
  first : Related w.places a a
  second : Related v.places b b
  apart : ∀ {m n}, w.places.pairs m n → ∀ k, ¬v.places.pairs m k ∧ ¬v.places.pairs k m

namespace World.Apart

variable {a b : Context} {w v : World} (h : World.Apart a b w v)

include h

/-- A visit to the first context leaves alone what the second can reach. -/
theorem afterFirst {w' : World} (hle : w ≤ w') : ∃ v', World.Apart a b w' v' := by
  have hkept : ∀ {m x}, w.left.content? m = some x → (∀ n, ¬w.places.pairs m n) →
      w'.left.content? m = w.left.content? m := fun hx hm => (hle.left hx hm).trans hx.symm
  have hleft : ∀ {m n}, v.places.pairs m n → w'.left.content? m = v.left.content? m := by
    intro m n hmn
    obtain ⟨x, _, hx, _, _⟩ := v.contents hmn
    rw [h.left] at hx ⊢
    exact hkept hx fun k hmk => (h.apart hmk n).1 hmn
  have hright : ∀ {m n}, v.places.pairs m n → w'.left.content? n = v.right.content? n := by
    intro m n hmn
    obtain ⟨_, y, _, hy, _⟩ := v.contents hmn
    rw [h.right] at hy ⊢
    exact hkept hy fun k hnk => (h.apart hnk m).2 hmn
  refine ⟨v.moved w'.left w'.left rfl hleft hright, rfl, rfl, h.first.mono hle.places, h.second, ?_⟩
  intro m n hmn k
  rcases hle.fresh hmn with hmn | ⟨hm, _⟩
  · exact h.apart hmn k
  · exact ⟨fun hmk => held_left (w := v) hmk (h.left ▸ hm),
      fun hkm => held_right (w := v) hkm (h.right ▸ hm)⟩

/-- A visit to the second context leaves alone what is compared of the first. -/
theorem afterSecond {v' : World} (hle : v ≤ v') (hsame : v'.right = v'.left) :
    ∃ w', w.Extends w' ∧ w'.left = v'.left ∧ w'.right = w.right ∧ World.Apart a b w' v' := by
  have hkept : ∀ {m n}, w.places.pairs m n → v'.left.content? m = w.left.content? m := by
    intro m n hmn
    obtain ⟨x, _, hx, _, _⟩ := w.contents hmn
    rw [hx]
    exact hle.left (h.left ▸ hx) fun k => (h.apart hmn k).1
  have hnatives : v'.left.natives = w.right.natives := by
    rw [hle.natives, h.left, w.natives]
  refine ⟨w.moved v'.left w.right hnatives hkept fun _ => rfl, ⟨le_refl _, .inl, ?_, id⟩, rfl, rfl,
    rfl, hsame, h.first, h.second.mono hle.places, ?_⟩
  · intro m hm
    exact h.left ▸ hle.free_left hm
  · intro m n hmn k
    have hm : w.left.content? m ≠ none := held_left hmn
    constructor
    · intro hmk
      rcases hle.fresh hmk with hmk | ⟨hfree, _⟩
      · exact (h.apart hmn k).1 hmk
      · exact hm (h.left ▸ hfree)
    · intro hkm
      rcases hle.fresh hkm with hkm | ⟨_, hfree⟩
      · exact (h.apart hmn k).2 hkm
      · exact hm (h.right ▸ hfree)

variable {host : Host} (hhost : host.ActsOnArguments) {visit : Visit}
  (hplain : visit.program.Plain)

include hhost hplain

/-- A visit to the first context is paid in both stores. -/
theorem attendFirst (hfirst : visit.first = true) :
    ∃ w' v', World.Apart a b w' v' ∧ w ≤ w' ∧ w'.left = (host.attend a b visit w.left).store ∧
      w'.right = (host.attend a b visit w.right).store ∧
      Related w'.places (host.attend a b visit w.left).result
        (host.attend a b visit w.right).result := by
  have hattend : host.attend a b visit = host.run visit.fuel visit.program a := by
    funext s
    rw [Host.attend, hfirst, if_pos rfl]
  have hmirrors := Host.run_mirrors hhost visit.fuel hplain h.first
  rw [← hattend] at hmirrors
  obtain ⟨w', hle, hleft, hright, hresult⟩ := (hmirrors w (le_refl _)).exists_later
  obtain ⟨v', h'⟩ := h.afterFirst hle
  exact ⟨w', v', h', hle, hleft, hright, hresult⟩

/-- A visit to the second context is paid in one store only. -/
theorem attendSecond (hfirst : visit.first = false) :
    ∃ w' v', World.Apart a b w' v' ∧ w.Extends w' ∧
      w'.left = (host.attend a b visit w.left).store ∧ w'.right = w.right := by
  have hattend : host.attend a b visit = host.run visit.fuel visit.program b := by
    funext s
    rw [Host.attend, hfirst]
    rfl
  have hmirrors := Host.run_mirrors hhost visit.fuel hplain h.second
  rw [← hattend] at hmirrors
  obtain ⟨v', hle, hleft, hright, _⟩ := (hmirrors v (le_refl _)).exists_later
  rw [h.left] at hleft
  rw [h.right] at hright
  obtain ⟨w', hextends, hleft', hright', h'⟩ := h.afterSecond hle (hright.trans hleft.symm)
  exact ⟨w', v', h', hextends, hleft'.trans hleft, hright'⟩

end World.Apart

theorem Account.same_of_later (visit : Visit) {c : Context} {w w₁ w' : World}
    {x y : Outcome Value} (hle : w ≤ w₁) (hc : Related w₁.places c c) (hx : w₁.left = x.store)
    (hy : w₁.right = y.store) (hresult : Related w₁.places x.result y.result)
    (hextends : w₁.Extends w') :
    Account.Same w'.places c ⟨visit, w.left, x⟩ ⟨visit, w.right, y⟩ where
  visit := rfl
  result := hresult.mono hextends.places
  lines := hx ▸ hy ▸ hle.output
  state := hx ▸ hy ▸ hextends.sameState hc

/-- Visits to the first context are the same without the visits to the second. -/
theorem Host.exists_mirrored {host : Host} (hhost : host.ActsOnArguments) {a b : Context}
    {visits : List Visit} (hplain : ∀ visit ∈ visits, visit.program.Plain) {w v : World}
    (hworlds : World.Apart a b w v) :
    ∃ w', w.Extends w' ∧ w'.left = host.afterVisits a b visits w.left ∧
      w'.right = host.afterVisits a b (visits.filter (·.first)) w.right ∧ Related w'.places a a ∧
      List.Forall₂ (Account.Same w'.places a)
        ((host.accounts a b visits w.left).filter (·.visit.first))
        (host.accounts a b (visits.filter (·.first)) w.right) := by
  induction visits generalizing w v with
  | nil => exact ⟨w, .refl w, rfl, rfl, hworlds.first, .nil⟩
  | cons visit visits ih =>
      have hvisit := hplain visit List.mem_cons_self
      replace ih := @ih fun other hother => hplain other (List.mem_cons_of_mem visit hother)
      cases hfirst : visit.first with
      | true =>
          obtain ⟨w₁, v₁, hworlds₁, hle, hx, hy, hresult⟩ :=
            hworlds.attendFirst hhost hvisit hfirst
          obtain ⟨w', hextends, hleft, hright, ha, haccounts⟩ := ih hworlds₁
          have hsame := Account.same_of_later visit hle hworlds₁.first hx hy hresult hextends
          rw [hx] at hleft haccounts
          rw [hy] at hright haccounts
          refine ⟨w', (World.Extends.of_le hle).trans hextends, hleft, ?_, ha, ?_⟩
          · simp only [hright, List.filter_cons, hfirst, ↓reduceIte]
            rfl
          · simp only [List.filter_cons, Host.accounts, hfirst, ↓reduceIte]
            exact .cons hsame haccounts
      | false =>
          obtain ⟨w₁, v₁, hworlds₁, hextends₁, hx, hy⟩ := hworlds.attendSecond hhost hvisit hfirst
          obtain ⟨w', hextends, hleft, hright, ha, haccounts⟩ := ih hworlds₁
          rw [hx] at hleft haccounts
          rw [hy] at hright haccounts
          refine ⟨w', hextends₁.trans hextends, hleft, ?_, ha, ?_⟩
          · simp only [hright, List.filter_cons, hfirst, Bool.false_eq_true, ↓reduceIte]
          · simp only [List.filter_cons, Host.accounts, hfirst, Bool.false_eq_true, ↓reduceIte]
            exact haccounts

/-- Runs in separate contexts do not interfere. Among visits to two contexts from which nothing
common can be reached, those to the first have the same results, print the same lines and leave the
same state as if there were none to the second; only what is made meanwhile may be at other
places. -/
theorem Host.visits_separate {host : Host} (hhost : host.ActsOnArguments) {s : Store} {a b : Context}
    (ha : s.Sound a) (hb : s.Sound b) (hseparate : s.Separate a b) {visits : List Visit}
    (hplain : ∀ visit ∈ visits, visit.program.Plain) :
    let alone := visits.filter (·.first)
    ∃ ρ : Renaming,
      (∀ node, s.Reaches a node → ρ.pairs node node) ∧
      (∀ m n, ρ.pairs m n →
        m = n ∧ s.Reaches a m ∨ s.content? m = none ∧ s.content? n = none) ∧
      List.Forall₂ (Account.Same ρ a) ((host.accounts a b visits s).filter (·.visit.first))
        (host.accounts a b alone s) ∧
      a.SameState ρ (host.afterVisits a b visits s) (host.afterVisits a b alone s) := by
  have hworlds : World.Apart a b (.own s a ha) (.own s b hb) := by
    refine ⟨rfl, rfl, World.own_context ha, World.own_context hb, ?_⟩
    rintro node _ ⟨rfl, hnode⟩ k
    constructor
    · rintro ⟨_, hk⟩
      exact hseparate node hnode hk
    · rintro ⟨rfl, hk⟩
      exact hseparate _ hnode hk
  obtain ⟨w, hextends, hleft, hright, hcontext, haccounts⟩ :=
    Host.exists_mirrored hhost hplain hworlds
  refine ⟨w.places, fun node hnode => hextends.places ⟨rfl, hnode⟩, fun m n => hextends.fresh,
    haccounts, ?_⟩
  have hstate := (World.Extends.refl w).sameState hcontext
  rw [hleft, hright] at hstate
  exact hstate

/-! ### Two contexts of host functions -/

/-- What is prepared for an engine without kept lists is plain. -/
theorem Store.prepare_plain (s : Store) (engine : Engine) (block : Block) :
    (s.prepare ⟨engine, false⟩ block).1.Plain := by
  cases engine with
  | interpreter => exact .tree block
  | compiler => exact .code block

/-- Only its scope can be reached from a context in which no variable refers to a place. -/
theorem Store.Reaches.eq_scope {s : Store} {frame : FrameRef} {node : Node}
    (hvalues : ∀ value ∈ (s.frame frame).bindings.map (·.2), value.node? = none)
    (hnode : s.Reaches ⟨frame, []⟩ node) : node = .frame frame := by
  induction hnode with
  | scope hframe =>
      rcases List.mem_cons.mp hframe with rfl | hframe
      · rfl
      · cases hframe
  | next _ hcontent hother ih =>
      subst ih
      obtain ⟨held, hheld, rfl⟩ := Option.map_eq_some_iff.mp hcontent
      cases hother with
      | «variable» hbound hsome =>
          rw [Store.frame, hheld] at hvalues
          rw [hvalues _ (List.mem_map_of_mem hbound)] at hsome
          cases hsome

/-- Such a context is sound if its scope is there. -/
theorem Store.sound_of_values {s : Store} {frame : FrameRef} (hframe : frame.index < s.frames.size)
    (hvalues : ∀ value ∈ (s.frame frame).bindings.map (·.2), value.node? = none) :
    s.Sound ⟨frame, []⟩ where
  held hnode := by
    rw [hnode.eq_scope hvalues]
    simp [Store.content?, hframe]
  plain hnode := by
    cases hnode.eq_scope hvalues

/-- Makes a list that a function changes, a function, a table and a global variable, and prints. -/
def guestProgram : Block :=
  [.assign (.name "xs") (.set (.list [.number 1])),
    .function (some "grow") ["x"]
      [.assign (.index (.name "xs") (.number 0)) (.addTo (.name "x")),
        .global "t" (.table [.named "xs" (.name "xs")])],
    .access (.name "grow") [.call [.number 2]],
    .access (.name "print") [.call [.name "xs", .name "grow"]],
    .name "t"]

/-- The same compiled program in both contexts, and its tree in between. -/
def guestVisits : List Visit :=
  let compiled := (Store.empty.prepare ⟨.compiler, false⟩ guestProgram).1
  let tree := (Store.empty.prepare ⟨.interpreter, false⟩ guestProgram).1
  [⟨false, compiled, 9⟩, ⟨true, compiled, 9⟩, ⟨false, tree, 9⟩, ⟨true, tree, 9⟩]

theorem Host.visits_separate_guestVisits :
    let s := ((Store.empty.newContextWith Native.all).2.newContextWith Native.all).2
    let a : Context := ⟨⟨0⟩, []⟩
    let b : Context := ⟨⟨1⟩, []⟩
    let alone := guestVisits.filter (·.first)
    standard.ActsOnArguments ∧ s.Sound a ∧ s.Sound b ∧ s.Separate a b ∧
      (∀ visit ∈ guestVisits, visit.program.Plain) ∧
      ∃ ρ : Renaming,
        (∀ node, s.Reaches a node → ρ.pairs node node) ∧
        (∀ m n, ρ.pairs m n →
          m = n ∧ s.Reaches a m ∨ s.content? m = none ∧ s.content? n = none) ∧
        List.Forall₂ (Account.Same ρ a)
          ((standard.accounts a b guestVisits s).filter (·.visit.first))
          (standard.accounts a b alone s) ∧
        a.SameState ρ (standard.afterVisits a b guestVisits s) (standard.afterVisits a b alone s) := by
  intro s a b alone
  have hvalues : ∀ value ∈ (s.frame ⟨0⟩).bindings.map (·.2), value.node? = none := by
    decide +kernel
  have hvalues' : ∀ value ∈ (s.frame ⟨1⟩).bindings.map (·.2), value.node? = none := by
    decide +kernel
  have ha : s.Sound a := Store.sound_of_values (by decide +kernel) hvalues
  have hb : s.Sound b := Store.sound_of_values (by decide +kernel) hvalues'
  have hseparate : s.Separate a b := by
    intro node hnode hnode'
    cases (hnode.eq_scope hvalues).symm.trans (hnode'.eq_scope hvalues')
  have hplain : ∀ visit ∈ guestVisits, visit.program.Plain := by
    simp only [guestVisits, List.forall_mem_cons]
    exact ⟨Store.prepare_plain _ _ _, Store.prepare_plain _ _ _, Store.prepare_plain _ _ _,
      Store.prepare_plain _ _ _, fun _ h => absurd h List.not_mem_nil⟩
  exact ⟨standard_actsOnArguments, ha, hb, hseparate, hplain,
    visits_separate standard_actsOnArguments ha hb hseparate hplain⟩

end TableScript
