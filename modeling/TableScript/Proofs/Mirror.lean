import TableScript.Proofs.Coupling
import TableScript.Proofs.LaterWorlds

/-!
Evaluations that mirror each other: in whatever later world they are started, they lead to the same
halt or to related values, and to a later world again. Relations between values hold on in later
worlds, so the parts of an evaluation can be looked at one after the other.
-/

namespace TableScript

variable {α β : Type} [Renamable α] [Renamable β] {ρ σ : Renaming}

/-- Two outcomes are the same up to the renaming of a later world, whose stores they leave. -/
inductive World.Agree (w : World) : Outcome α → Outcome α → Prop where
  | ok {w' : World} {a b : α} (hle : w ≤ w') (h : Related w'.places a b) :
      Agree w (.ok a w'.left) (.ok b w'.right)
  | error {w' : World} (hle : w ≤ w') (halt : Halt) :
      Agree w (.error halt w'.left) (.error halt w'.right)

namespace Eval

/-- The two evaluations are the same up to renaming in every world that knows certain pairs. -/
def Mirrors (ρ : Renaming) (x y : Eval α) : Prop :=
  ∀ w : World, ρ ≤ w.places → w.Agree (x w.left) (y w.right)

namespace Mirrors

variable {x y : Eval α} {f g : α → Eval β}

theorem mono (h : Mirrors ρ x y) (hle : ρ ≤ σ) : Mirrors σ x y :=
  fun w hw => h w (le_trans hle hw)

theorem pure {a b : α} (hab : Related ρ a b) : Mirrors ρ (Pure.pure a) (Pure.pure b) :=
  fun w hw => .ok (le_refl w) (hab.mono hw)

theorem throw (halt : Halt) : Mirrors ρ (MonadExcept.throw halt : Eval α) (MonadExcept.throw halt) :=
  fun w _ => .error (le_refl w) halt

theorem bind (hxy : Mirrors ρ x y)
    (hfg : ∀ {σ a b}, ρ ≤ σ → Related σ a b → Mirrors σ (f a) (g b)) :
    Mirrors ρ (x >>= f) (y >>= g) := by
  intro w hw
  have hagree := hxy w hw
  rw [bind_apply, bind_apply]
  generalize x w.left = o, y w.right = o' at hagree ⊢
  cases hagree with
  | error hle halt => exact .error hle halt
  | @ok w' a b hle hab =>
      have hrest := hfg (le_trans hw hle.places) hab w' (le_refl _)
      dsimp only
      generalize f a w'.left = o, g b w'.right = o' at hrest ⊢
      cases hrest with
      | error hle' halt => exact .error (le_trans hle hle') halt
      | ok hle' hresult => exact .ok (le_trans hle hle') hresult

theorem ofExcept {r r' : Except Fault α} (h : Related ρ r r') :
    Mirrors ρ (Eval.ofExcept r) (Eval.ofExcept r') := by
  cases h with
  | ok hab => exact pure hab
  | error fault => exact throw _

/-- Reading related things from the two stores, and going on with them. -/
theorem reading (read read' : Store → α)
    (hread : ∀ w : World, ρ ≤ w.places → Related w.places (read w.left) (read' w.right))
    (hfg : ∀ {σ a b}, ρ ≤ σ → Related σ a b → Mirrors σ (f a) (g b)) :
    Mirrors ρ ((get : Eval Store) >>= fun s => f (read s))
      ((get : Eval Store) >>= fun s => g (read' s)) := by
  intro w hw
  rw [get_bind_apply, get_bind_apply]
  exact hfg hw (hread w hw) w (le_refl _)

theorem changing {change change' : Store → Store}
    (h : ∀ w : World, ρ ≤ w.places →
      ∃ w', w ≤ w' ∧ w'.left = change w.left ∧ w'.right = change' w.right) :
    Mirrors ρ (modify change : Eval PUnit) (modify change') := by
  intro w hw
  obtain ⟨w', hle, hleft, hright⟩ := h w hw
  change w.Agree (.ok PUnit.unit (change w.left)) (.ok PUnit.unit (change' w.right))
  rw [← hleft, ← hright]
  exact .ok hle rfl

theorem making {make make' : Store → α × Store}
    (h : ∀ w : World, ρ ≤ w.places →
      ∃ w', w ≤ w' ∧ w'.left = (make w.left).2 ∧ w'.right = (make' w.right).2 ∧
        Related w'.places (make w.left).1 (make' w.right).1) :
    Mirrors ρ (modifyGet make : Eval α) (modifyGet make') := by
  intro w hw
  obtain ⟨w', hle, hleft, hright, hmade⟩ := h w hw
  change w.Agree (.ok (make w.left).1 (make w.left).2) (.ok (make' w.right).1 (make' w.right).2)
  rw [← hleft, ← hright]
  exact .ok hle hmade

theorem ite {condition : Bool} {x' y' : Eval α} (hthen : Mirrors ρ x x') (helse : Mirrors ρ y y') :
    Mirrors ρ (if condition then x else y) (if condition then x' else y') := by
  cases condition
  · exact helse
  · exact hthen

/-- Branching on whether related values hold. -/
theorem iteTruthy {v v' : Value} (hv : Related ρ v v') {x' y' : Eval α} (hthen : Mirrors ρ x x')
    (helse : Mirrors ρ y y') :
    Mirrors ρ (if v.truthy then x else y) (if v'.truthy then x' else y') := by
  rw [Value.Renamed.truthy_eq hv]
  exact ite hthen helse

/-- A statement, and then the statements after it unless it ends on a signal. -/
theorem sequence {x y : Eval Ending} {rest rest' : Value → Eval Ending} (hxy : Mirrors ρ x y)
    (hrest : ∀ {σ v v'}, ρ ≤ σ → Related σ v v' → Mirrors σ (rest v) (rest' v')) :
    Mirrors ρ
      (x >>= fun ending =>
        if ending.2 = .none then rest ending.1 else Pure.pure (ending.1, ending.2))
      (y >>= fun ending =>
        if ending.2 = .none then rest' ending.1 else Pure.pure (ending.1, ending.2)) := by
  refine hxy.bind fun {σ ending ending'} hle hending => ?_
  have hsignal : ending.2 = ending'.2 := hending.2
  rw [hsignal]
  by_cases hnone : ending'.2 = .none
  · simp only [hnone, ↓reduceIte]
    exact hrest hle hending.1
  · simp only [hnone, ↓reduceIte]
    exact pure ⟨hending.1, rfl⟩

/-! ### Operations -/

variable {c d : Context} {v v' : Value}

theorem newList {values values' : List Value} (hvalues : Related ρ values values') :
    Mirrors ρ (Eval.newList values) (Eval.newList values') := by
  apply making
  intro w hw
  have hcontent : Related w.places values.toArray values'.toArray := hvalues.mono hw
  obtain ⟨w', hle, hleft, hright, hpair⟩ := w.exists_made (by simp [Store.content?, Store.newList])
    (by simp [Store.content?, Store.newList]) (w.left.newList_becomes values.toArray)
    (w.right.newList_becomes values'.toArray) (.list hcontent)
  exact ⟨w', hle, hleft, hright, .list hpair⟩

theorem newTable {table table' : Table} (htable : Related ρ table table') :
    Mirrors ρ (Eval.newTable table) (Eval.newTable table') := by
  apply making
  intro w hw
  obtain ⟨w', hle, hleft, hright, hpair⟩ := w.exists_made (by simp [Store.content?, Store.newTable])
    (by simp [Store.content?, Store.newTable]) (w.left.newTable_becomes table)
    (w.right.newTable_becomes table') (.table (htable.mono hw))
  exact ⟨w', hle, hleft, hright, .table hpair⟩

/-- A scope for the variables of a call. -/
theorem enter (hc : Related ρ c d) :
    Mirrors ρ (modifyGet (·.enter c) : Eval Context) (modifyGet (·.enter d)) := by
  apply making
  intro w hw
  obtain ⟨w', hle, hleft, hright, hpair⟩ := w.exists_made (by simp [Store.content?, Store.newFrame])
    (by simp [Store.content?, Store.newFrame]) (w.left.newFrame_becomes .empty)
    (w.right.newFrame_becomes .empty) (.frame .nil)
  exact ⟨w', hle, hleft, hright, Context.enter_related (hc.mono (le_trans hw hle.places)) hpair⟩

theorem setting (hc : Related ρ c d) (name : String) (hv : Related ρ v v') :
    Mirrors ρ (modify (·.set c name v) : Eval PUnit) (modify (·.set d name v')) := by
  apply changing
  intro w hw
  exact w.exists_modifyFrame (w.home_related (hc.mono hw) name)
    fun hframe => Frame.bind_related hframe name (hv.mono hw)

theorem store (hc : Related ρ c d) (name : String) (hv : Related ρ v v') :
    Mirrors ρ (Eval.store c name v) (Eval.store d name v') :=
  (setting hc name hv).bind fun hle _ => pure (hv.mono hle)

theorem storeGlobal (hc : Related ρ c d) (name : String) (hv : Related ρ v v') :
    Mirrors ρ (Eval.storeGlobal c name v) (Eval.storeGlobal d name v') := by
  refine Mirrors.bind (changing fun w hw => ?_) fun hle _ => pure (hv.mono hle)
  obtain ⟨w₁, hle₁, hleft₁, hright₁⟩ := w.exists_modifyFrame ((Context.root_related hc).mono hw)
    fun hframe => Frame.bind_related hframe name (hv.mono hw)
  obtain ⟨w₂, hle₂, hleft₂, hright₂⟩ := w₁.exists_recorded (.published c name) (.published d name)
  rw [hleft₁] at hleft₂
  rw [hright₁] at hright₂
  exact ⟨w₂, le_trans hle₁ hle₂, hleft₂, hright₂⟩

theorem newFunction {f g : Closure} (hfg : Related ρ f g) :
    Mirrors ρ (Eval.newFunction f) (Eval.newFunction g) := by
  unfold Eval.newFunction
  refine Mirrors.bind (making fun w hw => ?_) fun {σ v v'} hle hv => ?_
  · obtain ⟨w', hle, hleft, hright, hpair⟩ := w.exists_made
      (by simp [Store.content?, Store.newFunction]) (by simp [Store.content?, Store.newFunction])
      (w.left.newFunction_becomes f) (w.right.newFunction_becomes g) (.function (hfg.mono hw))
    exact ⟨w', hle, hleft, hright, .function hpair⟩
  · rw [show f.name = g.name from hfg.name]
    cases g.name with
    | none => exact pure hv
    | some name =>
        exact (setting (hfg.context.mono hle) name hv).bind fun hle' _ => pure (hv.mono hle')

theorem load (hc : Related ρ c d) (name : String) :
    Mirrors ρ (Eval.load c name) (Eval.load d name) :=
  reading _ _ (fun w hw => w.get_related (hc.mono hw) name) fun _ hvalue => pure hvalue

theorem index {container container' index index' : Value}
    (hcontainer : Related ρ container container') (hindex : Related ρ index index') :
    Mirrors ρ (Eval.index container index) (Eval.index container' index') :=
  reading _ _ (fun w hw => w.index_related (hcontainer.mono hw) (hindex.mono hw))
    fun _ hresult => ofExcept hresult

theorem member {container container' : Value} (hcontainer : Related ρ container container')
    (name : String) : Mirrors ρ (Eval.member container name) (Eval.member container' name) :=
  reading _ _ (fun w hw => w.member_related (hcontainer.mono hw) name)
    fun _ hresult => ofExcept hresult

theorem writing {place place' : Place} (hplace : Related ρ place place') (hv : Related ρ v v') :
    Mirrors ρ ((modify (·.write place v) : Eval PUnit) >>= fun _ => Pure.pure v)
      ((modify (·.write place' v') : Eval PUnit) >>= fun _ => Pure.pure v') := by
  refine Mirrors.bind (changing fun w hw => ?_) fun hle _ => pure (hv.mono hle)
  exact w.exists_written (hplace.mono hw) (hv.mono hw)

theorem storeIndex {container container' index index' : Value}
    (hcontainer : Related ρ container container') (hindex : Related ρ index index')
    (hv : Related ρ v v') :
    Mirrors ρ (Eval.storeIndex container index v) (Eval.storeIndex container' index' v') :=
  reading _ _ (fun w hw => w.place_related (hcontainer.mono hw) (hindex.mono hw)) fun hle hplace =>
    (ofExcept hplace).bind fun hle' hplace => writing hplace (hv.mono (le_trans hle hle'))

theorem storeMember {container container' : Value} (hcontainer : Related ρ container container')
    (name : String) (hv : Related ρ v v') :
    Mirrors ρ (Eval.storeMember container name v) (Eval.storeMember container' name v') :=
  (ofExcept (World.memberPlace_related hcontainer name)).bind fun hle hplace =>
    writing hplace (hv.mono hle)

theorem add {left left' right right' : Value} (hleft : Related ρ left left')
    (hright : Related ρ right right') : Mirrors ρ (Eval.add left right) (Eval.add left' right') := by
  have hprefix : ∀ text, Mirrors ρ (do return Value.string (text ++ (← get).text right))
      (do return Value.string (text ++ (← get).text right')) := fun text =>
    reading (fun s => Value.string (text ++ s.text right))
      (fun s => Value.string (text ++ s.text right'))
      (fun w hw => by rw [w.text_eq (hright.mono hw)]; exact .string _) fun _ hresult => pure hresult
  have hsuffix : ∀ text, Mirrors ρ (do return Value.string ((← get).text left ++ text))
      (do return Value.string ((← get).text left' ++ text)) := fun text =>
    reading (fun s => Value.string (s.text left ++ text))
      (fun s => Value.string (s.text left' ++ text))
      (fun w hw => by rw [w.text_eq (hleft.mono hw)]; exact .string _) fun _ hresult => pure hresult
  cases hleft with
  | string text => exact hprefix text
  | number x =>
      cases hright with
      | number y => exact pure (.number _)
      | string text => exact hsuffix text
      | _ => exact throw _
  | list h =>
      cases hright with
      | string text => exact hsuffix text
      | list h' =>
          refine reading (fun s => (s.list _).toList ++ (s.list _).toList) _ (fun w hw => ?_)
            fun _ hvalues => newList hvalues
          exact related_append (w.list_related (hw h)) (w.list_related (hw h'))
      | _ => exact throw _
  | _ =>
      cases hright with
      | string text => exact hsuffix text
      | _ => exact throw _

theorem addOp (op : AddOp) {left left' right right' : Value} (hleft : Related ρ left left')
    (hright : Related ρ right right') : Mirrors ρ (op.apply left right) (op.apply left' right') := by
  cases op with
  | add => exact add hleft hright
  | sub => exact ofExcept (subtract_related hleft hright)

/-! ### Loops -/

theorem bindItem (hc : Related ρ c d) (valueName : String) (keyName : Option String)
    {key key' : Value} (hv : Related ρ v v') (hkey : Related ρ key key') :
    Mirrors ρ (Loop.bindItem c valueName keyName v key)
      (Loop.bindItem d valueName keyName v' key') := by
  refine (setting hc valueName hv).bind fun hle _ => ?_
  cases keyName with
  | none => exact pure rfl
  | some keyName => exact setting (hc.mono hle) keyName (hkey.mono hle)

theorem bindCounter (hc : Related ρ c d) (name : String) (x : Float) :
    Mirrors ρ (Loop.bindCounter c name x) (Loop.bindCounter d name x) :=
  setting hc name (.number x)

theorem proceed {ending ending' : Ending} (hending : Related ρ ending ending')
    {next next' : Value → Eval Ending}
    (hnext : ∀ {v v'}, Related ρ v v' → Mirrors ρ (next v) (next' v')) :
    Mirrors ρ (Loop.proceed ending next) (Loop.proceed ending' next') := by
  unfold Loop.proceed
  rw [show ending.2 = ending'.2 from hending.2]
  cases ending'.2.loopStep with
  | next => exact hnext hending.1
  | exit => exact pure ⟨hending.1, rfl⟩
  | «return» => exact pure ⟨hending.1, rfl⟩

variable {condition condition' : Eval Value} {body body' : Eval Ending}

theorem whileTrue (hcondition : Mirrors ρ condition condition') (hbody : Mirrors ρ body body')
    (fuel : Nat) {last last' : Value} (hlast : Related ρ last last') :
    Mirrors ρ (Loop.whileTrue condition body fuel last)
      (Loop.whileTrue condition' body' fuel last') := by
  induction fuel generalizing ρ last last' with
  | zero => exact throw _
  | succ fuel ih =>
      refine hcondition.bind fun hle hvalue =>
        iteTruthy hvalue ?_ (pure ⟨hlast.mono hle, rfl⟩)
      refine (hbody.mono hle).bind fun hle' hending => proceed hending ?_
      exact ih (hcondition.mono (le_trans hle hle')) (hbody.mono (le_trans hle hle'))

theorem forever (hbody : Mirrors ρ body body') (fuel : Nat) :
    Mirrors ρ (Loop.forever body fuel) (Loop.forever body' fuel) := by
  induction fuel generalizing ρ with
  | zero => exact throw _
  | succ fuel ih =>
      exact hbody.bind fun hle hending => proceed hending fun _ => ih (hbody.mono hle)

theorem forItems {bind bind' : Value → Value → Eval Unit}
    (hbind : ∀ {σ v v' key key'}, ρ ≤ σ → Related σ v v' → Related σ key key' →
      Mirrors σ (bind v key) (bind' v' key'))
    (hbody : Mirrors ρ body body') {items items' : List (Value × Value)}
    (hitems : Related ρ items items') {last last' : Value} (hlast : Related ρ last last') :
    Mirrors ρ (Loop.forItems bind body items last) (Loop.forItems bind' body' items' last') := by
  induction items generalizing ρ items' last last' with
  | nil =>
      cases hitems
      exact pure ⟨hlast, rfl⟩
  | cons item items ih =>
      rcases hitems with _ | ⟨hitem, hrest⟩
      refine (hbind (le_refl ρ) hitem.1 hitem.2).bind fun hle _ => ?_
      refine (hbody.mono hle).bind fun hle' hending => proceed hending fun hlast => ?_
      have hle'' := le_trans hle hle'
      exact ih (fun hσ => hbind (le_trans hle'' hσ)) (hbody.mono hle'') (Renamable.mono hle'' hrest)
        hlast

theorem forRange {bind bind' : Float → Eval Unit} (hbind : ∀ x, Mirrors ρ (bind x) (bind' x))
    (hbody : Mirrors ρ body body') (fuel : Nat) (range : Range) {last last' : Value}
    (hlast : Related ρ last last') :
    Mirrors ρ (Loop.forRange bind body fuel range last)
      (Loop.forRange bind' body' fuel range last') := by
  induction fuel generalizing ρ range last last' with
  | zero => exact throw _
  | succ fuel ih =>
      unfold Loop.forRange
      cases range.next? with
      | none => exact pure ⟨hlast, rfl⟩
      | some step =>
          refine (hbind step.1).bind fun hle _ => ?_
          refine (hbody.mono hle).bind fun hle' hending => proceed hending fun hlast => ?_
          have hle'' := le_trans hle hle'
          exact ih (fun x => (hbind x).mono hle'') (hbody.mono hle'') step.2 hlast

end Mirrors

end Eval

end TableScript
