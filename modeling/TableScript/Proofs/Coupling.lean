import TableScript.Eval.Call

/-!
Two evaluations side by side. A coupling relates the stores of the two; evaluations are coupled if
they take related stores to the same value or the same halt, and to related stores again. The
invariants of a single evaluation are the case in which the two stores are one.
-/

namespace TableScript

variable {α β : Type}

/-- How an evaluation ends: with a value or a halt, and with a store. -/
abbrev Outcome (α : Type) := EStateM.Result Halt Store α

namespace Outcome

def result : Outcome α → Except Halt α
  | .ok a _ => .ok a
  | .error halt _ => .error halt

/-- The store that is left. -/
def store : Outcome α → Store
  | .ok _ s => s
  | .error _ s => s

end Outcome

/-- Which stores belong together, which halts may happen, and which scopes may get new names other
than by a `global` assignment. -/
structure Coupling where
  rel : Store → Store → Prop
  halts : Halt → Prop
  growable : FrameRef → Prop := fun _ => True

namespace Coupling

/-- The coupling of a store with itself, as long as it satisfies an invariant. -/
def diagonal (invariant : Store → Prop) (halts : Halt → Prop) : Coupling :=
  { rel := fun s t => s = t ∧ invariant s, halts := halts }

/-- One coupling says at least as much as another. -/
structure Implies (K K' : Coupling) : Prop where
  rel : ∀ {s t}, K.rel s t → K'.rel s t
  halts : ∀ {halt}, K.halts halt → K'.halts halt

theorem Implies.refl (K : Coupling) : K.Implies K :=
  ⟨id, id⟩

/-- Two outcomes are the same but for their stores, which are related. -/
def Agree (K : Coupling) : Outcome α → Outcome α → Prop
  | .ok a s, .ok b t => a = b ∧ K.rel s t
  | .error e s, .error f t => e = f ∧ K.halts e ∧ K.rel s t
  | _, _ => False

theorem agree_iff {K : Coupling} {x y : Outcome α} :
    K.Agree x y ↔
      x.result = y.result ∧ (∀ halt, x.result = .error halt → K.halts halt) ∧
        K.rel x.store y.store := by
  cases x <;> cases y <;> simp [Agree, Outcome.result, Outcome.store]

theorem Agree.cases {K : Coupling} {x y : Outcome α} (hagree : K.Agree x y) :
    (∃ a s t, x = .ok a s ∧ y = .ok a t ∧ K.rel s t) ∨
      ∃ halt s t, x = .error halt s ∧ y = .error halt t ∧ K.halts halt ∧ K.rel s t := by
  cases x with
  | ok a s =>
      cases y with
      | ok b t =>
          obtain ⟨rfl, hrel⟩ := hagree
          exact .inl ⟨a, s, t, rfl, rfl, hrel⟩
      | error _ _ => exact hagree.elim
  | error halt s =>
      cases y with
      | ok _ _ => exact hagree.elim
      | error halt' t =>
          obtain ⟨rfl, hhalts, hrel⟩ := hagree
          exact .inr ⟨halt, s, t, rfl, rfl, hhalts, hrel⟩

theorem Agree.mono {K K' : Coupling} (himplies : K.Implies K') {x y : Outcome α}
    (hagree : K.Agree x y) : K'.Agree x y := by
  obtain ⟨hresult, hhalts, hrel⟩ := agree_iff.mp hagree
  exact agree_iff.mpr ⟨hresult, fun halt hx => himplies.halts (hhalts halt hx), himplies.rel hrel⟩

end Coupling

namespace Eval

/-- Started in stores that `K` relates, the two evaluations have outcomes that agree in `K'`. -/
def Coupled (K K' : Coupling) (x y : Eval α) : Prop :=
  ∀ s t, K.rel s t → K'.Agree (x s) (y t)

theorem bind_apply (x : Eval α) (f : α → Eval β) (s : Store) :
    (x >>= f) s = match x s with
      | .ok a s' => f a s'
      | .error e s' => .error e s' := by
  change EStateM.bind x f s = _
  rw [EStateM.bind]
  cases x s <;> rfl

theorem tryCatch_apply (x : Eval α) (handle : Halt → Eval α) (s : Store) :
    (tryCatch x handle : Eval α) s = match x s with
      | .ok a s' => .ok a s'
      | .error e s' => handle e s' := by
  change EStateM.tryCatch x handle s = _
  delta EStateM.tryCatch
  cases x s <;> rfl

theorem get_bind_apply (f : Store → Eval β) (s : Store) : ((get : Eval Store) >>= f) s = f s s :=
  rfl

namespace Coupled

variable {K K' K'' : Coupling} {x y : Eval α} {f g : α → Eval β}

/-- What is known of the values of the first part may be used for the second. Outcomes of the first
parts that halt are outcomes of the whole, hence the implication. -/
theorem bindKnowing (himplies : K'.Implies K'') (hxy : Coupled K K' x y) (known : α → Prop)
    (hknown : ∀ s a t, x s = .ok a t → known a)
    (hfg : ∀ a, known a → Coupled K' K'' (f a) (g a)) : Coupled K K'' (x >>= f) (y >>= g) := by
  intro s t hst
  rw [bind_apply, bind_apply]
  rcases (hxy s t hst).cases with ⟨a, s', t', hx, hy, hrel⟩ | ⟨halt, s', t', hx, hy, hhalts, hrel⟩
  · rw [hx, hy]
    exact hfg a (hknown s a s' hx) s' t' hrel
  · rw [hx, hy]
    exact ⟨rfl, himplies.halts hhalts, himplies.rel hrel⟩

theorem bindThen (himplies : K'.Implies K'') (hxy : Coupled K K' x y)
    (hfg : ∀ a, Coupled K' K'' (f a) (g a)) : Coupled K K'' (x >>= f) (y >>= g) :=
  bindKnowing himplies hxy (fun _ => True) (fun _ _ _ _ => trivial) fun a _ => hfg a

theorem bind (hxy : Coupled K K' x y) (hfg : ∀ a, Coupled K' K' (f a) (g a)) :
    Coupled K K' (x >>= f) (y >>= g) :=
  bindThen (.refl K') hxy hfg

theorem pure (a : α) : Coupled K K (Pure.pure a) (Pure.pure a) :=
  fun _ _ hst => ⟨rfl, hst⟩

theorem throw {halt : Halt} (hhalts : K.halts halt) :
    Coupled K K (MonadExcept.throw halt : Eval α) (MonadExcept.throw halt) :=
  fun _ _ hst => ⟨rfl, hhalts, hst⟩

/-- Reading something of the store that is the same on both sides. -/
theorem reading (read : Store → β) {f g : β → Eval α}
    (hread : ∀ s t, K.rel s t → read s = read t)
    (hfg : ∀ b, (∃ s, read s = b) → Coupled K K' (f b) (g b)) :
    Coupled K K' ((get : Eval Store) >>= fun s => f (read s))
      ((get : Eval Store) >>= fun s => g (read s)) := by
  intro s t hst
  rw [get_bind_apply, get_bind_apply, hread s t hst]
  exact hfg (read t) ⟨t, rfl⟩ s t hst

theorem changing {f g : Store → Store} (hfg : ∀ s t, K.rel s t → K'.rel (f s) (g t)) :
    Coupled K K' (modify f : Eval PUnit) (modify g) :=
  fun s t hst => ⟨rfl, hfg s t hst⟩

theorem making {f g : Store → α × Store}
    (hfg : ∀ s t, K.rel s t → (f s).1 = (g t).1 ∧ K'.rel (f s).2 (g t).2) :
    Coupled K K' (modifyGet f : Eval α) (modifyGet g) := by
  intro s t hst
  exact hfg s t hst

theorem ofExcept {result : Except Fault α}
    (hfaults : ∀ fault, result = .error fault → K.halts (.fault fault)) :
    Coupled K K (Eval.ofExcept result) (Eval.ofExcept result) := by
  cases result with
  | ok a => exact pure a
  | error fault => exact throw (hfaults fault rfl)

/-- Handling the halts of evaluations, which are the same on both sides. -/
theorem catching {handle handle' : Halt → Eval α} (hxy : Coupled K K x y)
    (hhandle : ∀ halt, Coupled K K (handle halt) (handle' halt)) :
    Coupled K K (tryCatch x handle) (tryCatch y handle') := by
  intro s t hst
  rw [tryCatch_apply, tryCatch_apply]
  rcases (hxy s t hst).cases with ⟨a, s', t', hx, hy, hrel⟩ | ⟨halt, s', t', hx, hy, -, hrel⟩
  · rw [hx, hy]
    exact ⟨rfl, hrel⟩
  · rw [hx, hy]
    exact hhandle halt s' t' hrel

/-- A statement, and then the statements after it unless it ends on a signal. -/
theorem sequence {x y : Eval Ending} {rest rest' : Value → Eval Ending} (hxy : Coupled K K x y)
    (hrest : ∀ value, Coupled K K (rest value) (rest' value)) :
    Coupled K K
      (x >>= fun ending =>
        if ending.2 = .none then rest ending.1 else Pure.pure (ending.1, ending.2))
      (y >>= fun ending =>
        if ending.2 = .none then rest' ending.1 else Pure.pure (ending.1, ending.2)) := by
  refine hxy.bind fun ending => ?_
  by_cases hnone : ending.2 = .none
  · simp only [hnone, ↓reduceIte]
    exact hrest ending.1
  · simp only [hnone, ↓reduceIte]
    exact pure _

theorem ite {condition : Bool} {x' y' : Eval α} (hthen : Coupled K K' x x')
    (helse : Coupled K K' y y') :
    Coupled K K' (if condition then x else y) (if condition then x' else y') := by
  cases condition
  · exact helse
  · exact hthen

end Coupled

end Eval

end TableScript
