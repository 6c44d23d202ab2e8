import TypeAtlas.Error

/-! Runs of work that may fail and keeps a state. `Gives x s a s'` says that `x`, started in the state
`s`, has the value `a` and leaves the state `s'`, and `Fails x s e s'` that it ends in the error `e`; the
lemmas take such a run apart, one operation each. -/

namespace TypeAtlas

theorem bind_eq_ok {ε α β : Type} {x : Except ε α} {f : α → Except ε β} {b : β} :
    (x >>= f) = .ok b ↔ ∃ a, x = .ok a ∧ f a = .ok b := by
  cases x <;> simp [bind, Except.bind]

theorem mapError_eq_ok {ε ε' α : Type} {f : ε → ε'} {x : Except ε α} {a : α} : x.mapError f = .ok a ↔ x = .ok a := by
  cases x with
  | error e => exact iff_of_false nofun nofun
  | ok b =>
    change Except.ok b = Except.ok a ↔ _
    simp

theorem exists_ok_of_toOption {ε α β : Type} {x : Except ε α} {f : α → β} {b : β} (h : x.toOption.map f = some b) :
    ∃ a, x = .ok a ∧ f a = b := by
  cases x with
  | error e => cases h
  | ok a => exact ⟨a, rfl, Option.some.inj h⟩

/-- A run that succeeds, with its value and the state it leaves. -/
def Gives {σ α : Type} (x : ExceptT Error (StateM σ) α) (s : σ) (a : α) (s' : σ) : Prop :=
  (x.run.run s).run = (.ok a, s')

variable {σ α β : Type} {s s' : σ}

theorem gives_bind {x : ExceptT Error (StateM σ) α} {f : α → ExceptT Error (StateM σ) β} {b : β} :
    Gives (x >>= f) s b s' ↔ ∃ a s₁, Gives x s a s₁ ∧ Gives (f a) s₁ b s' := by
  unfold Gives
  simp only [ExceptT.run_bind, StateT.run_bind, Id.run_bind]
  rcases (x.run.run s).run with ⟨r, s₁⟩
  cases r with
  | error e => simp
  | ok a =>
    refine ⟨?_, ?_⟩
    · intro h
      exact ⟨a, s₁, rfl, h⟩
    · rintro ⟨a', s₂, h, h'⟩
      cases h
      exact h'

theorem gives_pure {a b : α} : Gives (pure a) s b s' ↔ a = b ∧ s = s' := by
  simp [Gives]

theorem gives_throw {e : Error} {b : α} : ¬ Gives (throw e) s b s' := by
  simp [Gives]

theorem gives_except {x : Except Error α} {a : α} :
    Gives (liftM x) s a s' ↔ x = .ok a ∧ s = s' := by
  change (x, s) = (.ok a, s') ↔ _
  simp

theorem gives_modify {f : σ → σ} {u : Unit} :
    Gives (modify f) s u s' ↔ f s = s' := by
  change ((Except.ok (), f s) : Except Error Unit × σ) = (.ok u, s') ↔ _
  simp

theorem gives_get {a : σ} : Gives get s a s' ↔ s = a ∧ s = s' := by
  change ((Except.ok s, s) : Except Error σ × σ) = (.ok a, s') ↔ _
  simp

theorem gives_lift {x : StateM σ α} {a : α} :
    Gives (ExceptT.lift x) s a s' ↔ (x.run s).run = (a, s') := by
  rcases h : (x.run s).run with ⟨b, s₁⟩
  simp [Gives, h]

theorem gives_mapM_nil {f : α → ExceptT Error (StateM σ) β} {bs : List β} :
    Gives ([].mapM f) s bs s' ↔ bs = [] ∧ s = s' := by
  rw [List.mapM_nil, gives_pure, eq_comm]

theorem gives_mapM_cons {f : α → ExceptT Error (StateM σ) β} {a : α} {as : List α} {bs : List β} :
    Gives ((a :: as).mapM f) s bs s' ↔
      ∃ b bs' s₁, Gives (f a) s b s₁ ∧ Gives (as.mapM f) s₁ bs' s' ∧ bs = b :: bs' := by
  simp only [List.mapM_cons, gives_bind, gives_pure]
  refine ⟨?_, ?_⟩
  · rintro ⟨b, s₁, hb, bs', s₂, hbs, rfl, rfl⟩
    exact ⟨b, bs', s₁, hb, hbs, rfl⟩
  · rintro ⟨b, bs', s₁, hb, hbs, rfl⟩
    exact ⟨b, s₁, hb, bs', s', hbs, rfl, rfl⟩

theorem gives_option_mapM {f : α → ExceptT Error (StateM σ) β} {a : Option α} {b : Option β} :
    Gives (a.mapM f) s b s' ↔
      (a = none ∧ b = none ∧ s = s') ∨ ∃ a' b', a = some a' ∧ b = some b' ∧ Gives (f a') s b' s' := by
  cases a with
  | none =>
    rw [Option.mapM_none, gives_pure]
    simp [eq_comm]
  | some a =>
    rw [Option.mapM_some, map_eq_pure_bind, gives_bind]
    simp only [gives_pure]
    refine ⟨?_, ?_⟩
    · rintro ⟨b', s₁, h, rfl, rfl⟩
      exact .inr ⟨a, b', rfl, rfl, h⟩
    · rintro (⟨h, -⟩ | ⟨a', b', h, rfl, h'⟩)
      · cases h
      · cases h
        exact ⟨b', s', h', rfl, rfl⟩

theorem Gives.unique {x : ExceptT Error (StateM σ) α} {a b : α} {s₁ s₂ : σ} (h₁ : Gives x s a s₁)
    (h₂ : Gives x s b s₂) : a = b ∧ s₁ = s₂ := by
  unfold Gives at h₁ h₂
  rw [h₁] at h₂
  cases h₂
  exact ⟨rfl, rfl⟩

/-- A run that fails, with its error and the state it leaves. -/
def Fails (x : ExceptT Error (StateM σ) α) (s : σ) (e : Error) (s' : σ) : Prop := (x.run.run s).run = (.error e, s')

theorem Fails.unique {x : ExceptT Error (StateM σ) α} {e e' : Error} {s₁ s₂ : σ} (h₁ : Fails x s e s₁)
    (h₂ : Fails x s e' s₂) : e = e' ∧ s₁ = s₂ := by
  unfold Fails at h₁ h₂
  rw [h₁] at h₂
  cases h₂
  exact ⟨rfl, rfl⟩

theorem Gives.not_fails {x : ExceptT Error (StateM σ) α} {a : α} {e : Error} {s₁ s₂ : σ} (h : Gives x s a s₁) :
    ¬ Fails x s e s₂ := by
  unfold Gives at h
  unfold Fails
  rw [h]
  nofun

theorem fails_bind {x : ExceptT Error (StateM σ) α} {f : α → ExceptT Error (StateM σ) β} {e : Error} :
    Fails (x >>= f) s e s' ↔ Fails x s e s' ∨ ∃ a s₁, Gives x s a s₁ ∧ Fails (f a) s₁ e s' := by
  unfold Gives Fails
  simp only [ExceptT.run_bind, StateT.run_bind, Id.run_bind]
  rcases (x.run.run s).run with ⟨r, s₁⟩
  cases r with
  | error e' => simp
  | ok a =>
    refine ⟨?_, ?_⟩
    · intro h
      exact .inr ⟨a, s₁, rfl, h⟩
    · rintro (h | ⟨a', s₂, h, h'⟩)
      · cases h
      · cases h
        exact h'

theorem fails_pure {a : α} {e : Error} : ¬ Fails (pure a) s e s' := by
  simp [Fails]

theorem fails_except {x : Except Error α} {e : Error} : Fails (liftM x) s e s' ↔ x = .error e ∧ s = s' := by
  change (x, s) = (.error e, s') ↔ _
  simp

theorem not_fails_modify {f : σ → σ} {e : Error} : ¬ Fails (modify f : ExceptT Error (StateM σ) Unit) s e s' := nofun

theorem gives_or_fails (x : ExceptT Error (StateM σ) α) (s : σ) :
    (∃ a s', Gives x s a s') ∨ ∃ e s', Fails x s e s' := by
  unfold Gives Fails
  rcases (x.run.run s).run with ⟨r, s'⟩
  cases r with
  | ok a => exact .inl ⟨a, s', rfl⟩
  | error e => exact .inr ⟨e, s', rfl⟩

/-! ### Two runs of the same work -/

/-- Whatever `x` gives from one state, `y` gives from every state, changed by `g`. -/
def CarriedBy (g : α → β) (x : ExceptT Error (StateM σ) α) (y : ExceptT Error (StateM σ) β) : Prop :=
  ∀ ⦃s a s'⦄, Gives x s a s' → ∀ s₁, ∃ s₁', Gives y s₁ (g a) s₁'

namespace CarriedBy

variable {g : α → β}

theorem of_pure (a : α) : CarriedBy g (pure a : ExceptT Error (StateM σ) α) (pure (g a)) := by
  intro s b s' h s₁
  obtain ⟨rfl, -⟩ := gives_pure.mp h
  exact ⟨s₁, gives_pure.mpr ⟨rfl, rfl⟩⟩

theorem of_except {x : Except Error α} {y : Except Error β} (h : ∀ a, x = .ok a → y = .ok (g a)) :
    CarriedBy g (liftM x : ExceptT Error (StateM σ) α) (liftM y) := by
  intro s a s' hx s₁
  exact ⟨s₁, gives_except.mpr ⟨h a (gives_except.mp hx).1, rfl⟩⟩

theorem of_modify (f f' : σ → σ) : CarriedBy id (modify f : ExceptT Error (StateM σ) Unit) (modify f') := by
  intro s a s' h s₁
  exact ⟨f' s₁, gives_modify.mpr rfl⟩

theorem bind {γ δ : Type} {k : γ → δ} {x : ExceptT Error (StateM σ) α} {y : ExceptT Error (StateM σ) β}
    {f : α → ExceptT Error (StateM σ) γ} {f' : β → ExceptT Error (StateM σ) δ} (hx : CarriedBy g x y)
    (hf : ∀ a, CarriedBy k (f a) (f' (g a))) : CarriedBy k (x >>= f) (y >>= f') := by
  intro s b s' h s₁
  obtain ⟨a, s₂, ha, hb⟩ := gives_bind.mp h
  obtain ⟨s₃, ha'⟩ := hx ha s₁
  obtain ⟨s₄, hb'⟩ := hf a hb s₃
  exact ⟨s₄, gives_bind.mpr ⟨g a, s₃, ha', hb'⟩⟩

end CarriedBy

/-- Whatever `x` gives from one state, `y` gives from every state. -/
def SustainedBy (x y : ExceptT Error (StateM σ) α) : Prop :=
  ∀ ⦃s a s'⦄, Gives x s a s' → ∀ s₁, ∃ s₁', Gives y s₁ a s₁'

namespace SustainedBy

theorem of_pure (a : α) : SustainedBy (pure a : ExceptT Error (StateM σ) α) (pure a) :=
  CarriedBy.of_pure (g := id) a

theorem of_throw (e : Error) (f : α → ExceptT Error (StateM σ) β) (y : ExceptT Error (StateM σ) β) :
    SustainedBy (throw e >>= f) y := by
  intro s b s' h
  obtain ⟨_, _, h, -⟩ := gives_bind.mp h
  exact absurd h gives_throw

theorem of_except (x : Except Error α) : SustainedBy (liftM x : ExceptT Error (StateM σ) α) (liftM x) :=
  CarriedBy.of_except (g := id) fun _ h => h

theorem of_modify (f : σ → σ) : SustainedBy (modify f : ExceptT Error (StateM σ) Unit) (modify f) :=
  CarriedBy.of_modify f f

theorem bind {x y : ExceptT Error (StateM σ) α} {f g : α → ExceptT Error (StateM σ) β} (hx : SustainedBy x y)
    (hf : ∀ a, SustainedBy (f a) (g a)) : SustainedBy (x >>= f) (y >>= g) :=
  CarriedBy.bind (g := id) (k := id) hx hf

theorem mapM {f g : α → ExceptT Error (StateM σ) β} (hf : ∀ a, SustainedBy (f a) (g a)) (as : List α) :
    SustainedBy (as.mapM f) (as.mapM g) := by
  induction as with
  | nil => exact of_pure []
  | cons a as ih =>
    rw [List.mapM_cons, List.mapM_cons]
    exact (hf a).bind fun b => ih.bind fun bs => of_pure (b :: bs)

theorem option_mapM {f g : α → ExceptT Error (StateM σ) β} (hf : ∀ a, SustainedBy (f a) (g a)) (a : Option α) :
    SustainedBy (a.mapM f) (a.mapM g) := by
  cases a with
  | none => exact of_pure none
  | some a =>
    rw [Option.mapM_some, Option.mapM_some, map_eq_pure_bind, map_eq_pure_bind]
    exact (hf a).bind fun b => of_pure (some b)

end SustainedBy
end TypeAtlas
