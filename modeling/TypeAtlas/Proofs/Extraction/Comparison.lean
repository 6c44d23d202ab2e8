import TypeAtlas.Proofs.Extraction.Mentions
import TypeAtlas.Proofs.Extraction.Resolved

/-! One signature resolved in two contexts. Where these give the same answer to every name but some, to which the second
one always has an answer, the two resolutions go side by side: they have data types of the same shape, or they fail
alike, or the first one fails of one of those names. -/

namespace TypeAtlas

open Extraction

namespace DataType

mutual

/-- The type without the names in it. -/
def skeleton : DataType → DataType
  | ⟨fullName, arrayCount, arguments, wildcard⟩ =>
    ⟨if wildcard = some .unbounded then fullName else "", arrayCount, skeletons arguments, wildcard⟩

def skeletons : List DataType → List DataType
  | [] => []
  | t :: ts => skeleton t :: skeletons ts

end

/-- An argument has the shape of its bound, with a wildcard. -/
theorem skeleton_withWildcard {t t' : DataType} {w : Option Wildcard} (plain : t.wildcard = none)
    (plain' : t'.wildcard = none) (hw : w ≠ some .unbounded) (h : t.skeleton = t'.skeleton) :
    skeleton { t with wildcard := w } = skeleton { t' with wildcard := w } := by
  obtain ⟨fullName, arrayCount, arguments, _⟩ := t
  obtain ⟨fullName', arrayCount', arguments', _⟩ := t'
  cases plain
  cases plain'
  simp only [skeleton, DataType.mk.injEq] at h ⊢
  simp [hw, h.2.1, h.2.2.1]

end DataType

/-- Pieces of work that both have values, related by `R`, or both fail of the same error, unless the error of the first
is excused; whatever states they start from. -/
def Beside {σ α β : Type} (excused : Error → Prop) (R : α → β → Prop) (x : ExceptT Error (StateM σ) α)
    (y : ExceptT Error (StateM σ) β) : Prop :=
  ∀ s s₁, (∃ a s' b s₁', Gives x s a s' ∧ Gives y s₁ b s₁' ∧ R a b) ∨
    ∃ e s', Fails x s e s' ∧ (excused e ∨ ∃ s₁', Fails y s₁ e s₁')

namespace Beside

variable {σ α β γ δ : Type} {excused : Error → Prop} {R : α → β → Prop} {Q : γ → δ → Prop}
  {x : ExceptT Error (StateM σ) α} {y : ExceptT Error (StateM σ) β}

theorem of_pure {a : α} {b : β} (h : R a b) :
    Beside excused R (pure a : ExceptT Error (StateM σ) α) (pure b) :=
  fun s s₁ => .inl ⟨a, s, b, s₁, gives_pure.mpr ⟨rfl, rfl⟩, gives_pure.mpr ⟨rfl, rfl⟩, h⟩

theorem of_throw (e : Error) : Beside excused R (throw e : ExceptT Error (StateM σ) α) (throw e) :=
  fun s s₁ => .inr ⟨e, s, rfl, .inr ⟨s₁, rfl⟩⟩

theorem of_modify (f g : σ → σ) :
    Beside excused (fun _ _ => True) (modify f : ExceptT Error (StateM σ) Unit) (modify g) :=
  fun s s₁ => .inl ⟨(), f s, (), g s₁, gives_modify.mpr rfl, gives_modify.mpr rfl, trivial⟩

theorem of_except {v : Except Error α} {w : Except Error β}
    (h : (∃ a b, v = .ok a ∧ w = .ok b ∧ R a b) ∨ ∃ e, v = .error e ∧ (excused e ∨ w = .error e)) :
    Beside excused R (liftM v : ExceptT Error (StateM σ) α) (liftM w) := by
  intro s s₁
  rcases h with ⟨a, b, hv, hw, related⟩ | ⟨e, hv, hw⟩
  · exact .inl ⟨a, s, b, s₁, gives_except.mpr ⟨hv, rfl⟩, gives_except.mpr ⟨hw, rfl⟩, related⟩
  · refine .inr ⟨e, s, fails_except.mpr ⟨hv, rfl⟩, hw.imp_right fun hw => ?_⟩
    exact ⟨s₁, fails_except.mpr ⟨hw, rfl⟩⟩

theorem mono {R' : α → β → Prop} (h : Beside excused R x y) (hr : ∀ a b, R a b → R' a b) : Beside excused R' x y := by
  intro s s₁
  refine (h s s₁).imp_left ?_
  rintro ⟨a, s', b, s₁', hx, hy, related⟩
  exact ⟨a, s', b, s₁', hx, hy, hr a b related⟩

theorem bind {f : α → ExceptT Error (StateM σ) γ} {g : β → ExceptT Error (StateM σ) δ} (h : Beside excused R x y)
    (hf : ∀ a b, R a b → Beside excused Q (f a) (g b)) : Beside excused Q (x >>= f) (y >>= g) := by
  intro s s₁
  rcases h s s₁ with ⟨a, s', b, s₁', hx, hy, related⟩ | ⟨e, s', hx, hy⟩
  · rcases hf a b related s' s₁' with ⟨c, t, d, t₁, hc, hd, related'⟩ | ⟨e, t, hc, hd⟩
    · exact .inl ⟨c, t, d, t₁, gives_bind.mpr ⟨a, s', hx, hc⟩, gives_bind.mpr ⟨b, s₁', hy, hd⟩, related'⟩
    · refine .inr ⟨e, t, fails_bind.mpr (.inr ⟨a, s', hx, hc⟩), hd.imp_right ?_⟩
      rintro ⟨t₁, hd⟩
      exact ⟨t₁, fails_bind.mpr (.inr ⟨b, s₁', hy, hd⟩)⟩
  · refine .inr ⟨e, s', fails_bind.mpr (.inl hx), hy.imp_right ?_⟩
    rintro ⟨s₁', hy⟩
    exact ⟨s₁', fails_bind.mpr (.inl hy)⟩

end Beside

namespace Resolution

variable {limit : Int} {ctx ctx' : Context} {excused : Error → Prop}

/-- Both contexts have the same answer to a name, or the second one has an answer and an error of the first one is
excused. -/
def Comparable (excused : Error → Prop) (ctx ctx' : Context) (w : String) : Prop :=
  ctx w = ctx' w ∨ (∃ answer, ctx' w = .ok answer) ∧ ∀ e, ctx w = .error e → excused e

abbrev SameShape (t t' : DataType) : Prop :=
  t.wildcard = none ∧ t'.wildcard = none ∧ t.skeleton = t'.skeleton

theorem beside_fullName {w : String} (h : Comparable excused ctx ctx' w) :
    Beside (σ := Session) excused (fun _ _ => True) (liftM (fullName ctx w)) (liftM (fullName ctx' w)) := by
  refine .of_except ?_
  cases hw : ctx w with
  | ok answer =>
    have some : ∃ answer', ctx' w = .ok answer' := h.elim (fun same => ⟨answer, same ▸ hw⟩) (·.1)
    exact .inl ⟨_, _, fullName_eq ⟨answer, hw⟩, fullName_eq some, trivial⟩
  | error e =>
    have fails {c : Context} (hc : c w = .error e) : fullName c w = .error e := by
      rw [fullName, hc]
      rfl
    rcases h with same | ⟨-, exempt⟩
    · exact .inr ⟨e, fails hw, .inr (fails (same ▸ hw))⟩
    · exact .inr ⟨e, fails hw, .inl (exempt e hw)⟩

theorem beside_enter {depth : Nat} {sig : Signature} (h : Comparable excused ctx ctx' sig.element.simpleName) :
    Beside excused (fun _ _ => True) (enter limit ctx depth sig) (enter limit ctx' depth sig) := by
  unfold enter
  by_cases deep : limit < depth
  · rw [if_pos deep, if_pos deep]
    exact .of_throw _
  · rw [if_neg deep, if_neg deep]
    refine (beside_fullName h).bind fun _ _ _ => ?_
    exact (Beside.of_modify _ _).bind fun _ _ _ => .of_pure trivial

mutual

theorem beside_resolveType (depth : Nat) : (t : Signature.TypeSig) →
    (∀ u ∈ t.nodes, Comparable excused ctx ctx' u.written) →
    Beside excused SameShape (resolveType limit ctx depth t) (resolveType limit ctx' depth t)
  | .primitive n p, h => (beside_enter (h _ List.mem_cons_self)).bind fun _ _ _ => .of_pure ⟨rfl, rfl, rfl⟩
  | .typeVariable n x, h => (beside_enter (h _ List.mem_cons_self)).bind fun _ _ _ => .of_pure ⟨rfl, rfl, rfl⟩
  | .reference n origin path, h => by
    refine (beside_enter (h _ List.mem_cons_self)).bind fun _ _ _ => ?_
    refine (beside_resolvePath depth path fun u hu => h u (List.mem_cons_of_mem _ hu)).bind fun as bs same => ?_
    exact .of_pure ⟨rfl, rfl, by rw [DataType.skeleton, DataType.skeleton, same]; rfl⟩

theorem beside_resolvePath (depth : Nat) : (path : Signature.ClassPath) →
    (∀ u ∈ path.nodes, Comparable excused ctx ctx' u.written) →
    Beside excused (fun as bs => DataType.skeletons as = DataType.skeletons bs) (resolvePath limit ctx depth path)
      (resolvePath limit ctx' depth path)
  | .last _ as, h => beside_resolveArguments depth as h
  | .outer _ _ inner, h => beside_resolvePath depth inner h

theorem beside_resolveArguments (depth : Nat) : (as : List Signature.Argument) →
    (∀ u ∈ Signature.nodesOfArguments as, Comparable excused ctx ctx' u.written) →
    Beside excused (fun as bs => DataType.skeletons as = DataType.skeletons bs) (resolveArguments limit ctx depth as)
      (resolveArguments limit ctx' depth as)
  | [], _ => .of_pure rfl
  | a :: as, h => by
    rw [Signature.nodesOfArguments] at h
    refine (beside_resolveArgument depth a fun u hu => h u (List.mem_append_left _ hu)).bind fun t t' same => ?_
    refine (beside_resolveArguments depth as fun u hu => h u (List.mem_append_right _ hu)).bind fun ts ts' rest => ?_
    exact .of_pure (by rw [DataType.skeletons, DataType.skeletons, same, rest])

theorem beside_resolveArgument (depth : Nat) : (a : Signature.Argument) →
    (∀ u ∈ a.nodes, Comparable excused ctx ctx' u.written) →
    Beside excused (fun t t' => t.skeleton = t'.skeleton) (resolveArgument limit ctx depth a)
      (resolveArgument limit ctx' depth a)
  | .unbounded, _ => .of_pure rfl
  | .exactly t, h => (beside_resolveType (depth + 1) t h).mono fun _ _ same => same.2.2
  | .upper t, h => (beside_resolveType (depth + 1) t h).bind fun _ _ same =>
      .of_pure (DataType.skeleton_withWildcard same.1 same.2.1 (by simp) same.2.2)
  | .lower t, h => (beside_resolveType (depth + 1) t h).bind fun _ _ same =>
      .of_pure (DataType.skeleton_withWildcard same.1 same.2.1 (by simp) same.2.2)

end

/-- A signature resolved in two contexts that can be compared at each of its names. -/
theorem beside_resolve {text : String}
    (h : ∀ sig, Signature.parse text = .ok sig → ∀ w ∈ sig.written, Comparable excused ctx ctx' w) :
    Beside excused SameShape (resolve limit ctx text) (resolve limit ctx' text) := by
  unfold resolve
  by_cases negative : limit < 0
  · rw [if_pos negative, if_pos negative]
    exact fun s s₁ => .inr ⟨_, s, rfl, .inr ⟨s₁, rfl⟩⟩
  · rw [if_neg negative, if_neg negative]
    cases parsed : Signature.parse text with
    | error fault =>
      rw [signature, parsed]
      exact fun s s₁ => .inr ⟨_, s, rfl, .inr ⟨s₁, rfl⟩⟩
    | ok sig =>
      have names := h sig parsed
      have value : signature text = .ok sig := by rw [signature, parsed]; rfl
      refine Beside.bind (R := fun a b => sig = a ∧ sig = b) (.of_except (.inl ⟨sig, sig, value, value, rfl, rfl⟩)) ?_
      rintro _ _ ⟨rfl, rfl⟩
      cases sig with
      | void =>
        exact (beside_enter (names _ List.mem_cons_self)).bind fun _ _ _ => .of_pure ⟨rfl, rfl, rfl⟩
      | type t =>
        exact beside_resolveType 0 t fun u hu => names _ (List.mem_map_of_mem hu)

/-- What a signature's written names are known by is what the data type has for names. -/
theorem names_eq_of_gives {text : String} {t : DataType} {s s' : Session} (h : Gives (resolve limit ctx text) s t s') :
    ∃ sig, Signature.parse text = .ok sig ∧ t.names = sig.written.map (nameIn ctx) := by
  obtain ⟨sig, parsed, names⟩ := names_resolve h
  refine ⟨sig, parsed, ?_⟩
  have same : List.Forall₂ (fun w n => nameIn ctx w = n) sig.written t.names :=
    names.imp fun _ _ => nameIn_of_fullName
  rw [← List.forall₂_map_left_iff, List.forall₂_eq_eq_eq] at same
  exact same.symm

end Resolution
end TypeAtlas
