import TypeAtlas.Proofs.Signature.Acceptance

/-! The bounds of the type arguments of a signature. Each is a signature in its own right, and how far one
gets by going from bound to bound is the nesting that a limit of a resolution counts: it looks into the
innermost segment only, and an unbounded argument is no level. -/

namespace TypeAtlas.Signature

mutual

/-- How many levels of bounds are below the type. -/
def TypeSig.nest : TypeSig → Nat
  | .primitive _ _ => 0
  | .typeVariable _ _ => 0
  | .reference _ _ path => path.nest

def ClassPath.nest : ClassPath → Nat
  | .last _ as => argumentsNest as
  | .outer _ _ inner => inner.nest

def argumentsNest : List Argument → Nat
  | [] => 0
  | a :: as => max a.nest (argumentsNest as)

def Argument.nest : Argument → Nat
  | .unbounded => 0
  | .exactly t => t.nest + 1
  | .upper t => t.nest + 1
  | .lower t => t.nest + 1

end

def nest : Signature → Nat
  | .void => 0
  | .type t => t.nest

def bounds (s : Signature) : List TypeSig := s.arguments.filterMap Argument.bound

theorem argumentsNest_eq (as : List Argument) :
    argumentsNest as = ((as.filterMap Argument.bound).map fun t => 1 + t.nest).foldr max 0 := by
  induction as with
  | nil => rfl
  | cons a as ih =>
    rw [argumentsNest, ih]
    cases a <;> simp [List.filterMap_cons, Argument.nest, Argument.bound, Nat.add_comm]

theorem ClassPath.nest_eq : (path : ClassPath) → path.nest = argumentsNest path.arguments
  | .last _ _ => rfl
  | .outer _ _ inner => inner.nest_eq

theorem TypeSig.nest_eq (t : TypeSig) : t.nest = argumentsNest t.arguments := by
  cases t with
  | primitive n p => rfl
  | typeVariable n x => rfl
  | reference n o path => exact path.nest_eq

/-- No level without a bound, and otherwise one more than below the bounds. -/
theorem nest_eq (s : Signature) : s.nest = (s.bounds.map fun t => 1 + t.nest).foldr max 0 := by
  cases s with
  | void => rfl
  | type t => exact t.nest_eq.trans (argumentsNest_eq _)

theorem nest_le_of_mem {as : List Argument} {a : Argument} (h : a ∈ as) : a.nest ≤ argumentsNest as := by
  induction as with
  | nil => cases h
  | cons b as ih =>
    rw [argumentsNest]
    rcases List.mem_cons.mp h with rfl | h
    · exact Nat.le_max_left _ _
    · exact Nat.le_trans (ih h) (Nat.le_max_right _ _)

theorem nest_lt_of_bound {s : Signature} {a : Argument} (ha : a ∈ s.arguments) {b : TypeSig} (hb : a.bound = some b) :
    b.nest < s.nest := by
  have below : a.nest = b.nest + 1 := by
    cases a <;> cases hb <;> rfl
  cases s with
  | void => cases ha
  | type t =>
    have := nest_le_of_mem ha
    rw [nest, t.nest_eq]
    change a.nest ≤ argumentsNest t.arguments at this
    omega

theorem ArgumentTree.exists_bound (a : ArgumentTree) {b : TypeSig} (h : a.argument.bound = some b) :
    ∃ t : TypeTree, t.sig = b ∧ a.nesting = t.nesting + 1 := by
  cases a with
  | unbounded => cases h
  | exactly t => exact ⟨t, Option.some.inj h, rfl⟩
  | upper t => exact ⟨t, Option.some.inj h, rfl⟩
  | lower t => exact ⟨t, Option.some.inj h, rfl⟩

theorem ArgumentTrees.nesting_le_of_argument : (as : ArgumentTrees) → ∀ a ∈ as.toList, a.nesting ≤ as.nesting
  | .one a, b, hb => List.mem_singleton.mp hb ▸ Nat.le_refl _
  | .more a as, b, hb => by
    rw [ArgumentTrees.nesting]
    rcases List.mem_cons.mp hb with rfl | hb
    · exact Nat.le_max_left _ _
    · exact Nat.le_trans (as.nesting_le_of_argument b hb) (Nat.le_max_right _ _)

theorem BodyTree.nesting_le_of_argument : (body : BodyTree) → ∀ a ∈ body.lastArguments, a.nesting ≤ body.nesting
  | .plain _, a, ha => absurd ha List.not_mem_nil
  | .generic _ as, a, ha => as.nesting_le_of_argument a ha
  | .member _ as inner, a, ha => by
    rw [BodyTree.nesting]
    exact Nat.le_trans (inner.nesting_le_of_argument a ha) (Nat.le_max_right _ _)

theorem Derivation.nesting_le_of_argument (d : Derivation) : ∀ a ∈ d.lastArguments, a.nesting ≤ d.nesting := by
  intro a ha
  cases d with
  | void => exact absurd ha List.not_mem_nil
  | type t =>
    cases t with
    | primitive n p => exact absurd ha List.not_mem_nil
    | typeVariable n x => exact absurd ha List.not_mem_nil
    | reference n o body => exact body.nesting_le_of_argument a ha

/-- A bound in an accepted text is accepted by itself. -/
theorem parse_bound {s : String} {sig : Signature} (h : parse s = .ok sig) {a : Argument} (ha : a ∈ sig.arguments)
    {b : TypeSig} (hb : a.bound = some b) : parse (Signature.type b).text = .ok (.type b) := by
  obtain ⟨d, -, hd, rfl⟩ := parse_eq_ok.mp h
  rw [d.arguments_signature] at ha
  obtain ⟨tree, hm, rfl⟩ := List.mem_map.mp ha
  obtain ⟨t, rfl, ht⟩ := tree.exists_bound hb
  have := d.nesting_le_of_argument tree hm
  rw [Signature.text, Signature.encode, t.encode_sig]
  exact TypeTree.parse_text (by omega)

end TypeAtlas.Signature
