import TypeAtlas.Scope.Inheritance

/-! What the meaning of a name depends on. Of the declarations that are known, a resolution reads only which
names have one, the supertypes that each writes and the scope in which it writes them; so names mean the same
over indexes that agree on these. -/

namespace TypeAtlas

/-- What a search for inherited members reads of a declaration. -/
def Declaration.lineage (d : Declaration) : List String × Option Scope := (d.writtenSupertypes, d.scope)

/-- The indexes know the same names, by declarations with the same supertypes in the same scopes. -/
def Index.Agree (ix ix' : Index) : Prop := ∀ name, (ix name).map (·.lineage) = (ix' name).map (·.lineage)

variable {ix ix' : Index}

theorem Index.Agree.knows_eq (h : ix.Agree ix') : ix.knows = ix'.knows := by
  funext name
  have same := congrArg Option.isSome (h name)
  rwa [Option.isSome_map, Option.isSome_map] at same

section

variable (h : ix.knows = ix'.knows)

include h

theorem memberOfFirst_congr {inherited inherited' : Inheritance} (hi : inherited = inherited') (name : String)
    (owners : List String) : memberOfFirst ix inherited name owners = memberOfFirst ix' inherited' name owners := by
  subst hi
  induction owners with
  | nil => rfl
  | cons owner owners ih => rw [memberOfFirst, memberOfFirst, h, ih]

theorem LexicalScope.resolveWith_congr {inherited inherited' : Inheritance} (hi : inherited = inherited')
    (s : LexicalScope) (name : String) : s.resolveWith ix inherited name = s.resolveWith ix' inherited' name := by
  have simple (name : String) : s.resolveSimple ix inherited name = s.resolveSimple ix' inherited' name := by
    simp only [resolveSimple, CompilationUnit.lookup, memberOfFirst_congr h hi, h]
  simp only [resolveWith, resolveErased, simple, h]

theorem Scope.resolveWith_congr {inherited inherited' : Inheritance} (hi : inherited = inherited') (s : Scope)
    (name : String) : s.resolveWith ix inherited name = s.resolveWith ix' inherited' name := by
  cases s with
  | lexical s => exact s.resolveWith_congr h hi name
  | names table => rfl
  | exactNames table => rfl

/-- Supertypes themselves are read without inherited members. -/
theorem Declaration.supertypes_congr {d d' : Declaration} (hd : d.lineage = d'.lineage) :
    d.supertypes ix = d'.supertypes ix' := by
  obtain ⟨written, scope⟩ := Prod.mk.inj hd
  have supertype : d.supertype ix = d'.supertype ix' := by
    funext signature
    simp only [supertype, scope, h, Scope.resolveWith_congr h rfl]
  rw [supertypes, supertypes, written, supertype]

theorem searchTypes_congr {search search' : Search} (hs : search = search') (name : String) (owners : List String)
    (visited : List String) : searchTypes ix name search visited owners = searchTypes ix' name search' visited owners := by
  subst hs
  induction owners generalizing visited with
  | nil => rfl
  | cons owner owners ih => simp only [searchTypes, h, ih]

end

variable (h : ix.Agree ix')

include h

theorem searchSupertypes_congr (name : String) (levels : Nat) :
    searchSupertypes ix name levels = searchSupertypes ix' name levels := by
  induction levels with
  | zero => rfl
  | succ levels ih =>
    funext visited owner
    have owners := h owner
    unfold searchSupertypes
    cases known : ix owner with
    | none =>
      rw [known, Option.map_none, eq_comm, Option.map_eq_none_iff] at owners
      rw [owners]
    | some d =>
      rw [known, Option.map_some, eq_comm, Option.map_eq_some_iff] at owners
      obtain ⟨d', known', lineage⟩ := owners
      rw [known']
      dsimp only
      simp only [Declaration.supertypes_congr h.knows_eq lineage.symm, searchTypes_congr h.knows_eq ih]

theorem inheritedMember_congr : inheritedMember ix = inheritedMember ix' := by
  funext owner name
  rw [inheritedMember, inheritedMember, searchSupertypes_congr h]

/-- A name means the same in every scope over indexes that agree. -/
theorem Scope.resolve_congr (s : Scope) (name : String) (inherited : Bool) :
    s.resolve ix name inherited = s.resolve ix' name inherited := by
  unfold resolve
  split
  · exact s.resolveWith_congr h.knows_eq (inheritedMember_congr h) name
  · exact s.resolveWith_congr h.knows_eq rfl name

end TypeAtlas
