import TypeAtlas.Proofs.Syntax.Nesting
import TypeAtlas.Proofs.Syntax.Validity

/-! How the types of a file are named. Where type declarations are named by identifiers, which have no dots,
the name of a type that stands in another is that of the type around it, a dot and its own simple name. -/

namespace TypeAtlas

theorem Text.simpleName_of_not_mem {s : String} (h : '.' ∉ s.toList) : simpleName s = s := by
  have all : s.toList.reverse.takeWhile (· != '.') = s.toList.reverse := by
    rw [List.takeWhile_eq_self_iff]
    intro c hc
    exact bne_iff_ne.mpr fun dot => h (dot ▸ List.mem_reverse.mp hc)
  rw [simpleName, afterLastDot, all, List.reverse_reverse, String.ofList_toList]

namespace Forest

/-- A member of `owner`, and in its body members of it. -/
def Qualified : (owner : String) → Forest String → Prop
  | _, nil => True
  | owner, cons n members rest =>
    n = Text.qualify owner (Text.simpleName n) ∧ members.Qualified n ∧ rest.Qualified owner

/-- What stands in the body of a type is a member of it. -/
def MembersQualified : Forest String → Prop
  | nil => True
  | cons n members rest => members.Qualified n ∧ rest.MembersQualified

variable {f g : Forest String} {owner e n : String} {pre mid : List String}

theorem Qualified.append (h : f.Qualified owner) (h' : g.Qualified owner) : (f.append g).Qualified owner := by
  induction f with
  | nil => exact h'
  | cons n members rest _ ih => exact ⟨h.1, h.2.1, ih h.2.2⟩

theorem Qualified.members (h : f.Qualified owner) : f.MembersQualified := by
  induction f with
  | nil => trivial
  | cons n members rest _ ih => exact ⟨h.2.1, ih h.2.2⟩

theorem MembersQualified.append (h : f.MembersQualified) (h' : g.MembersQualified) :
    (f.append g).MembersQualified := by
  induction f with
  | nil => exact h'
  | cons n members rest _ ih => exact ⟨h.1, ih h.2⟩

theorem Qualified.root (h : f.Qualified owner) (root : Root f pre n) :
    n = Text.qualify owner (Text.simpleName n) := by
  induction root with
  | first => exact h.1
  | later _ _ _ ih => exact ih h.2.2

theorem MembersQualified.inBody (h : f.MembersQualified) (inBody : InBody f pre e mid n) :
    n = Text.qualify e (Text.simpleName n) := by
  induction inBody with
  | first _ root => exact h.1.root root
  | inside _ _ _ ih => exact ih h.1.members
  | later _ _ _ ih => exact ih h.2

end Forest

namespace Syntax

namespace Tree

/-- All type declarations are named by identifiers, without dots. -/
def DeclaresIdentifiers (root : Tree) : Prop :=
  ∀ t, root.Contains t → t.kind.typeKind?.isSome → '.' ∉ t.nameText.toList

/-- What the node declares in a body is named after the type of the body, at any depth. -/
def Qualifies (t : Tree) : Prop := ∀ owner, (outlineMember owner t).Qualified owner

variable {t : Tree} {ts : List Tree}

theorem qualified_outlineMembers (owner : String) (h : ∀ t ∈ ts, t.Qualifies) :
    (outlineMembers owner ts).Qualified owner := by
  induction ts with
  | nil => trivial
  | cons t ts ih =>
    obtain ⟨first, rest⟩ := List.forall_mem_cons.mp h
    exact (first owner).append (ih rest)

theorem qualified_outlineBody (owner : String)
    (h : ∀ t ∈ ts, t.field = some "body" → ∀ c ∈ t.children, c.Qualifies) : (outlineBody owner ts).Qualified owner := by
  induction ts with
  | nil => trivial
  | cons t ts ih =>
    obtain ⟨first, rest⟩ := List.forall_mem_cons.mp h
    rw [outlineBody]
    split
    · rename_i body
      obtain ⟨_, _, _, _, _, children⟩ := t
      exact qualified_outlineMembers owner (first body)
    · exact ih rest

theorem qualifies (name : t.kind.typeKind?.isSome → '.' ∉ t.nameText.toList)
    (body : t.kind.typeKind?.isSome → ∀ c ∈ t.children, c.field = some "body" → ∀ d ∈ c.children, d.Qualifies)
    (members : t.kind = .enumBodyDeclarations → ∀ c ∈ t.children, c.Qualifies) : t.Qualifies := by
  intro owner
  obtain ⟨kind, isNamed, field, text, line, children⟩ := t
  unfold outlineMember
  dsimp only
  split
  · trivial
  split
  · rename_i constants
    exact qualified_outlineMembers owner (members constants)
  split
  · trivial
  · rename_i type
    rw [Bool.or_eq_true, not_or, Option.isNone_iff_eq_none, ← Ne, ← Option.isSome_iff_ne_none] at type
    refine ⟨?_, qualified_outlineBody _ (body type.1), trivial⟩
    exact congrArg (Text.qualify owner)
      ((Text.simpleName_qualify owner _).trans (Text.simpleName_of_not_mem (name type.1))).symm

theorem DeclaresIdentifiers.child {c : Tree} (h : t.DeclaresIdentifiers) (mem : c ∈ t.children) :
    c.DeclaresIdentifiers := fun u hu => h u ((Contains.child .refl mem).trans hu)

theorem declaresIdentifiers_iff : t.DeclaresIdentifiers ↔
    (t.kind.typeKind?.isSome → '.' ∉ t.nameText.toList) ∧ ∀ c ∈ t.children, c.DeclaresIdentifiers := by
  refine ⟨fun h => ⟨h _ .refl, fun c hc => h.child hc⟩, fun ⟨self, below⟩ u hu => ?_⟩
  have place : u = t ∨ ∃ c ∈ t.children, c.Contains u := by
    induction hu with
    | refl => exact .inl rfl
    | child _ mem ih =>
      rcases ih with rfl | ⟨c, hc, inside⟩
      · exact .inr ⟨_, mem, .refl⟩
      · exact .inr ⟨c, hc, inside.child mem⟩
  rcases place with rfl | ⟨c, hc, inside⟩
  · exact self
  · exact below c hc u inside

/-- The same for a node whose parts are given. -/
theorem declaresIdentifiers_mk {kind : NodeKind} {isNamed : Bool} {field : Option String} {text : String} {line : Nat}
    {children : List Tree} : DeclaresIdentifiers ⟨kind, isNamed, field, text, line, children⟩ ↔
      (kind.typeKind?.isSome → '.' ∉ (nameText ⟨kind, isNamed, field, text, line, children⟩).toList) ∧
        ∀ c ∈ children, c.DeclaresIdentifiers := declaresIdentifiers_iff

theorem DeclaresIdentifiers.qualifies {t : Tree} (h : t.DeclaresIdentifiers) : t.Qualifies := by
  refine Tree.qualifies (h t .refl) (fun _ c hc _ d hd => ?_) (fun _ c hc => ?_)
  · have := sizeOf_lt_of_mem_children hc
    have := sizeOf_lt_of_mem_children hd
    exact ((h.child hc).child hd).qualifies
  · have := sizeOf_lt_of_mem_children hc
    exact (h.child hc).qualifies
termination_by sizeOf t

/-- At the top of a file a type gives what it would give in a body. -/
theorem outlineMember_of_type (owner : String) (named : t.isNamed) (type : t.kind.typeKind?.isSome) :
    outlineMember owner t = t.outlineType owner := by
  obtain ⟨kind, isNamed, field, text, line, children⟩ := t
  have constants : kind ≠ .enumBodyDeclarations := by
    rintro rfl
    exact absurd type nofun
  obtain ⟨typeKind, type⟩ := Option.isSome_iff_exists.mp type
  dsimp only at named type
  unfold outlineMember outlineType
  simp [named, constants, type]

end Tree

variable {ts : List Tree}

theorem membersQualified_outlineTop (named : ∀ t ∈ ts, t.isNamed) (h : ∀ t ∈ ts, t.Qualifies) (package : String) :
    (outlineTop package ts).MembersQualified := by
  induction ts generalizing package with
  | nil => trivial
  | cons t ts ih =>
    obtain ⟨first, rest⟩ := List.forall_mem_cons.mp h
    obtain ⟨isNamed, named⟩ := List.forall_mem_cons.mp named
    unfold outlineTop
    split
    · exact ih named rest _
    split
    · rename_i type
      rw [← Tree.outlineMember_of_type package isNamed type]
      exact (first package).members.append (ih named rest package)
    · exact ih named rest package

/-- In the outline of a file types are named after those around them. -/
theorem ParsedFile.membersQualified_outline {f : ParsedFile} (h : ∀ t ∈ f.root.namedChildren, t.Qualifies) :
    f.outline.MembersQualified :=
  membersQualified_outlineTop (fun _ ht => (List.mem_filter.mp ht).2) h ""

end Syntax
end TypeAtlas
