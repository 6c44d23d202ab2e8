import TypeAtlas.Proofs.Project.Filling
import TypeAtlas.Proofs.Project.Supertypes

/-! What becomes of the member types of a declaration that is dropped for one of the same name before it. All
types are kept or dropped one by one, so a member type of a dropped declaration stays, as a member of the kept
one, where no type before it has its name. -/

namespace TypeAtlas

open Sources

namespace Forest

variable {f : Forest Declaration} {types pre pre' mid mid' post post' : List Declaration} {d d' e e' : Declaration}

/-- The first declaration of a name has one place only. -/
theorem first_unique (eq : pre ++ d :: post = pre' ++ d' :: post') (first : d.name ∉ pre.map (·.name))
    (first' : d'.name ∉ pre'.map (·.name)) (name : d.name = d'.name) : pre = pre' := by
  rcases List.append_eq_append_iff.mp eq with ⟨_ | ⟨b, after⟩, rfl, h⟩ | ⟨_ | ⟨b, after⟩, rfl, h⟩
  · exact (List.append_nil _).symm
  · obtain ⟨rfl, -⟩ := List.cons.inj h
    exact absurd (by simp [name]) first'
  · exact List.append_nil _
  · obtain ⟨rfl, -⟩ := List.cons.inj h
    exact absurd (by simp [name]) first

/-- Of a type whose name comes up first here, the type around it is the first of its own name. -/
def ReadFromKept (f : Forest Declaration) (d : Declaration) : Prop :=
  ∃ pre e mid, InBody f pre e mid d ∧ d.name ∉ (pre ++ e :: mid).map (·.name) ∧ e.name ∉ pre.map (·.name)

/-- A kept type that stands in another was read in the body of some declaration of that name. -/
theorem inBody_of_kept (placed : f.Placed none) (hd : d ∈ (Table.ofFirst f.types).declarations) {o : String}
    (outer : d.outer = some o) :
    ∃ pre e mid, InBody f pre e mid d ∧ e.name = o ∧ d.name ∉ (pre ++ e :: mid).map (·.name) := by
  obtain ⟨before, post, eq, first⟩ := Table.mem_ofFirst.mp hd
  rcases root_or_inBody eq with root | ⟨pre, e, mid, rfl, inBody⟩
  · rw [(placed.root root).outer_eq] at outer
    cases outer
  · refine ⟨pre, e, mid, inBody, ?_, first⟩
    rw [(placed.inBody inBody).2.outer_eq] at outer
    exact Option.some.inj outer

/-- After a declaration with a member type of some name, no type of that name is the first in another declaration
named like it: that one would stand among the members, where all names are longer. -/
theorem first_of_member (placed : f.Placed none) (inBody : InBody f pre e mid d)
    (first : d.name ∉ (pre ++ e :: mid).map (·.name)) {k c : Declaration} (inBody' : InBody f pre' k mid' c)
    (outer : k.name = e.name) (member : c.name = d.name) (first' : e.name ∉ pre'.map (·.name)) :
    e.name ∉ pre.map (·.name) := by
  intro known
  obtain ⟨post, eq⟩ := inBody.types_eq
  obtain ⟨post', eq'⟩ := inBody'.types_eq
  have longer {x : Declaration} (hx : k.name.toList.length < x.name.toList.length) : e ≠ x := by
    rintro rfl
    rw [outer] at hx
    exact Nat.lt_irrefl _ hx
  have member_longer : k.name.toList.length < c.name.toList.length := (placed.inBody inBody').2.length_lt
  rcases List.append_eq_append_iff.mp (eq.symm.trans eq') with ⟨after, rfl, -⟩ | ⟨_ | ⟨b, after⟩, rfl, h⟩
  · exact first' (by rw [List.map_append]; exact List.mem_append_left _ known)
  · rw [List.append_nil] at known
    exact first' known
  · obtain ⟨rfl, inner⟩ := List.cons.inj h
    -- `e` stands after `k`: at the place of `c`, after it, or among what is nested in `k` before it
    rcases List.append_eq_append_iff.mp inner with ⟨_ | ⟨b, rest⟩, rfl, split⟩ | ⟨_ | ⟨b, rest⟩, rfl, split⟩
    · exact longer member_longer (List.cons.inj split).1.symm
    · obtain ⟨rfl, -⟩ := List.cons.inj split
      exact first (by simp [member])
    · exact longer member_longer (List.cons.inj split).1
    · obtain ⟨rfl, -⟩ := List.cons.inj split
      exact longer (placed.length_lt_between inBody' e (by simp)) rfl

/-- A member type that is the first of its name stands in the first declaration of its outer type just in case
that declaration has a member type of the name. -/
theorem readFromKept_iff (placed : f.Placed none) (inBody : InBody f pre e mid d)
    (first : d.name ∉ (pre ++ e :: mid).map (·.name)) : f.ReadFromKept d ↔
      ∃ pre' k mid' c, InBody f pre' k mid' c ∧ k.name = e.name ∧ e.name ∉ pre'.map (·.name) ∧ c.name = d.name := by
  refine ⟨?_, ?_⟩
  · rintro ⟨pre', e', mid', inBody', first', outer⟩
    have same : e'.name = e.name := by
      have eq := (placed.inBody inBody').2.outer_eq.symm.trans (placed.inBody inBody).2.outer_eq
      exact Option.some.inj eq
    exact ⟨pre', e', mid', d, inBody', same, same ▸ outer, rfl⟩
  · rintro ⟨pre', k, mid', c, inBody', outer, first', member⟩
    exact ⟨pre, e, mid, inBody, first, first_of_member placed inBody first inBody' outer member first'⟩

/-- The member types that stay are those of kept declarations just in case every member type of a declaration
that is dropped is dropped for a type before it. -/
theorem readFromKept_all_iff (placed : f.Placed none) :
    (∀ d ∈ (Table.ofFirst f.types).declarations, d.outer ≠ none → f.ReadFromKept d) ↔
      ∀ pre e mid d, InBody f pre e mid d → e.name ∈ pre.map (·.name) → d.name ∈ (pre ++ e :: mid).map (·.name) := by
  refine ⟨?_, ?_⟩
  · intro kept pre e mid d inBody known
    by_contra first
    obtain ⟨post, eq⟩ := inBody.types_eq
    rw [← List.cons_append, ← List.append_assoc] at eq
    have outer : d.outer = some e.name := (placed.inBody inBody).2.outer_eq
    obtain ⟨pre', e', mid', inBody', first', outer'⟩ :=
      kept d (Table.mem_ofFirst.mpr ⟨_, post, eq, first⟩) (by simp [outer])
    obtain ⟨post', eq'⟩ := inBody'.types_eq
    rw [← List.cons_append, ← List.append_assoc] at eq'
    have same := first_unique (eq.symm.trans eq') first first' rfl
    obtain rfl := inBody.unique inBody' same
    obtain ⟨rfl, -⟩ := List.cons.inj (List.append_cancel_left same)
    exact outer' known
  · intro whole d hd outer
    obtain ⟨o, ho⟩ := Option.ne_none_iff_exists'.mp outer
    obtain ⟨pre, e, mid, inBody, -, first⟩ := inBody_of_kept placed hd ho
    exact ⟨pre, e, mid, inBody, first, fun known => first (whole pre e mid d inBody known)⟩

end Forest

namespace Project

variable {p : Project} {fs : Files} {types : List Declaration}

/-- What is kept of the declarations in a project's own files, nested as in the forest `f`. -/
structure Discarding (p : Project) (fs : Files) (types : List Declaration) (warnings : List Warning)
    (own : List (Reading fs.parser p.root)) (f : Forest Declaration) : Prop where
  listing : Listing fs p.exclusions p.root own
  outline_eq : f.map (·.name) = outline own
  declarations_eq : f.types = declarations own
  kept_iff : ∀ d, d ∈ types ↔ ∃ pre post, f.types = pre ++ d :: post ∧ d.name ∉ pre.map (·.name)
  warned : ∀ pre d post, f.types = pre ++ d :: post → d.name ∈ pre.map (·.name) →
    .duplicateDeclaration d.name d.sourceFile ∈ warnings
  inBody_of_kept : ∀ d ∈ types, ∀ o, d.outer = some o → ∃ pre e mid, f.InBody pre e mid d ∧ e.name = o ∧
    d.name ∉ (pre ++ e :: mid).map (·.name) ∧ ∃ k ∈ types, k.name = o ∧ (o ∉ pre.map (·.name) → k = e)
  readFromKept_iff : ∀ d ∈ types, ∀ o, d.outer = some o → (f.ReadFromKept d ↔
    ∃ pre k mid c, f.InBody pre k mid c ∧ k.name = o ∧ o ∉ pre.map (·.name) ∧ c.name = d.name)
  whole_iff : (∀ d ∈ types, d.outer ≠ none → f.ReadFromKept d) ↔
    ∀ pre e mid n, (outline own).InBody pre e mid n → e ∈ pre → n ∈ pre ++ e :: mid

/-- Dropping declarations one by one drops them whole just in case every member type of a dropped one has the
name of a type before it. -/
theorem discarding (p : Project) (fs : Files) (types : List Declaration) (h : (p.types fs {}).1.1 = .ok types) :
    ∃ own f, Discarding p fs types (p.types fs {}).1.2 own f := by
  obtain ⟨own, libraries, s, warnings, listing, -, -, rfl, rfl, warned, answer⟩ := filled_of_types h
  obtain ⟨f, names, placed, eq⟩ := outlined_declarations own
  have kept : (State.filled (declarations own) (libraries.flatMap (declarations ·.2))).types.declarations =
      (Table.ofFirst f.types).declarations := by
    rw [eq]
    rfl
  rw [answer, kept]
  rw [← eq] at warned
  refine ⟨own, f, listing, names, eq, fun d => Table.mem_ofFirst, warned, ?inBody, ?fromKept, ?whole⟩
  case inBody =>
    intro d hd o outer
    obtain ⟨pre, e, mid, inBody, rfl, first⟩ := Forest.inBody_of_kept placed hd outer
    obtain ⟨post, split⟩ := inBody.types_eq
    -- the kept declaration of the outer type's name is the first one
    obtain ⟨k, hk⟩ : ∃ k, Index.ofList f.types e.name = some k :=
      Option.isSome_iff_exists.mp (Index.isSome_ofList.mpr (by simp [split]))
    have name : k.name = e.name := Index.name_of_ofList_eq hk
    have mem : k ∈ (Table.ofFirst f.types).declarations := Table.mem_ofFirst_iff_ofList.mpr (name ▸ hk)
    refine ⟨pre, e, mid, inBody, rfl, first, k, mem, name, fun new => ?_⟩
    rw [split, Index.ofList_append, Index.ofList_eq_none.mpr new, Option.none_or, Index.ofList_cons, if_pos rfl] at hk
    exact (Option.some.inj hk).symm
  case fromKept =>
    intro d hd o outer
    obtain ⟨pre, e, mid, inBody, rfl, first⟩ := Forest.inBody_of_kept placed hd outer
    exact Forest.readFromKept_iff placed inBody first
  case whole =>
    rw [Forest.readFromKept_all_iff placed, ← names]
    refine ⟨?_, ?_⟩
    · intro whole pre e mid n inBody known
      obtain ⟨pre, e, mid, d, inBody', rfl, rfl, rfl, rfl⟩ := Forest.exists_inBody_of_map inBody
      simpa using whole pre e mid d inBody' known
    · intro whole pre e mid d inBody known
      simpa using whole _ _ _ _ (inBody.map (·.name)) known

open Syntax

/-- `class A { class X {} }` and, in a second file, `class A { class Y {} }`: the second `A` is dropped and its
member type stays. -/
def twiceFiles : Files where
  isDirectory := fun _ => true
  below := fun _ =>
    let file (member : String) : Content := .parsed { root := ⟨.other "program", true, none, "", 1,
      [typeNode .classDeclaration "A" [] [typeNode .classDeclaration member [] []]]⟩ }
    [⟨["A.java"], file "X"⟩, ⟨["B.java"], file "Y"⟩]
  writeFailure? := fun _ => none
  parser := .ofText

def twiceTypes : List Declaration := [
  { name := "A", scope := some (.lexical { enclosing := ["A"] }), sourceFile := some "p/A.java" },
  { name := "A.X", outer := some "A", scope := some (.lexical { enclosing := ["A.X", "A"] }),
    sourceFile := some "p/A.java" },
  { name := "A.Y", outer := some "A", scope := some (.lexical { enclosing := ["A.Y", "A"] }),
    sourceFile := some "p/B.java" }]

theorem discarding_twice : (nestedProject.types twiceFiles {}).1.1 = .ok twiceTypes ∧
    ∃ own f, Discarding nestedProject twiceFiles twiceTypes (nestedProject.types twiceFiles {}).1.2 own f := by
  have load : (nestedProject.load twiceFiles).outcome.1.map (·.types) = .ok twiceTypes := by cbv
  have types := (types_new _ _).trans load
  exact ⟨types, discarding _ _ _ types⟩

end Project
end TypeAtlas
