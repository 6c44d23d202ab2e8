import TypeAtlas.Proofs.Extraction.Invariance
import TypeAtlas.Proofs.Project.Duplicates
import TypeAtlas.Proofs.Project.Reached
import TypeAtlas.Proofs.Syntax.ParsedTypes

/-! Outer types in a model. All types of a file stand before those in their bodies, and which of several
declarations of a name is kept changes nothing in this: where a type is kept, the first of the name of the
type around it stands before it. -/

namespace TypeAtlas

open Syntax

/-- In the syntax trees of all files type declarations are named by identifiers. -/
def Files.DeclaresIdentifiers (fs : Files) : Prop :=
  ∀ root, ∀ e ∈ fs.below root, ∀ path f, Sources.parse fs.parser path e.content = .ok f → f.root.DeclaresIdentifiers

/-- With the grammar of this library for a parser it is so of all files but those that are given as syntax trees. -/
theorem Files.declaresIdentifiers_of_parsed {fs : Files} (grammar : fs.parser = .ofText)
    (h : ∀ root, ∀ e ∈ fs.below root, ∀ f, e.content = .parsed f → f.root.DeclaresIdentifiers) :
    fs.DeclaresIdentifiers := by
  intro root e he path f parsed
  unfold Sources.parse at parsed
  split at parsed
  · cases parsed
  · rename_i content
    exact Except.ok.inj parsed ▸ h root e he _ content
  · split at parsed
    · cases parsed
    · rename_i source _
      rw [← Except.ok.inj parsed, grammar]
      exact ParsedFile.declaresIdentifiers_ofText source

namespace Sources

variable {parser : Parser} {root : Path}

theorem membersQualified_outline {readings : List (Reading parser root)}
    (h : ∀ r ∈ readings, r.file.root.DeclaresIdentifiers) : (outline readings).MembersQualified := by
  induction readings with
  | nil => trivial
  | cons r readings ih =>
    obtain ⟨first, rest⟩ := List.forall_mem_cons.mp h
    have here := ParsedFile.membersQualified_outline fun t ht => (first.child (List.mem_filter.mp ht).1).qualifies
    exact here.append (ih rest)

end Sources

namespace Model

/-- Every type with an outer type is named after it, and the outer type stands before it. -/
structure OutersFirst (m : Model) : Prop where
  distinct : (m.types.map (·.fullName)).Nodup
  fullName_eq : ∀ e ∈ m.types, ∀ o, e.outerType = some o → e.fullName = o ++ "." ++ e.name
  before : ∀ pre e post, m.types = pre ++ e :: post → ∀ o, e.outerType = some o → ∃ f ∈ pre, f.fullName = o

end Model

namespace Project

open Sources

variable {p : Project} {fs : Files} {settings : Settings} {m : Model}

namespace Contents

variable (c : Contents p)

/-- A type in the tables that has an outer type is named after it. -/
theorem name_eq_of_outer (plain : c.files.DeclaresIdentifiers) {d : Declaration} (hd : d ∈ c.types) {o : String}
    (outer : d.outer = some o) : d.name = o ++ "." ++ Text.simpleName d.name := by
  obtain ⟨f, names, placed, types⟩ := outlined_declarations c.own
  have kept : d ∈ (Table.ofFirst f.types).declarations := types ▸ hd
  obtain ⟨pre, e, mid, inBody, rfl, -⟩ := Forest.inBody_of_kept placed kept outer
  have readings : ∀ r ∈ c.own, r.file.root.DeclaresIdentifiers := fun r hr =>
    plain p.root r.entry (List.mem_filter.mp (c.own_listing.perm.subset (List.mem_map_of_mem hr))).1 _ _ r.parsed
  have qualified : (f.map (·.name)).MembersQualified := names ▸ membersQualified_outline readings
  have qualified := qualified.inBody (inBody.map (·.name))
  rwa [Text.qualify, if_neg (placed.inBody inBody).1] at qualified

/-- The outer type of a type in the tables stands before it. -/
theorem outer_before {pre post : List Declaration} {d : Declaration} (eq : c.types = pre ++ d :: post) {o : String}
    (outer : d.outer = some o) : o ∈ pre.map (·.name) := by
  obtain ⟨f, -, placed, types⟩ := outlined_declarations c.own
  have table : (Table.ofFirst f.types).declarations = pre ++ d :: post := types ▸ eq
  have kept : d ∈ (Table.ofFirst f.types).declarations := by simp [table]
  obtain ⟨before, e, mid, inBody, rfl, first⟩ := Forest.inBody_of_kept placed kept outer
  obtain ⟨after, split⟩ := inBody.types_eq
  rw [← List.cons_append, ← List.append_assoc] at split
  rw [Table.names_before split first table, List.mem_eraseDups]
  simp

end Contents

theorem outersFirst_of_result (c : Contents p) (plain : c.files.DeclaresIdentifiers)
    (h : Extraction.result settings (some (c.state.provider p fs)) = .ok m) : m.OutersFirst := by
  obtain ⟨ds, hds, classified, distinct, -⟩ := Extraction.result_sustained h
  obtain rfl : c.types = ds := Except.ok.inj hds
  refine ⟨distinct, ?_, ?_⟩
  · intro e he o outer
    obtain ⟨d, hd, hde⟩ := exists_left_of_forall₂ classified he
    rw [Entry.name, hde.fullName_eq]
    exact c.name_eq_of_outer plain hd (hde.outerType_eq ▸ outer)
  · intro pre e post eq o outer
    rw [eq] at classified
    obtain ⟨d, rest, hde, -, drop⟩ := List.forall₂_cons_right_iff.mp (List.forall₂_drop_append _ _ _ classified)
    have split : c.types = c.types.take pre.length ++ d :: rest := by rw [← drop, List.take_append_drop]
    have before := c.outer_before split (hde.outerType_eq ▸ outer)
    rw [← Classifier.Classified.fullNames_eq (List.forall₂_take_append _ _ _ classified)] at before
    exact List.mem_map.mp before

/-- In every model of a project an outer type stands before the types in its body, which are named after it. -/
theorem outersFirst (p : Project) (calls : List Call) (fs : Files) (settings : Settings) (m : Model)
    (plain : ∀ gs ∈ fs :: calls.map (·.files), gs.DeclaresIdentifiers)
    (h : (p.extract fs settings (p.after {} calls)).1.1 = .ok m) : m.OutersFirst := by
  obtain ⟨own, others⟩ := List.forall_mem_cons.mp plain
  have reached : ReachedFrom p Files.DeclaresIdentifiers (p.after {} calls) :=
    reachedFrom_after (.inl rfl) calls fun c hc => others c.files (List.mem_map_of_mem hc)
  rcases extract_of_reachedFrom reached own settings with ⟨-, eq⟩ | ⟨e, eq, -⟩ | ⟨-, c, plain, -, eq⟩
  · cases eq.symm.trans h
  · cases eq.symm.trans h
  · exact outersFirst_of_result c plain (eq.symm.trans h)

theorem declaresIdentifiers_twice : twiceFiles.DeclaresIdentifiers := by
  refine Files.declaresIdentifiers_of_parsed rfl fun root e he f content => ?_
  simp only [twiceFiles, List.mem_cons, List.not_mem_nil, or_false] at he
  rcases he with rfl | rfl
  all_goals
    cases content
    simp [Tree.declaresIdentifiers_mk, typeNode, NodeKind.typeKind?, Tree.nameText, Tree.fieldText, Tree.child?]

/-- The model of `A`, which is declared twice, with a member type of each declaration. -/
theorem outersFirst_twice : twiceFiles.DeclaresIdentifiers ∧ ∃ m,
    (nestedProject.extract twiceFiles {} (nestedProject.after {} [])).1.1 = .ok m ∧
      m.types.map (fun e => (e.fullName, e.outerType)) = [("A", none), ("A.X", some "A"), ("A.Y", some "A")] ∧
      m.OutersFirst := by
  have hx : (nestedProject.extract twiceFiles {} (nestedProject.after {} [])).1.1.toOption.map
      (fun m => m.types.map fun e => (e.fullName, e.outerType)) =
      some [("A", none), ("A.X", some "A"), ("A.Y", some "A")] := by
    rw [after, extract_new rfl]
    cbv
  obtain ⟨m, h, hx⟩ := exists_ok_of_toOption hx
  have plain : ∀ gs ∈ [twiceFiles], gs.DeclaresIdentifiers := List.forall_mem_singleton.mpr declaresIdentifiers_twice
  exact ⟨declaresIdentifiers_twice, m, h, hx, outersFirst nestedProject [] twiceFiles {} m plain h⟩

end Project
end TypeAtlas
