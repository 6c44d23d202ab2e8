import TypeAtlas.Proofs.Extraction.Invariance
import TypeAtlas.Proofs.Extraction.Mentions
import TypeAtlas.Proofs.Signature.Erasure

/-! Type variables among the names of a model. A type variable stands for no declaration, so it is referred
to by its own bare name, and a declaration of this name outside of the project gets a stub. -/

namespace TypeAtlas

namespace Signature

mutual

/-- What stands in a derived type is derived. -/
theorem TypeTree.derived : (t : TypeTree) → ∀ u ∈ t.sig.nodes, ∃ v : TypeTree, v.sig = u
  | .primitive n p => fun u hu => ⟨.primitive n p, (List.mem_singleton.mp hu).symm⟩
  | .typeVariable n x => fun u hu => ⟨.typeVariable n x, (List.mem_singleton.mp hu).symm⟩
  | .reference n origin body => by
    intro u hu
    rcases List.mem_cons.mp hu with rfl | hu
    · exact ⟨.reference n origin body, rfl⟩
    · exact body.derived u hu

theorem BodyTree.derived : (body : BodyTree) → ∀ u ∈ body.path.nodes, ∃ v : TypeTree, v.sig = u
  | .plain _ => nofun
  | .generic _ as => as.derived
  | .member _ _ inner => inner.derived

theorem ArgumentTrees.derived : (as : ArgumentTrees) → ∀ u ∈ nodesOfArguments as.list, ∃ v : TypeTree, v.sig = u
  | .one a => by
    intro u hu
    rw [ArgumentTrees.list, nodesOfArguments, nodesOfArguments, List.append_nil] at hu
    exact a.derived u hu
  | .more a as => by
    intro u hu
    rcases List.mem_append.mp hu with hu | hu
    · exact a.derived u hu
    · exact as.derived u hu

theorem ArgumentTree.derived : (a : ArgumentTree) → ∀ u ∈ a.argument.nodes, ∃ v : TypeTree, v.sig = u
  | .unbounded => nofun
  | .exactly t => t.derived
  | .upper t => t.derived
  | .lower t => t.derived

end

/-- A written name that is simple but for its arguments is the raw name. -/
theorem rawName_of_written {text w : String} {sig : Signature} (parsed : parse text = .ok sig) (hw : w ∈ sig.written)
    (simple : Text.afterHead? (Text.erase w) = none) : Resolution.rawName w = Text.erase w := by
  obtain ⟨d, -, -, rfl⟩ := parse_eq_ok.mp parsed
  cases d with
  | void =>
    rw [List.mem_singleton.mp hw]
    decide
  | type t =>
    obtain ⟨u, hu, rfl⟩ := List.mem_map.mp hw
    obtain ⟨v, rfl⟩ := t.derived u hu
    rw [TypeSig.written, v.simpleName_element] at simple ⊢
    have undotted := Text.dot_not_mem_of_afterHead? simple
    rw [Text.erase, String.toList_ofList, String.toList_ofList] at undotted
    rw [Resolution.rawName, Text.erase, String.toList_ofList, TypeTree.takeWhile_element undotted]

end Signature

namespace Mention

def IsVariable (u : Mention) : Prop :=
  ∃ s, u.scope = some (.lexical s) ∧ Text.erase u.written ∈ s.typeVariables ∧ Text.afterHead? (Text.erase u.written) = none

variable {p : Provider} {ix : Index} {u : Mention} {d : Declaration}

theorem parsed_of_mem (h : u ∈ d.mentions) : ∃ text sig, Signature.parse text = .ok sig ∧ u.written ∈ sig.written := by
  obtain ⟨type, -, hu⟩ := List.mem_flatMap.mp h
  unfold ScopedType.mentions at hu
  split at hu
  · rename_i sig parsed
    obtain ⟨w, hw, rfl⟩ := List.mem_map.mp hu
    exact ⟨type.text, sig, parsed, hw⟩
  · cases hu

theorem resolveWith_of_variable {s : LexicalScope} {inherited : Inheritance} {w : String}
    (declared : Text.erase w ∈ s.typeVariables) (simple : Text.afterHead? (Text.erase w) = none) :
    s.resolveWith ix inherited w = .ok none := by
  simp only [LexicalScope.resolveWith]
  split
  · rfl
  · rw [LexicalScope.resolveErased, simple]
    exact if_pos declared

/-- A type variable is referred to by its own name. -/
theorem names_of_isVariable (resolves : ∀ s n, p.resolve s n = s.resolve ix n true) (hu : u ∈ d.mentions)
    (h : u.IsVariable) : u.Names p (Text.erase u.written) := by
  obtain ⟨text, sig, parsed, hw⟩ := parsed_of_mem hu
  obtain ⟨s, scope, declared, simple⟩ := h
  have unresolved : p.contextOf u.scope u.written = .ok none := by
    rw [scope]
    exact (resolves _ _).trans (resolveWith_of_variable declared simple)
  unfold Names Resolution.StandsFor Resolution.fullName
  rw [unresolved, ← Signature.rawName_of_written parsed hw simple]
  rfl

end Mention

namespace Extraction

/-- The stubs of a model are the types known to the provider that the declarations of the project mention and
that are not among them. -/
theorem externals_iff_mentioned {p : Provider} {settings : Settings} {m : Model}
    (hp : ∀ n d, p.find? n = some d → d.name = n) (h : result settings (some p) = .ok m) :
    ∃ ds, p.types = .ok ds ∧ m.types.map (·.fullName) = ds.map (·.name) ∧
      ∀ n, n ∈ m.externals.map (·.fullName) ↔ settings.withExternals = true ∧
        (∃ d ∈ ds, ∃ u ∈ d.mentions, u.Names p n) ∧ isPrimitiveName n = false ∧ n ∉ ds.map (·.name) ∧
          p.find? n ≠ none := by
  obtain ⟨ds, hds, classified, -, -⟩ := result_sustained h
  refine ⟨ds, hds, Classifier.Classified.fullNames_eq classified, fun n => ?_⟩
  cases hw : settings.withExternals with
  | false => simp [externals_of_without hw h]
  | true =>
    rw [(externals_eq_references hp hw h).2.2, Model.refersTo_iff classified,
      Classifier.Classified.fullNames_eq classified]
    simp [Classifier.ofSettings]

end Extraction
end TypeAtlas
