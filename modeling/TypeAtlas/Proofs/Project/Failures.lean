import TypeAtlas.Proofs.Extraction.Failures
import TypeAtlas.Proofs.Project.Reached
import TypeAtlas.Proofs.Project.Shadowing
import TypeAtlas.Proofs.Syntax.Signatures

/-! What the extraction of a project can fail of: the project is missing, a file cannot be read, or a type
cannot be resolved. Names that are declared several times never make it fail, wherever they are declared. -/

namespace TypeAtlas

namespace Error

/-- The file at this path cannot be read. -/
inductive OfFile (path : String) : Error → Prop
  | unreadable : OfFile path (.unreadable path)
  | undecodable : OfFile path (.undecodable path)
  | missingType : OfFile path (.missingType (some path))
  | declaredType (problem : TypeProblem) (line : Nat) : OfFile path (.declaredType problem line (some path))

/-- A model refuses an addition, or a declaration is of a kind it has no entries for. -/
def isOfRegistry : Error → Bool
  | .duplicateType _ => true
  | .frozenModel _ => true
  | .unsupportedKind _ _ => true
  | _ => false

end Error

namespace Sources

variable {parser : Syntax.Parser} {root : Path} {entry : FileEntry} {w w' : List Warning} {e : Error}

theorem ofFile_of_parse {path : String} {content : Content} (h : parse parser path content = .error e) :
    e.OfFile path := by
  unfold parse at h
  split at h
  · cases h
    exact .unreadable
  · cases h
  · split at h
    · cases h
      exact .undecodable
    · cases h

theorem ofFile_of_fails_readFile (h : Fails (readFile parser root entry) w e w') :
    e.OfFile (root.below entry.components).toString := by
  unfold readFile at h
  rcases fails_bind.mp h with h | ⟨f, w₁, -, h⟩
  · exact ofFile_of_parse (fails_except.mp h).1
  · obtain ⟨u, -, failed⟩ := (Syntax.declares_read f _).bad_of_fails h
    obtain ⟨type, dims, rfl, ⟨-, rfl⟩ | ⟨t, problem, -, -, rfl⟩⟩ := Syntax.TypeUse.signature_failed failed
    · exact .missingType
    · exact .declaredType problem t.line

end Sources

namespace Project

open Sources

variable {p : Project} {fs : Files} {settings : Settings}

/-- What an extraction can fail of. -/
inductive Prevents (p : Project) (fs : Files) : Error → Prop
  | missing (absent : ¬ p.isPresent fs) : Prevents p fs (.missingProject p.name)
  | file {e : Error} (root : Path) (own : root ∈ p.libraries ++ [p.root]) (entry : FileEntry)
      (source : entry ∈ entries fs p.exclusions root) (unread : e.OfFile (root.below entry.components).toString) :
      Prevents p fs e
  | types {e : Error} (unresolved : e.OfTypes) : Prevents p fs e

theorem Prevents.not_ofRegistry {e : Error} (h : Prevents p fs e) : e.isOfRegistry = false := by
  cases h with
  | missing _ => rfl
  | file root _ entry _ unread => cases unread <;> rfl
  | types unresolved => cases unresolved <;> rfl

theorem kind_of_openedSomewhere {d : Declaration} (h : OpenedSomewhere d) : ∃ kind, d.kind = .known kind := by
  obtain ⟨f, opened⟩ := h
  exact opened.kind_known

theorem kind_of_platform : ∀ d ∈ Platform.types, ∃ kind, d.kind = .known kind := by
  have kinds : ∀ d ∈ Platform.types, d.kind = .known .classType ∨ d.kind = .known .interfaceType := by decide +kernel
  exact fun d hd => (kinds d hd).elim (⟨_, ·⟩) (⟨_, ·⟩)

/-- A project that has been read has each of its types once, finds every type by its own name and knows its kind. -/
theorem Contents.reliable (c : Contents p) (fs : Files) : Extraction.Reliable (c.state.provider p fs) c.types where
  types := rfl
  nodup := c.nodup_types
  declared := fun d hd => kind_of_openedSomewhere (c.opened_of_mem_types hd)
  named := fun n d => c.name_of_find?
  known := by
    intro n d h
    rcases c.of_find? h with opened | platform
    · exact kind_of_openedSomewhere opened
    · exact kind_of_platform d platform
  resolves := fun s n => s.typesOnly_resolve _ n

/-- Whatever has been asked before, an extraction ends in a frozen model in which no name is twice, or it fails of
the project, a file or a type, and not of the registry. -/
theorem extract_ends (p : Project) (calls : List Call) (fs : Files) (settings : Settings) :
    Ends (fun m => m.isFrozen = true ∧ (m.entries.map (·.fullName)).Nodup ∧
        ∃ c : Contents p, (p.extract fs settings (p.after {} calls)).2 = c.state ∧
          m.types.map (·.fullName) = ((declarations c.own).map (·.name)).eraseDups)
      (fun e => Prevents p fs e ∧ e.isOfRegistry = false) (p.extract fs settings (p.after {} calls)).1.1 := by
  have fails {e : Error} (h : Prevents p fs e) : Prevents p fs e ∧ e.isOfRegistry = false := ⟨h, h.not_ofRegistry⟩
  rcases extract_of_reached (reached p calls) fs settings with
    ⟨absent, eq⟩ | ⟨e, eq, root, own, entry, source, w, w', file⟩ | ⟨present, c, state, eq⟩
  · rw [eq]
    exact fails (.missing absent)
  · rw [eq]
    exact fails (.file root own entry source (ofFile_of_fails_readFile file))
  · have ends := Extraction.ends_result (c.reliable fs) present settings
    rw [eq]
    cases result : Extraction.result settings (some (c.state.provider p fs)) with
    | ok m =>
      rw [result] at ends
      obtain ⟨frozen, types, nodup⟩ := ends
      exact ⟨frozen, nodup, c, state, types.trans (Table.names_eq_eraseDups _)⟩
    | error e =>
      rw [result] at ends
      exact fails (.types ends)

/-- `A` is declared three times in the project and once in a library. -/
theorem extract_ends_layered : ∃ m, (layeredProject.extract layeredFiles {} (layeredProject.after {} [])).1.1 = .ok m ∧
    m.types.map (·.fullName) = ["A", "A.X", "A.Y"] ∧ m.isFrozen = true ∧ (m.entries.map (·.fullName)).Nodup := by
  have hx : (layeredProject.extract layeredFiles {} (layeredProject.after {} [])).1.1.toOption.map
      (fun m => m.types.map (·.fullName)) = some ["A", "A.X", "A.Y"] := by
    rw [after, extract_new rfl]
    cbv
  obtain ⟨m, h, hx⟩ := exists_ok_of_toOption hx
  have ends := extract_ends layeredProject [] layeredFiles {}
  rw [h] at ends
  exact ⟨m, h, hx, ends.1, ends.2.1⟩

end Project
end TypeAtlas
