import Mathlib
import TypeAtlas.Proofs.Extraction.Supertypes
import TypeAtlas.Proofs.Project.Loading

/-! The supertypes of a declaration by the search for inherited members and by the declaration's own
scope. The former reads their names without inherited members and the latter with them, so they agree
just where this makes no difference. -/

namespace TypeAtlas

/-- What the names of some signatures resolve to, without those that do not. -/
def known (resolve : String → Except Error (Option String)) (ws : List String) : Except Error (List String) := do
  let found ← ws.mapM resolve
  .ok (found.filterMap id)

theorem known_nil {f : String → Except Error (Option String)} : known f [] = .ok [] := rfl

theorem known_cons {f : String → Except Error (Option String)} {w : String} {ws names : List String} :
    known f (w :: ws) = .ok names ↔
      ∃ r rest, f w = .ok r ∧ known f ws = .ok rest ∧ names = r.toList ++ rest := by
  unfold known
  rw [List.mapM_cons]
  refine ⟨?_, ?_⟩
  · intro h
    obtain ⟨found, hf, h⟩ := bind_eq_ok.mp h
    obtain ⟨r, hr, hf⟩ := bind_eq_ok.mp hf
    obtain ⟨rest, hrest, hf⟩ := bind_eq_ok.mp hf
    cases hf
    cases h
    refine ⟨r, rest.filterMap id, hr, by rw [hrest]; rfl, ?_⟩
    cases r <;> rfl
  · rintro ⟨r, rest, hr, hrest, rfl⟩
    obtain ⟨found, hf, h⟩ := bind_eq_ok.mp hrest
    cases h
    rw [hr, hf]
    cases r <;> rfl

variable {f g : String → Except Error (Option String)} {ws : List String}

/-- The second reading resolves what the first one does. -/
def Widens (f g : String → Except Error (Option String)) : Prop :=
  ∀ ⦃w r r'⦄, f w = .ok (some r) → g w = .ok r' → r'.isSome

theorem Widens.length_le (hfg : Widens f g) : ∀ {names names' : List String},
    known f ws = .ok names → known g ws = .ok names' → names.length ≤ names'.length := by
  induction ws with
  | nil =>
    intro names names' h h'
    cases h
    exact Nat.zero_le _
  | cons w ws ih =>
    intro names names' h h'
    obtain ⟨r, rest, hr, hrest, rfl⟩ := known_cons.mp h
    obtain ⟨r', rest', hr', hrest', rfl⟩ := known_cons.mp h'
    have := ih hrest hrest'
    cases r with
    | none => simp; omega
    | some r =>
      obtain ⟨x, rfl⟩ := Option.isSome_iff_exists.mp (hfg hr hr')
      simpa using this

/-- A wider reading gives the same names just in case it reads every signature alike. -/
theorem Widens.known_eq_iff (hfg : Widens f g) : ∀ {names : List String}, known f ws = .ok names →
    (known g ws = .ok names ↔ ∀ w ∈ ws, g w = f w) := by
  induction ws with
  | nil =>
    intro names h
    simp [← h, known_nil]
  | cons w ws ih =>
    intro names h
    obtain ⟨r, rest, hr, hrest, rfl⟩ := known_cons.mp h
    rw [List.forall_mem_cons, ← ih hrest, known_cons, hr]
    refine ⟨?_, ?_⟩
    · rintro ⟨r', rest', hr', hrest', names⟩
      cases r with
      | some r =>
        obtain ⟨x, rfl⟩ := Option.isSome_iff_exists.mp (hfg hr hr')
        cases names
        exact ⟨hr', hrest'⟩
      | none =>
        cases r' with
        | none =>
          cases names
          exact ⟨hr', hrest'⟩
        | some x =>
          -- one name more here would have to be one less in the rest
          have := hfg.length_le hrest hrest'
          have := congrArg List.length names
          simp at this
          omega
    · rintro ⟨hr', hrest'⟩
      exact ⟨r, rest, hr', hrest', rfl⟩

theorem known_of_known (hfg : ∀ w r', g w = .ok r' → ∃ r, f w = .ok r) : ∀ {names' : List String},
    known g ws = .ok names' → ∃ names, known f ws = .ok names := by
  induction ws with
  | nil => exact fun _ => ⟨[], rfl⟩
  | cons w ws ih =>
    intro names' h
    obtain ⟨r', rest', hr', hrest', -⟩ := known_cons.mp h
    obtain ⟨r, hr⟩ := hfg w r' hr'
    obtain ⟨rest, hrest⟩ := ih hrest'
    exact ⟨_, known_cons.mpr ⟨r, rest, hr, hrest, rfl⟩⟩

/-- What the name in a signature means where the declaration stands. -/
def Provider.resolveSignature (p : Provider) (d : Declaration) (w : String) : Except Error (Option String) := do
  p.context d (← Resolution.signature w).element.simpleName

namespace Declaration

/-- Inherited member types make no difference to the name in a signature. -/
def Settles (d : Declaration) (ix : Index) (w : String) : Prop :=
  ∀ s sig, d.scope = some (.lexical s) → Signature.parse w = .ok sig →
    LexicalScope.isNameless (Text.erase sig.simpleName) ∨
      s.Settled ix (Text.headSegment (Text.erase sig.simpleName))

variable {d : Declaration} {s : LexicalScope} {ix : Index} {p : Provider} {w : String}

theorem supertype_eq (hs : d.scope = some (.lexical s)) :
    d.supertype ix w = Resolution.signature w >>= fun sig => s.resolveWith ix Inheritance.none sig.simpleName := by
  unfold supertype Resolution.signature
  simp only [hs, Scope.resolveWith, LexicalScope.resolveWith, Text.erase_erase]

theorem resolveSignature_eq (hs : d.scope = some (.lexical s)) (hp : p.resolve = fun s n => s.resolve ix n true) :
    p.resolveSignature d w =
      Resolution.signature w >>= fun sig => s.resolveWith ix (inheritedMember ix) sig.simpleName := by
  unfold Provider.resolveSignature Provider.context Provider.contextOf
  simp only [hs, hp, Scope.resolve, Scope.resolveWith, LexicalScope.resolveWith, Signature.erase_element, if_true]

theorem widens_supertype (hs : d.scope = some (.lexical s)) (hp : p.resolve = fun s n => s.resolve ix n true) :
    Widens (d.supertype ix) (p.resolveSignature d) := by
  intro w r r' h h'
  rw [supertype_eq hs] at h
  rw [resolveSignature_eq hs hp] at h'
  obtain ⟨sig, hsig, h⟩ := bind_eq_ok.mp h
  obtain ⟨sig', hsig', h'⟩ := bind_eq_ok.mp h'
  cases hsig.symm.trans hsig'
  exact LexicalScope.isSome_of_resolveWith h h'

theorem resolveSignature_eq_iff (hs : d.scope = some (.lexical s)) (hp : p.resolve = fun s n => s.resolve ix n true) :
    p.resolveSignature d w = d.supertype ix w ↔ d.Settles ix w := by
  rw [supertype_eq hs, resolveSignature_eq hs hp]
  unfold Settles Resolution.signature
  cases hw : Signature.parse w with
  | error e => simp [Except.mapError, bind, Except.bind]
  | ok sig =>
    simp only [Except.mapError, bind, Except.bind]
    rw [LexicalScope.resolveWith_eq_iff]
    refine ⟨?_, ?_⟩
    · intro h s' sig' hs' hsig'
      cases hs.symm.trans hs'
      cases hsig'
      exact h
    · intro h
      exact h s sig hs rfl

end Declaration

def Declaration.supertypeSignatures (d : Declaration) : List String := d.superclass.toList ++ d.interfaces

/-- The two views of a declaration's supertypes: those that the search for inherited members follows, and
what the declaration's scope makes of the names in their signatures. -/
structure SupertypeViews (q : Provider) (d : Declaration) : Prop where
  /-- Only a signature that cannot be read leaves a declaration without followed supertypes. -/
  followed : ∀ names', known (q.resolveSignature d) d.supertypeSignatures = .ok names' →
    ∃ names, d.supertypes q.find? = .ok names
  agree_iff : ∀ names, d.supertypes q.find? = .ok names →
    (known (q.resolveSignature d) d.supertypeSignatures = .ok names ↔
      ∀ w ∈ d.supertypeSignatures, d.Settles q.find? w)
  /-- What a signature's name means is the name by which the exception lineage goes on. -/
  named : ∀ w name, q.resolveSignature d w = .ok (some name) →
    Resolution.qualifiedName (q.context d) w = .ok name
  superclass : ∀ (c : Classifier) (e : Entry) (s s' : Session), c.provider = q → Gives (c.classify d) s e s' →
    d.kind = .known .classType →
      d.superclass.mapM (Resolution.qualifiedName (q.context d)) = .ok (e.superclass?.map (·.fullName))
  interfaces : ∀ (c : Classifier) (e : Entry) (s s' : Session), c.provider = q → Gives (c.classify d) s e s' →
    d.interfaces.mapM (Resolution.qualifiedName (q.context d)) = .ok (e.interfaces.map (·.fullName))

/-- For every declaration of a project that has been read, the supertypes that are followed and those that
its scope names agree just in case inherited member types make no difference to any of their names; an
entry records the latter. -/
theorem Project.supertypeViews {p : Project} {fs : Files} {c : Catalogue} (hc : (p.load fs).outcome.1 = .ok c)
    {d : Declaration} (hd : d ∈ c.types ∨ d ∈ c.libraryTypes) : SupertypeViews (p.provider fs c) d := by
  obtain ⟨f, hf⟩ := p.opened_of_load hc hd
  obtain ⟨s, hs, hu⟩ := hf.scope_eq
  have written : d.writtenSupertypes = d.supertypeSignatures := by
    unfold Declaration.writtenSupertypes Declaration.supertypeSignatures
    cases h : d.superclass with
    | none => rfl
    | some w => simp [show w ≠ "" from fun hw => hf.superclass_ne (h.trans (congrArg some hw))]
  have supertypes : d.supertypes c.find? = known (d.supertype c.find?) d.supertypeSignatures := by
    rw [← written]
    rfl
  refine ⟨?followed, ?agree_iff, ?named, ?superclass, ?interfaces⟩
  case followed =>
    intro names' h
    refine supertypes ▸ known_of_known (fun w r' hw => ?_) h
    rw [Declaration.resolveSignature_eq hs rfl] at hw
    obtain ⟨sig, hsig, -⟩ := bind_eq_ok.mp hw
    rw [Declaration.supertype_eq hs, hsig]
    exact s.resolveWith_none c.find? sig.simpleName
  case agree_iff =>
    intro names h
    rw [(Declaration.widens_supertype hs rfl).known_eq_iff (supertypes ▸ h)]
    exact forall_congr' fun w => imp_congr_right fun _ => Declaration.resolveSignature_eq_iff hs rfl
  case named =>
    intro w name h
    have context (n : String) : (p.provider fs c).context d n = s.resolveWith c.find? (inheritedMember c.find?) n := by
      unfold Provider.context
      rw [hs]
      rfl
    obtain ⟨sig, hsig, hn⟩ := bind_eq_ok.mp h
    have ne : name ≠ "" :=
      LexicalScope.ne_empty_of_resolveWith (hu ▸ Syntax.importsByName_unitOf f.root) ((context _).symm.trans hn)
    unfold Resolution.qualifiedName Resolution.fullName
    rw [hsig]
    simp [bind, Except.bind, hn, ne]
  case superclass =>
    rintro k e s s' hk h hd
    exact hk ▸ k.superclass_of_classify hd h
  case interfaces =>
    rintro k e s s' hk h
    exact hk ▸ k.interfaces_of_classify h

namespace Project

open Syntax

def typeNode (kind : NodeKind) (name : String) (header body : List Tree) : Tree :=
  ⟨kind, true, none, "", 1, ⟨.identifier, true, some "name", name, 1, []⟩ :: header ++
    [⟨.other "body", true, some "body", "", 1, body⟩]⟩

def clauseNode (kind : NodeKind) (name : String) : Tree :=
  ⟨kind, true, none, "", 1, [⟨.typeIdentifier, true, none, name, 1, []⟩]⟩

/-- `class B { interface L {} } class O extends B { class I implements L {} }`: in `I`, the name `L` means
`B.L`, which `O` inherits. -/
def nestedFile : ParsedFile where
  root := ⟨.other "program", true, none, "", 1, [
    typeNode .classDeclaration "B" [] [typeNode .interfaceDeclaration "L" [] []],
    typeNode .classDeclaration "O" [clauseNode .superclass "B"] [
      typeNode .classDeclaration "I" [clauseNode .superInterfaces "L"] []]]⟩

def nestedFiles : Files where
  isDirectory := fun _ => true
  below := fun _ => [⟨["A.java"], .parsed nestedFile⟩]
  writeFailure? := fun _ => none
  parser := .ofText

def nestedProject : Project where
  root := ⟨false, ["p"]⟩
  name := "p"

def nestedType : Declaration where
  name := "O.I"
  interfaces := ["QL;"]
  outer := some "O"
  scope := some (.lexical { enclosing := ["O.I", "O"] })
  sourceFile := some "p/A.java"

def nestedCatalogue : Catalogue where
  types := [
    { name := "B", scope := some (.lexical { enclosing := ["B"] }), sourceFile := some "p/A.java" },
    { name := "B.L", kind := .known .interfaceType, outer := some "B",
      scope := some (.lexical { enclosing := ["B.L", "B"] }), sourceFile := some "p/A.java" },
    { name := "O", superclass := some "QB;", scope := some (.lexical { enclosing := ["O"] }),
      sourceFile := some "p/A.java" },
    nestedType]
  libraryTypes := []

theorem supertypeViews_nestedType :
    (nestedProject.load nestedFiles).outcome.1 = .ok nestedCatalogue ∧ nestedType ∈ nestedCatalogue.types ∧
      SupertypeViews (nestedProject.provider nestedFiles nestedCatalogue) nestedType := by
  have load : (nestedProject.load nestedFiles).outcome.1 = .ok nestedCatalogue := by cbv
  have mem : nestedType ∈ nestedCatalogue.types := by simp [nestedCatalogue]
  exact ⟨load, mem, supertypeViews load (.inl mem)⟩

end Project
end TypeAtlas
