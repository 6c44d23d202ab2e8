import TypeAtlas.Proofs.Extraction.Mentions
import TypeAtlas.Proofs.Syntax.Declarations

/-! What a name can resolve to. A scope puts a qualifier before a written name and never renames it: what a
name without dots becomes is around the name, imported under it or known, and a dotted name follows its first
segment. -/

namespace TypeAtlas

/-- The name itself, or a member of this name. -/
def Qualifies (name r : String) : Prop := r = name ∨ ∃ q, r = q ++ "." ++ name

namespace Qualifies

variable {name r : String}

theorem member (owner name : String) : Qualifies name (owner ++ "." ++ name) := .inr ⟨owner, rfl⟩

theorem qualify (owner name : String) : Qualifies name (Text.qualify owner name) := by
  unfold Text.qualify
  split
  · exact .inl rfl
  · exact .member owner name

theorem simpleName (r : String) : Qualifies (Text.simpleName r) r := Text.eq_simpleName_or_member r

theorem simpleName_eq (h : Qualifies name r) : Text.simpleName r = Text.simpleName name := by
  rcases h with rfl | ⟨q, rfl⟩
  · rfl
  · exact Text.simpleName_member q name

theorem append (h : Qualifies name r) (rest : String) : Qualifies (name ++ "." ++ rest) (r ++ "." ++ rest) := by
  rcases h with rfl | ⟨q, rfl⟩
  · exact .inl rfl
  · exact .inr ⟨q, by simp only [String.append_assoc]⟩

theorem ne_empty (h : Qualifies name r) (ne : name ≠ "") : r ≠ "" := by
  rcases h with rfl | ⟨q, rfl⟩
  · exact ne
  · simp

end Qualifies

/-! ### Names without dots -/

variable {ix : Index} {inherited : Inheritance} {name r : String}

/-- Whatever is inherited is a known member of the name asked for. -/
def Inheritance.Known (ix : Index) (inherited : Inheritance) : Prop :=
  ∀ ⦃owner name member⦄, inherited owner name = .ok (some member) → KnownMember ix name member

theorem Inheritance.known_of_resolve (ix : Index) (inherits : Bool) :
    Inheritance.Known ix (if inherits then inheritedMember ix else Inheritance.none) := by
  intro owner name member h
  split at h
  · exact member_of_inheritedMember h
  · cases h

theorem memberOfFirst_known (known : inherited.Known ix) {owners : List String}
    (h : memberOfFirst ix inherited name owners = .ok (some r)) : KnownMember ix name r := by
  induction owners with
  | nil => cases h
  | cons owner owners ih =>
    unfold memberOfFirst at h
    split at h
    · rename_i declared
      cases h
      exact ⟨declared, owner, rfl⟩
    · obtain ⟨found, hf, h⟩ := bind_eq_ok.mp h
      cases found with
      | some member =>
        cases h
        exact known hf
      | none => exact ih h

theorem CompilationUnit.lookup_qualifies {u : CompilationUnit} (byName : u.ImportsByName)
    (h : u.lookup ix name = some r) :
    Qualifies name r ∧ ((name, r) ∈ u.singleImports ∨ ix.knows r = true) := by
  unfold lookup at h
  rcases Option.or_eq_some_iff.mp h with h | ⟨-, h⟩
  · have imported : (name, r) ∈ u.singleImports := by
      obtain ⟨before, after, hi, -⟩ := List.lookup_eq_some_iff.mp h
      simp [hi]
    have key : name = Text.simpleName r := byName (name, r) imported
    exact ⟨key ▸ .simpleName r, .inl imported⟩
  · have known : ix.knows r = true := by simpa using List.find?_some h
    refine ⟨?_, .inr known⟩
    rcases List.mem_cons.mp (List.mem_of_find?_eq_some h) with rfl | h
    · exact .qualify u.package name
    · obtain ⟨package, -, rfl⟩ := List.mem_map.mp h
      exact .member package name

namespace LexicalScope

variable {s : LexicalScope}

/-- Where the meaning of a name without dots comes from: the types around it, a single import or the index. -/
def InSight (s : LexicalScope) (ix : Index) (name r : String) : Prop :=
  r ∈ s.enclosing ∨ (name, r) ∈ s.unit.singleImports ∨ ix.knows r = true

theorem resolveSimple_qualifies (byName : s.unit.ImportsByName) (known : inherited.Known ix)
    (h : s.resolveSimple ix inherited name = .ok (some r)) : Qualifies name r ∧ s.InSight ix name r := by
  unfold resolveSimple at h
  split at h
  · cases h
  · split at h
    · rename_i e he
      cases h
      have same : Text.simpleName r = name := by simpa using List.find?_some he
      exact ⟨same ▸ .simpleName r, .inl (List.mem_of_find?_eq_some he)⟩
    · obtain ⟨member, hm, h⟩ := bind_eq_ok.mp h
      cases member with
      | some m =>
        cases h
        obtain ⟨inIndex, o, rfl⟩ := memberOfFirst_known known hm
        exact ⟨.member o name, .inr (.inr inIndex)⟩
      | none =>
        obtain ⟨qualifies, found⟩ := CompilationUnit.lookup_qualifies byName (Except.ok.inj h)
        exact ⟨qualifies, .inr found⟩

/-! ### Names as written -/

/-- What a scope makes of a name `w` that is left without type arguments. The first segment of a dotted name means
what it means by itself, unless it is one of those that mean nothing. -/
structure Meaning (s : LexicalScope) (ix : Index) (inherited : Inheritance) (w r : String) : Prop where
  named : w ≠ ""
  qualifies : Qualifies w r
  plain : '.' ∉ w.toList → s.InSight ix w r
  dotted : '.' ∈ w.toList → r = w ∧ ix.knows w = true ∨ ∃ head rest x, w = head ++ "." ++ rest ∧ '.' ∉ head.toList ∧
    s.resolveSimple ix inherited head = .ok (some x) ∧ r = x ++ "." ++ rest ∧
    (isNameless head = false → s.resolveWith ix inherited head = .ok (some x))

theorem resolveWith_of_resolveSimple {head : String} {x : Option String} (erased : Text.erase head = head)
    (plain : '.' ∉ head.toList) (named : isNameless head = false) (h : s.resolveSimple ix inherited head = .ok x) :
    s.resolveWith ix inherited head = .ok x := by
  rw [resolveWith, erased, named, resolveErased, Text.afterHead?_of_dot_not_mem plain]
  exact h

theorem meaning_of_resolveWith (byName : s.unit.ImportsByName) (known : inherited.Known ix)
    (h : s.resolveWith ix inherited name = .ok (some r)) : s.Meaning ix inherited (Text.erase name) r := by
  simp only [resolveWith] at h
  split at h
  · cases h
  · rename_i nameless
    have named : Text.erase name ≠ "" := fun empty => nameless (by simp [isNameless, empty])
    unfold resolveErased at h
    split at h
    · rename_i plain
      obtain ⟨qualifies, inSight⟩ := resolveSimple_qualifies byName known h
      exact ⟨named, qualifies, fun _ => inSight, fun dot => absurd dot (Text.dot_not_mem_of_afterHead? plain)⟩
    · rename_i rest after
      have split := Text.eq_of_afterHead? after
      have dot : '.' ∈ (Text.erase name).toList := by
        rw [split]
        simp
      obtain ⟨head, hh, h⟩ := bind_eq_ok.mp h
      cases head with
      | some x =>
        cases h
        have longer := (resolveSimple_qualifies byName known hh).1.append rest
        rw [← split] at longer
        have plain := Text.dot_not_mem_headSegment (Text.erase name)
        refine ⟨named, longer, fun none => absurd dot none, fun _ => .inr ⟨_, rest, x, split, plain, hh, rfl, ?_⟩⟩
        exact fun named => resolveWith_of_resolveSimple (Text.erase_headSegment_erase name) plain named hh
      | none =>
        dsimp only at h
        split at h
        · rename_i inIndex
          cases h
          exact ⟨named, .inl rfl, fun none => absurd dot none, fun _ => .inl ⟨rfl, inIndex⟩⟩
        · cases h

end LexicalScope

/-! ### The scopes of a file -/

def Declaration.scopes (d : Declaration) : List Scope := d.scope.toList ++ d.methods.flatMap (·.scope.toList)

theorem Syntax.Opened.lexical {unit : CompilationUnit} {d : Declaration} (h : Opened unit d) {sc : Scope}
    (hsc : sc ∈ d.scopes) : ∃ s, sc = .lexical s ∧ s.unit = unit := by
  have within : ScopedIn unit (some sc) := by
    rcases List.mem_append.mp hsc with own | method
    · exact Option.mem_toList.mp own ▸ h.scope_eq
    · obtain ⟨m, hm, hsc⟩ := List.mem_flatMap.mp method
      exact Option.mem_toList.mp hsc ▸ h.methods_scoped m hm
  obtain ⟨s, eq, same⟩ := within
  exact ⟨s, Option.some.inj eq, same⟩

/-- A data type has the name that its written name resolves to. -/
theorem Resolution.StandsFor.eq_of_resolved {ctx : Context} {w n r : String} (h : StandsFor ctx w n)
    (resolved : ctx w = .ok (some r)) (named : r ≠ "") : n = r := by
  have same : fullName ctx w = .ok r := by
    rw [fullName, resolved]
    exact congrArg _ (if_neg named)
  exact h.unique same

/-- Every scope of a file only qualifies names. What it gives for a name ends in this name; without dots it is around
the name, imported under it or known, and with dots it is known itself or follows what the first segment stands for.
So a data type has the simple name that is written for it. -/
theorem resolve_qualifies {f : Syntax.ParsedFile} {path : Option String} {ds : List Declaration}
    {s s' : List Warning} (h : Gives (f.read path) s ds s') {d : Declaration} (hd : d ∈ ds) {sc : Scope}
    (hsc : sc ∈ d.scopes) (ix : Index) (inherits : Bool) :
    ∃ ls, sc = .lexical ls ∧ ls.unit = Syntax.unitOf f.root ∧
      (∀ name r, sc.resolve ix name inherits = .ok (some r) →
        ls.Meaning ix (if inherits then inheritedMember ix else Inheritance.none) (Text.erase name) r) ∧
      ∀ limit text session t session',
        Gives (Resolution.resolve limit (sc.resolve ix · inherits) text) session t session' →
        ∃ sig, Signature.parse text = .ok sig ∧ List.Forall₂ (fun w n =>
          ∀ r, sc.resolve ix w inherits = .ok (some r) →
            n = r ∧ Text.simpleName n = Text.simpleName (Text.erase w)) sig.written t.names := by
  obtain ⟨ls, rfl, unit⟩ := (Syntax.opened_of_mem_read h d hd).lexical hsc
  have meaning {name r : String} (resolved : (Scope.lexical ls).resolve ix name inherits = .ok (some r)) :
      ls.Meaning ix (if inherits then inheritedMember ix else Inheritance.none) (Text.erase name) r :=
    LexicalScope.meaning_of_resolveWith (unit ▸ Syntax.importsByName_unitOf f.root)
      (Inheritance.known_of_resolve ix inherits) resolved
  refine ⟨ls, rfl, unit, fun name r resolved => meaning resolved, fun limit text session t session' run => ?_⟩
  obtain ⟨sig, parsed, names⟩ := Resolution.names_resolve run
  refine ⟨sig, parsed, names.imp fun w n stands r resolved => ?_⟩
  have same := stands.eq_of_resolved resolved ((meaning resolved).qualifies.ne_empty (meaning resolved).named)
  exact ⟨same, same ▸ (meaning resolved).qualifies.simpleName_eq⟩

/-- `package p; import q.Map; class A {}` -/
def importingFile : Syntax.ParsedFile where
  root := ⟨.other "program", true, none, "", 1, [
    ⟨.packageDeclaration, true, none, "", 1, [⟨.identifier, true, none, "p", 1, []⟩]⟩,
    ⟨.importDeclaration, true, none, "", 1, [
      ⟨.scopedIdentifier, true, none, "", 1, [
        ⟨.identifier, true, some "scope", "q", 1, []⟩, ⟨.identifier, true, some "name", "Map", 1, []⟩]⟩]⟩,
    ⟨.classDeclaration, true, none, "", 1, [⟨.identifier, true, some "name", "A", 1, []⟩]⟩]⟩

def importingScope : LexicalScope where
  unit := { package := "p", singleImports := [("Map", "q.Map")] }
  enclosing := ["p.A"]

theorem resolve_qualifies_imported : ∃ ds s', Gives (importingFile.read none) [] ds s' ∧
    (∃ d ∈ ds, .lexical importingScope ∈ d.scopes) ∧
    importingScope.Meaning (Index.ofList []) (inheritedMember (Index.ofList [])) "Map.Entry" "q.Map.Entry" := by
  let d : Declaration := { name := "p.A", scope := some (.lexical importingScope) }
  have h : Gives (importingFile.read none) [] [d] [] := by cbv
  have inScopes : .lexical importingScope ∈ d.scopes := List.mem_cons_self
  have resolved : (Scope.lexical importingScope).resolve (Index.ofList []) "Map.Entry<K>" true =
      .ok (some "q.Map.Entry") := rfl
  have erased : Text.erase "Map.Entry<K>" = "Map.Entry" := by cbv
  obtain ⟨ls, eq, -, meaning, -⟩ := resolve_qualifies h List.mem_cons_self inScopes (Index.ofList []) true
  cases eq
  have entry := meaning "Map.Entry<K>" "q.Map.Entry" resolved
  rw [erased] at entry
  exact ⟨[d], [], h, ⟨d, List.mem_cons_self, inScopes⟩, entry⟩

end TypeAtlas
