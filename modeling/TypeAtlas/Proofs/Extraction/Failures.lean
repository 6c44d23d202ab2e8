import TypeAtlas.Proofs.Extraction.Invariance
import TypeAtlas.Proofs.Outcomes
import TypeAtlas.Proofs.Scope.Inheritance

/-! What an extraction can fail of. Types fail to resolve; a registry never refuses an entry whose types
come under different names and are of known kinds, and whose stubs come under the names they are looked up
by. -/

namespace TypeAtlas

/-- A type of a declaration cannot be resolved, or its superclasses go on too long. -/
inductive Error.OfTypes : Error → Prop
  | signature (text : String) (fault : Signature.Fault) : OfTypes (.signature text fault)
  | nestedArguments (text : String) (limit : Int) : OfTypes (.nestedArguments text limit)
  | longLineage (name : String) (limit : Nat) (superclass : Option String) :
      OfTypes (.longLineage name limit superclass)

/-! ### Names -/

/-- Fails of no more than types. -/
abbrev TypesOnly {α : Type} (x : Except Error α) : Prop := Ends (fun _ => True) Error.OfTypes x

variable {ix : Index} {inherited : Inheritance}

theorem typesOnly_signature {α : Type} (text : String) (x : Except Signature.Fault α) :
    TypesOnly (x.mapError (.signature text)) := by
  cases x with
  | ok a => exact trivial
  | error fault => exact .signature text fault

theorem typesOnly_of_eq_ok {α : Type} {x : Except Error α} (h : ∃ a, x = .ok a) : TypesOnly x := by
  obtain ⟨a, rfl⟩ := h
  exact trivial

theorem Scope.typesOnly_resolveWith_none (s : Scope) (ix : Index) (name : String) :
    TypesOnly (s.resolveWith ix Inheritance.none name) := by
  cases s with
  | lexical s => exact typesOnly_of_eq_ok (s.resolveWith_none ix name)
  | names table => exact trivial
  | exactNames table => exact trivial

namespace Declaration

theorem typesOnly_supertype (d : Declaration) (ix : Index) (w : String) : TypesOnly (d.supertype ix w) := by
  unfold supertype
  refine (typesOnly_signature w _).bind fun sig _ => ?_
  dsimp only
  split
  · exact trivial
  · exact Scope.typesOnly_resolveWith_none _ ix _

theorem typesOnly_supertypes (d : Declaration) (ix : Index) : TypesOnly (d.supertypes ix) := by
  have each : Ends (List.Forall₂ (fun _ _ => True) d.writtenSupertypes) Error.OfTypes
      (d.writtenSupertypes.mapM (d.supertype ix)) :=
    .mapM _ fun w _ => d.typesOnly_supertype ix w
  exact each.bind fun _ _ => trivial

end Declaration

theorem typesOnly_searchTypes {name : String} {search : Search} (hs : ∀ visited owner, TypesOnly (search visited owner))
    (owners : List String) (visited : List String) : TypesOnly (searchTypes ix name search visited owners) := by
  induction owners generalizing visited with
  | nil => exact trivial
  | cons owner owners ih =>
    unfold searchTypes
    split
    · exact trivial
    · refine (hs visited owner).bind fun r _ => ?_
      obtain ⟨found, visited⟩ := r
      cases found with
      | some member => exact trivial
      | none => exact ih visited

theorem typesOnly_searchSupertypes (name : String) (levels : Nat) (visited : List String) (owner : String) :
    TypesOnly (searchSupertypes ix name levels visited owner) := by
  induction levels generalizing visited owner with
  | zero => exact trivial
  | succ levels ih =>
    unfold searchSupertypes
    split
    · exact trivial
    · split
      · exact trivial
      · rename_i d _ _
        exact (d.typesOnly_supertypes ix).bind fun supertypes _ => typesOnly_searchTypes ih supertypes _

theorem typesOnly_inheritedMember (owner name : String) : TypesOnly (inheritedMember ix owner name) :=
  (typesOnly_searchSupertypes name _ [] owner).bind fun _ _ => trivial

theorem typesOnly_memberOfFirst (hi : ∀ owner name, TypesOnly (inherited owner name)) (name : String)
    (owners : List String) : TypesOnly (memberOfFirst ix inherited name owners) := by
  induction owners with
  | nil => exact trivial
  | cons owner owners ih =>
    unfold memberOfFirst
    split
    · exact trivial
    · refine (hi owner name).bind fun found _ => ?_
      cases found with
      | some member => exact trivial
      | none => exact ih

namespace LexicalScope

theorem typesOnly_resolveSimple (hi : ∀ owner name, TypesOnly (inherited owner name)) (s : LexicalScope) (name : String) :
    TypesOnly (s.resolveSimple ix inherited name) := by
  unfold resolveSimple
  split
  · exact trivial
  · split
    · exact trivial
    · refine (typesOnly_memberOfFirst hi name _).bind fun found _ => ?_
      cases found with
      | some member => exact trivial
      | none => exact trivial

theorem typesOnly_resolveWith (hi : ∀ owner name, TypesOnly (inherited owner name)) (s : LexicalScope) (name : String) :
    TypesOnly (s.resolveWith ix inherited name) := by
  simp only [resolveWith]
  split
  · exact trivial
  · unfold resolveErased
    split
    · exact s.typesOnly_resolveSimple hi _
    · refine (s.typesOnly_resolveSimple hi _).bind fun head _ => ?_
      cases head with
      | some head => exact trivial
      | none => exact trivial

end LexicalScope

theorem Scope.typesOnly_resolve (s : Scope) (ix : Index) (name : String) : TypesOnly (s.resolve ix name true) := by
  cases s with
  | lexical s => exact s.typesOnly_resolveWith typesOnly_inheritedMember name
  | names table => exact trivial
  | exactNames table => exact trivial

/-! ### Types -/

open Extraction

abbrev FailsOfTypes {α : Type} (x : Extraction α) : Prop := Settles (fun _ => True) Error.OfTypes x

namespace Resolution

variable {limit : Int} {ctx : Context}

theorem typesOnly_fullName (hc : ∀ n, TypesOnly (ctx n)) (written : String) : TypesOnly (fullName ctx written) := by
  refine (hc written).bind fun found _ => ?_
  cases found with
  | some name => exact trivial
  | none => exact trivial

theorem typesOnly_qualifiedName (hc : ∀ n, TypesOnly (ctx n)) (text : String) : TypesOnly (qualifiedName ctx text) :=
  (typesOnly_signature text _).bind fun _ _ => typesOnly_fullName hc _

theorem failsOfTypes_enter (hc : ∀ n, TypesOnly (ctx n)) (depth : Nat) (sig : Signature) :
    FailsOfTypes (enter limit ctx depth sig) := by
  unfold enter
  split
  · exact .of_throw_bind (.nestedArguments _ _)
  · refine (Settles.of_except (typesOnly_fullName hc _)).bind fun name _ => ?_
    exact (Settles.of_modify _).bind fun _ _ => .of_pure trivial

mutual

theorem failsOfTypes_resolveType (hc : ∀ n, TypesOnly (ctx n)) (depth : Nat) :
    (t : Signature.TypeSig) → FailsOfTypes (resolveType limit ctx depth t)
  | .primitive _ _ => (failsOfTypes_enter hc _ _).bind fun _ _ => .of_pure trivial
  | .typeVariable _ _ => (failsOfTypes_enter hc _ _).bind fun _ _ => .of_pure trivial
  | .reference _ _ path => (failsOfTypes_enter hc _ _).bind fun _ _ =>
      (failsOfTypes_resolvePath hc depth path).bind fun _ _ => .of_pure trivial

theorem failsOfTypes_resolvePath (hc : ∀ n, TypesOnly (ctx n)) (depth : Nat) :
    (path : Signature.ClassPath) → FailsOfTypes (resolvePath limit ctx depth path)
  | .last _ as => failsOfTypes_resolveArguments hc depth as
  | .outer _ _ inner => failsOfTypes_resolvePath hc depth inner

theorem failsOfTypes_resolveArguments (hc : ∀ n, TypesOnly (ctx n)) (depth : Nat) :
    (as : List Signature.Argument) → FailsOfTypes (resolveArguments limit ctx depth as)
  | [] => .of_pure trivial
  | a :: as => (failsOfTypes_resolveArgument hc depth a).bind fun _ _ =>
      (failsOfTypes_resolveArguments hc depth as).bind fun _ _ => .of_pure trivial

theorem failsOfTypes_resolveArgument (hc : ∀ n, TypesOnly (ctx n)) (depth : Nat) :
    (a : Signature.Argument) → FailsOfTypes (resolveArgument limit ctx depth a)
  | .unbounded => .of_pure trivial
  | .exactly t => failsOfTypes_resolveType hc (depth + 1) t
  | .upper t => (failsOfTypes_resolveType hc (depth + 1) t).bind fun _ _ => .of_pure trivial
  | .lower t => (failsOfTypes_resolveType hc (depth + 1) t).bind fun _ _ => .of_pure trivial

end

variable (hc : ∀ n, TypesOnly (ctx n))

include hc

theorem failsOfTypes_resolve (text : String) : FailsOfTypes (resolve limit ctx text) := by
  unfold resolve
  split
  · exact .of_throw_bind (.nestedArguments _ _)
  · refine (Settles.of_except (typesOnly_signature text _)).bind fun sig _ => ?_
    cases sig with
    | void => exact (failsOfTypes_enter hc 0 .void).bind fun _ _ => .of_pure trivial
    | type t => exact failsOfTypes_resolveType hc 0 t

theorem failsOfTypes_returnType (m : MethodDecl) : FailsOfTypes (returnType limit ctx m) := by
  unfold returnType
  split
  · exact .of_pure trivial
  · refine (Settles.of_except (typesOnly_signature m.returns _)).bind fun sig _ => ?_
    split
    · exact .of_pure trivial
    · exact (failsOfTypes_resolve hc m.returns).bind fun _ _ => .of_pure trivial

theorem failsOfTypes_fieldAttribute (f : FieldDecl) : FailsOfTypes (fieldAttribute limit ctx f) :=
  (failsOfTypes_resolve hc f.signature).bind fun _ _ => .of_pure trivial

theorem failsOfTypes_parameter (p : ParameterDecl) : FailsOfTypes (parameter limit ctx p) :=
  (failsOfTypes_resolve hc (parameterSignature p)).bind fun _ _ => .of_pure trivial

theorem failsOfTypes_typeParameter (p : TypeParameterDecl) : FailsOfTypes (typeParameter limit ctx p) :=
  (Settles.mapM (failsOfTypes_resolve hc) p.bounds).bind fun _ _ => .of_pure trivial

end Resolution

/-! ### Entries -/

theorem Extraction.failsOfTypes_find (p : Provider) (name : String) : FailsOfTypes (find p name) :=
  (Settles.of_modify _).bind fun _ _ => .of_pure trivial

theorem Extraction.ofTypes_of_collect {α β : Type} {f : α → Extraction β} (hf : ∀ a, FailsOfTypes (f a)) {as : List α}
    {s : Session} {e : Error} (h : ((collect f as).run s).run.1.stopped = some e) : e.OfTypes := by
  induction as generalizing s with
  | nil => cases h
  | cons a as ih =>
    have first := hf a s
    unfold collect at h
    simp only [StateT.run_bind, Id.run_bind] at h
    rcases ha : ((f a).run.run s).run with ⟨r, s₁⟩
    rw [ha] at first h
    cases r with
    | error e' =>
      cases h
      exact first
    | ok b => exact ih h

namespace Classifier

variable {c : Classifier} {d : Declaration}

/-- All names that the provider resolves fail of no more than types. -/
def Resolving (c : Classifier) : Prop := ∀ s n, TypesOnly (c.provider.resolve s n)

variable (hc : c.Resolving)

include hc

theorem Resolving.contextOf (scope : Option Scope) (n : String) : TypesOnly (c.provider.contextOf scope n) := by
  cases scope with
  | none => exact trivial
  | some s => exact hc s n

theorem failsOfTypes_lineage (steps : Nat) (d : Declaration) : FailsOfTypes (c.lineage steps d) := by
  induction steps generalizing d with
  | zero => exact .of_pure trivial
  | succ steps ih =>
    unfold lineage
    split
    · exact .of_pure trivial
    · refine (Settles.of_except (Resolution.typesOnly_qualifiedName (hc.contextOf d.scope) _)).bind fun name _ => ?_
      split
      · exact .of_pure trivial
      · refine (failsOfTypes_find c.provider name).bind fun found _ => ?_
        cases found with
        | none => exact .of_pure trivial
        | some d => exact ih d

theorem failsOfTypes_isThrowable (d : Declaration) : FailsOfTypes (c.isThrowable d) := by
  refine (failsOfTypes_lineage hc _ d).bind fun found _ => ?_
  cases found with
  | none => exact .of_throw (.longLineage _ _ _)
  | some found => exact .of_pure trivial

theorem failsOfTypes_variant (known : ∃ kind, d.kind = .known kind) : FailsOfTypes (c.variant d) := by
  obtain ⟨kind, hk⟩ := known
  unfold variant
  rw [hk]
  cases kind with
  | classType =>
    refine (failsOfTypes_isThrowable hc d).bind fun _ _ => ?_
    exact (Settles.option_mapM (Resolution.failsOfTypes_resolve (hc.contextOf d.scope)) _).bind fun _ _ => .of_pure trivial
  | interfaceType => exact .of_pure trivial
  | enumType => exact .of_pure trivial

theorem failsOfTypes_method (d : Declaration) (m : MethodDecl) : FailsOfTypes (c.method d m) := by
  have context := hc.contextOf (m.scope.or d.scope)
  refine (Resolution.failsOfTypes_returnType context m).bind fun _ _ => ?_
  refine (Settles.mapM (Resolution.failsOfTypes_typeParameter context) _).bind fun _ _ => ?_
  refine (Settles.mapM (Resolution.failsOfTypes_parameter context) _).bind fun _ _ => ?_
  exact (Settles.mapM (Resolution.failsOfTypes_resolve context) _).bind fun _ _ => .of_pure trivial

theorem ofTypes_of_addMembers {d : Declaration} {e : Entry} {s : Session} {error : Error}
    (h : ((c.addMembers d e).run s).run.1.2 = some error) : error.OfTypes := by
  simp only [addMembers, addAttributes, addMethods, StateT.run_bind, Id.run_bind, StateT.run_pure, Id.run_pure] at h
  rcases ha : ((collect (Resolution.fieldAttribute c.limit (c.provider.context d))
    (d.fields.filter (!·.isConstant))).run s).run with ⟨⟨attributes, stopped⟩, s₁⟩
  rw [ha] at h
  cases stopped with
  | some error' =>
    cases h
    exact ofTypes_of_collect (Resolution.failsOfTypes_fieldAttribute (hc.contextOf d.scope)) (congrArg (·.1.stopped) ha)
  | none => exact ofTypes_of_collect (failsOfTypes_method hc d) h

theorem failsOfTypes_classify {d : Declaration} (known : ∃ kind, d.kind = .known kind) :
    FailsOfTypes (c.classify d) := by
  have context := hc.contextOf d.scope
  refine (failsOfTypes_variant hc known).bind fun _ _ => ?_
  refine (Settles.mapM (Resolution.failsOfTypes_typeParameter context) _).bind fun _ _ => ?_
  have members (e : Entry) : Settles (fun r => ∀ error, r.2 = some error → error.OfTypes) Error.OfTypes
      (ExceptT.lift (c.addMembers d e)) := .of_lift fun _ _ => ofTypes_of_addMembers hc
  refine (members _).bind fun ⟨e, stopped⟩ ofTypes => ?_
  cases stopped with
  | some error => exact .of_throw (ofTypes error rfl)
  | none => exact (Settles.mapM (Resolution.failsOfTypes_resolve context) _).bind fun _ _ => .of_pure trivial

/-! ### Models -/

/-- A type of a project is refused by no registry, whatever else is in the project, if its name is not in the
model and its kind is known. -/
theorem ofTypes_of_fails_addTypes {ds : List Declaration} {m : Model} {s s' : Session} {e : Error}
    (unfrozen : m.isFrozen = false) (nodup : (ds.map (·.name)).Nodup) (new : ∀ d ∈ ds, m.contains d.name = false)
    (known : ∀ d ∈ ds, ∃ kind, d.kind = .known kind) (h : Fails (c.addTypes ds m) s e s') : e.OfTypes := by
  induction ds generalizing m s with
  | nil => exact absurd h fails_pure
  | cons d ds ih =>
    obtain ⟨other, nodup⟩ := List.nodup_cons.mp nodup
    have unused := new d List.mem_cons_self
    rcases fails_bind.mp h with h | ⟨entry, s₁, he, h⟩
    · exact (failsOfTypes_classify hc (known d List.mem_cons_self)).bad_of_fails h
    have added : m.add entry = .ok { m with types := m.types ++ [entry] } := by
      rw [Model.add_eq_ok, fullName_of_classify he]
      exact ⟨unfrozen, unused, rfl⟩
    rcases fails_bind.mp h with h | ⟨m₁, s₂, hm, h⟩
    · cases added.symm.trans (fails_except.mp h).1
    · obtain rfl := Except.ok.inj (added.symm.trans (gives_except.mp hm).1)
      refine ih (m := { m with types := m.types ++ [entry] }) unfrozen nodup (fun d' hd' => ?_)
        (fun d' hd' => known d' (List.mem_cons_of_mem d hd')) h
      rw [Model.contains_append_type, new d' (List.mem_cons_of_mem d hd'), fullName_of_classify he, Bool.false_or]
      exact beq_false_of_ne fun same => other (List.mem_map.mpr ⟨d', hd', same.symm⟩)

theorem failsOfTypes_stub? (known : ∀ n d, c.provider.find? n = some d → ∃ kind, d.kind = .known kind) (n : String) :
    FailsOfTypes (c.stub? n) := by
  have found : Settles (fun r => ∀ d, r = some d → ∃ kind, d.kind = .known kind) Error.OfTypes (find c.provider n) :=
    (Settles.of_modify _).bind fun _ _ => .of_pure (known n)
  refine found.bind fun r known => ?_
  cases r with
  | none => exact .of_pure trivial
  | some d => exact (failsOfTypes_classify hc (known d rfl)).bind fun _ _ => .of_pure trivial

/-- Nor is a stub, if it is found by its own name. -/
theorem ofTypes_of_addStubs (named : ∀ n d, c.provider.find? n = some d → d.name = n)
    (known : ∀ n d, c.provider.find? n = some d → ∃ kind, d.kind = .known kind) {names : List String} {m m' : Model}
    {s s' : Session} {e : Error} (unfrozen : m.isFrozen = false)
    (h : ((c.addStubs names m).run s).run = ((m', .error e), s')) : e.OfTypes := by
  induction names generalizing m m' s s' e with
  | nil => cases h
  | cons n names ih =>
    unfold addStubs at h
    by_cases held : m.contains n = true
    · rw [if_pos held] at h
      exact ih unfrozen h
    rw [if_neg held] at h
    simp only [StateT.run_bind, Id.run_bind] at h
    rcases hr : ((c.stub? n).run.run s).run with ⟨r, s₁⟩
    rw [hr] at h
    rcases r with error | found
    · cases h
      exact (failsOfTypes_stub? hc known n).bad_of_fails hr
    rcases gives_stub? hr with ⟨-, rfl⟩ | ⟨d, entry, s₀, hf, rfl, he⟩
    · exact ih unfrozen h
    have name : entry.fullName = n := (fullName_of_classify he).trans (named n d hf)
    have added : m.addExternal entry = .ok { m with externals := m.externals ++ [entry] } :=
      Model.addExternal_eq_ok.mpr ⟨unfrozen, name ▸ Bool.not_eq_true _ ▸ held, rfl⟩
    dsimp only at h
    rw [added] at h
    simp only [StateT.run_bind, Id.run_bind] at h
    rcases rest : ((c.addStubs names { m with externals := m.externals ++ [entry] }).run s₁).run with ⟨⟨m₂, added⟩, s₂⟩
    rw [rest] at h
    rcases added with error | added
    · cases h
      exact ih (m := { m with externals := m.externals ++ [entry] }) unfrozen rest
    · cases h

end Classifier

namespace Extraction

variable {p : Provider} {settings : Settings} {ds : List Declaration}

/-- What a provider promises of the types it gives and finds. -/
structure Reliable (p : Provider) (ds : List Declaration) : Prop where
  types : p.types = .ok ds
  nodup : (ds.map (·.name)).Nodup
  declared : ∀ d ∈ ds, ∃ kind, d.kind = .known kind
  named : ∀ n d, p.find? n = some d → d.name = n
  known : ∀ n d, p.find? n = some d → ∃ kind, d.kind = .known kind
  resolves : ∀ s n, TypesOnly (p.resolve s n)

theorem ofTypes_of_fails_extract (h : Reliable p ds) (present : p.isPresent = true) {s s' : Session} {e : Error}
    (failed : Fails (extract settings (some p)) s e s') : e.OfTypes := by
  have resolving : (Classifier.ofSettings p settings).Resolving := h.resolves
  unfold extract ask at failed
  rcases fails_bind.mp failed with failed | ⟨_, s₁, -, failed⟩
  · exact absurd failed not_fails_modify
  simp only [present, Bool.not_true, Bool.false_eq_true, if_false] at failed
  rcases fails_bind.mp failed with failed | ⟨_, s₂, -, failed⟩
  · exact absurd failed not_fails_modify
  rcases fails_bind.mp failed with failed | ⟨ds', s₃, hds, failed⟩
  · cases h.types.symm.trans (fails_except.mp failed).1
  obtain rfl : ds = ds' := Except.ok.inj (h.types.symm.trans (gives_except.mp hds).1)
  rcases fails_bind.mp failed with failed | ⟨m, s₄, hm, failed⟩
  · exact Classifier.ofTypes_of_fails_addTypes resolving rfl h.nodup (fun _ _ => rfl) h.declared failed
  obtain ⟨es, rfl, -⟩ := Classifier.addTypes_entries hm
  split at failed
  · rcases fails_bind.mp failed with failed | ⟨t, s₅, -, failed⟩
    · cases failed
    rcases fails_bind.mp failed with failed | ⟨⟨m', r⟩, s₆, hl, failed⟩
    · cases failed
    cases r with
    | error e' =>
      cases failed
      exact Classifier.ofTypes_of_addStubs resolving h.named h.known rfl (gives_lift.mp hl)
    | ok added => exact absurd failed fails_pure
  · exact absurd failed fails_pure

/-- No name is in a model twice. -/
theorem nodup_entries {m : Model} (named : ∀ n d, p.find? n = some d → d.name = n)
    (h : result settings (some p) = .ok m) : (m.entries.map (·.fullName)).Nodup := by
  obtain ⟨-, -, -, nodup, -⟩ := result_sustained h
  rw [Model.entries, List.map_append]
  cases hw : settings.withExternals with
  | false =>
    rw [externals_of_without hw h, List.map_nil, List.append_nil]
    exact nodup
  | true =>
    obtain ⟨-, ascending, externals⟩ := externals_eq_references named hw h
    have distinct : (m.externals.map (·.fullName)).Nodup := ascending.imp fun less => String.ne_of_lt less
    refine List.nodup_append.mpr ⟨nodup, distinct, fun a ha b hb same => ?_⟩
    exact ((externals b).mp hb).2.2.1 (same ▸ ha)

/-- An extraction from a reliable provider fails of types only; else its model is frozen and holds all types of
the project. -/
theorem ends_result (h : Reliable p ds) (present : p.isPresent = true) (settings : Settings) :
    Ends (fun m => m.isFrozen = true ∧ m.types.map (·.fullName) = ds.map (·.name) ∧ (m.entries.map (·.fullName)).Nodup)
      Error.OfTypes (result settings (some p)) := by
  rcases gives_or_fails (extract settings (some p)) {} with ⟨m, s', gives⟩ | ⟨e, s', failed⟩
  · have ok : result settings (some p) = .ok m := result_eq_ok.mpr ⟨s', gives⟩
    obtain ⟨-, ds', m₁, s₁, hds, hm, hx⟩ := gives_extract_iff.mp gives
    obtain rfl : ds = ds' := Except.ok.inj (h.types.symm.trans hds)
    obtain ⟨es, rfl, names, -⟩ := Classifier.addTypes_entries hm
    have nodup := nodup_entries h.named ok
    rw [ok]
    rcases hx with ⟨-, rfl, -⟩ | ⟨-, m₂, added, hx, rfl⟩
    · exact ⟨rfl, names, nodup⟩
    · obtain ⟨stubs, rfl, -⟩ := Classifier.addStubs_names h.named (nodup_sortedNames _) hx
      exact ⟨rfl, names, nodup⟩
  · have error : result settings (some p) = .error e := congrArg (·.1) failed
    rw [error]
    exact ofTypes_of_fails_extract h present failed

end Extraction
end TypeAtlas
