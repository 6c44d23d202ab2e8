import TypeAtlas.Proofs.Extraction.Closure
import TypeAtlas.Proofs.Lists

/-! Where the names of a model come from. The places of a declaration that are resolved become, one by one
and in this order, the data types of its entry, and the names written in them its names: so a name is
referred to exactly if it is what some written name stands for where it is written. -/

namespace TypeAtlas

/-! ### Written names -/

namespace Signature

mutual

/-- The type, and then those in the arguments of the innermost segment at any depth. -/
def TypeSig.nodes : TypeSig → List TypeSig
  | .primitive n p => [.primitive n p]
  | .typeVariable n x => [.typeVariable n x]
  | .reference n origin path => .reference n origin path :: path.nodes

def ClassPath.nodes : ClassPath → List TypeSig
  | .last _ as => nodesOfArguments as
  | .outer _ _ inner => inner.nodes

def nodesOfArguments : List Argument → List TypeSig
  | [] => []
  | a :: as => a.nodes ++ nodesOfArguments as

def Argument.nodes : Argument → List TypeSig
  | .unbounded => []
  | .exactly t => t.nodes
  | .upper t => t.nodes
  | .lower t => t.nodes

end

def TypeSig.written (t : TypeSig) : String := (Signature.type t).element.simpleName

def written : Signature → List String
  | .void => [Signature.void.simpleName]
  | .type t => t.nodes.map TypeSig.written

end Signature

namespace DataType

/-- The full names in a data type, `?` not among them. -/
def names (t : DataType) : List String := (t.nodes.filter (·.wildcard ≠ some .unbounded)).map (·.fullName)

theorem names_eq_cons {t : DataType} (h : t.wildcard ≠ some .unbounded) :
    t.names = t.fullName :: t.arguments.flatMap names := by
  rw [names, nodes_eq, List.filter_cons, if_pos (decide_eq_true h), List.map_cons, List.filter_flatMap, List.map_flatMap]
  rfl

theorem names_withWildcard {t : DataType} {w : Option Wildcard} (ht : t.wildcard = none) (hw : w ≠ some .unbounded) :
    names { t with wildcard := w } = t.names := by
  rw [names_eq_cons hw, names_eq_cons (by simp [ht])]

end DataType

open Extraction DataType

namespace Resolution

variable {limit : Int} {ctx : Context} {s s' : Session}

def StandsFor (ctx : Context) (written name : String) : Prop := fullName ctx written = .ok name

theorem StandsFor.unique {written a b : String} (h : StandsFor ctx written a) (h' : StandsFor ctx written b) : a = b :=
  Except.ok.inj (h.symm.trans h')

/-- A type whose name is that of the signature and whose arguments have these names. -/
theorem names_entered {t : Signature.TypeSig} {name : String} {dims : Nat} {arguments : List DataType}
    {ws : List String} (hn : StandsFor ctx t.written name)
    (ha : List.Forall₂ (StandsFor ctx) ws (arguments.flatMap names)) :
    List.Forall₂ (StandsFor ctx) (t.written :: ws) (names ⟨name, dims, arguments, none⟩) := by
  rw [names_eq_cons (by simp)]
  exact .cons hn ha

mutual

theorem names_resolveType : (t : Signature.TypeSig) → ∀ {depth s r s'}, Gives (resolveType limit ctx depth t) s r s' →
    r.wildcard = none ∧ List.Forall₂ (StandsFor ctx) (t.nodes.map (·.written)) r.names
  | .primitive n p => by
    intro h
    obtain ⟨name, s₁, hn, hp⟩ := gives_bind.mp h
    obtain ⟨rfl, -⟩ := gives_pure.mp hp
    exact ⟨rfl, names_entered (fullName_of_enter hn) .nil⟩
  | .typeVariable n x => by
    intro h
    obtain ⟨name, s₁, hn, hp⟩ := gives_bind.mp h
    obtain ⟨rfl, -⟩ := gives_pure.mp hp
    exact ⟨rfl, names_entered (fullName_of_enter hn) .nil⟩
  | .reference n origin path => by
    intro h
    obtain ⟨name, s₁, hn, h⟩ := gives_bind.mp h
    obtain ⟨arguments, s₂, ha, hp⟩ := gives_bind.mp h
    obtain ⟨rfl, -⟩ := gives_pure.mp hp
    exact ⟨rfl, names_entered (fullName_of_enter hn) (names_resolvePath path ha)⟩

theorem names_resolvePath : (path : Signature.ClassPath) → ∀ {depth s rs s'},
    Gives (resolvePath limit ctx depth path) s rs s' →
    List.Forall₂ (StandsFor ctx) (path.nodes.map (·.written)) (rs.flatMap names)
  | .last _ as => names_resolveArguments as
  | .outer _ _ inner => names_resolvePath inner

theorem names_resolveArguments : (as : List Signature.Argument) → ∀ {depth s rs s'},
    Gives (resolveArguments limit ctx depth as) s rs s' →
    List.Forall₂ (StandsFor ctx) ((Signature.nodesOfArguments as).map (·.written)) (rs.flatMap names)
  | [] => by
    intro h
    obtain ⟨rfl, -⟩ := gives_pure.mp h
    exact .nil
  | a :: as => by
    intro h
    obtain ⟨r, s₁, hr, h⟩ := gives_bind.mp h
    obtain ⟨rs, s₂, hrs, hp⟩ := gives_bind.mp h
    obtain ⟨rfl, -⟩ := gives_pure.mp hp
    rw [Signature.nodesOfArguments, List.map_append, List.flatMap_cons]
    exact List.rel_append (names_resolveArgument a hr) (names_resolveArguments as hrs)

theorem names_resolveArgument : (a : Signature.Argument) → ∀ {depth s r s'},
    Gives (resolveArgument limit ctx depth a) s r s' →
    List.Forall₂ (StandsFor ctx) (a.nodes.map (·.written)) r.names
  | .unbounded => by
    intro h
    obtain ⟨rfl, -⟩ := gives_pure.mp h
    exact .nil
  | .exactly t => fun h => (names_resolveType t h).2
  | .upper t => by
    intro h
    obtain ⟨r, s₁, hr, hp⟩ := gives_bind.mp h
    obtain ⟨rfl, -⟩ := gives_pure.mp hp
    obtain ⟨plain, names⟩ := names_resolveType t hr
    rwa [names_withWildcard plain (by simp)]
  | .lower t => by
    intro h
    obtain ⟨r, s₁, hr, hp⟩ := gives_bind.mp h
    obtain ⟨rfl, -⟩ := gives_pure.mp hp
    obtain ⟨plain, names⟩ := names_resolveType t hr
    rwa [names_withWildcard plain (by simp)]

end

theorem names_resolve {text : String} {t : DataType} (h : Gives (resolve limit ctx text) s t s') :
    ∃ sig, Signature.parse text = .ok sig ∧ List.Forall₂ (StandsFor ctx) sig.written t.names := by
  unfold resolve at h
  split at h
  · obtain ⟨_, _, h, -⟩ := gives_bind.mp h
    exact absurd h gives_throw
  · obtain ⟨sig, s₁, hs, h⟩ := gives_bind.mp h
    refine ⟨sig, mapError_eq_ok.mp (gives_except.mp hs).1, ?_⟩
    cases sig with
    | void =>
      obtain ⟨name, s₂, hn, hp⟩ := gives_bind.mp h
      obtain ⟨rfl, -⟩ := gives_pure.mp hp
      rw [names_eq_cons (by simp)]
      exact .cons (fullName_of_enter hn) .nil
    | type t => exact (names_resolveType t h).2

end Resolution

/-! ### The places of a declaration -/

/-- A type as a declaration has it, with the scope it is read in. -/
structure ScopedType where
  scope : Option Scope
  text : String

/-- What the method gives back, if it is no constructor and that is not void. -/
def MethodDecl.returned (m : MethodDecl) : List String :=
  if m.isConstructor || (Signature.parse m.returns).toOption.any (·.isVoid) then [] else [m.returns]

/-- The types of a method, in the order in which they are resolved. -/
def MethodDecl.texts (m : MethodDecl) : List String :=
  m.returned ++ m.typeParameters.flatMap (·.bounds) ++ m.parameters.map Resolution.parameterSignature ++ m.throws

namespace Declaration

/-- The superclass, which a class only has. -/
def extended (d : Declaration) : List String :=
  match d.kind with
  | .known .classType => d.superclass.toList
  | _ => []

/-- The places of a declaration that are resolved, in the order in which an entry has them. -/
def scopedTypes (d : Declaration) : List ScopedType :=
  (d.extended ++ d.typeParameters.flatMap (·.bounds) ++ (d.fields.filter (!·.isConstant)).map (·.signature)).map
    (⟨d.scope, ·⟩)
    ++ d.methods.flatMap (fun m => m.texts.map (⟨m.scope.or d.scope, ·⟩)) ++ d.interfaces.map (⟨d.scope, ·⟩)

end Declaration

namespace Classifier

variable {c : Classifier} {d : Declaration} {e : Entry} {s s' : Session}

def Resolves (c : Classifier) (u : ScopedType) (t : DataType) : Prop :=
  ∃ s s', Gives (Resolution.resolve c.limit (c.provider.contextOf u.scope) u.text) s t s'

abbrev ResolvesAll (c : Classifier) (scope : Option Scope) (texts : List String) (ts : List DataType) : Prop :=
  List.Forall₂ c.Resolves (texts.map (⟨scope, ·⟩)) ts

/-- Items that are resolved one after the other, each to some types. -/
theorem resolves_mapM {α β : Type} {scope : Option Scope} {f : α → Extraction β} {texts : α → List String}
    {types : β → List DataType} (hf : ∀ a s b s', Gives (f a) s b s' → c.ResolvesAll scope (texts a) (types b))
    {as : List α} {bs : List β} (h : Gives (as.mapM f) s bs s') :
    c.ResolvesAll scope (as.flatMap texts) (bs.flatMap types) := by
  induction as generalizing s bs with
  | nil =>
    obtain ⟨rfl, -⟩ := gives_mapM_nil.mp h
    exact .nil
  | cons a as ih =>
    obtain ⟨b, bs, s₁, hb, hbs, rfl⟩ := gives_mapM_cons.mp h
    rw [ResolvesAll, List.flatMap_cons, List.map_append, List.flatMap_cons]
    exact List.rel_append (hf a _ b _ hb) (ih hbs)

section

variable {scope : Option Scope}

theorem resolves_resolve {text : String} {t : DataType}
    (h : Gives (Resolution.resolve c.limit (c.provider.contextOf scope) text) s t s') : c.ResolvesAll scope [text] [t] :=
  .cons ⟨s, s', h⟩ .nil

/-- Items that are resolved one after the other, each to one type. -/
theorem resolves_each {α β : Type} {f : α → Extraction β} {text : α → String} {type : β → DataType}
    (hf : ∀ a s b s', Gives (f a) s b s' → c.ResolvesAll scope [text a] [type b]) {as : List α} {bs : List β}
    (h : Gives (as.mapM f) s bs s') : c.ResolvesAll scope (as.map text) (bs.map type) := by
  rw [List.map_eq_flatMap (l := as), List.map_eq_flatMap (l := bs)]
  exact resolves_mapM hf h

theorem resolves_texts {texts : List String} {ts : List DataType}
    (h : Gives (texts.mapM (Resolution.resolve c.limit (c.provider.contextOf scope))) s ts s') :
    c.ResolvesAll scope texts ts := by
  have resolved : c.ResolvesAll scope (texts.map id) (ts.map id) := resolves_each (fun _ _ _ _ => resolves_resolve) h
  rwa [List.map_id, List.map_id] at resolved

theorem resolves_typeParameters {ps : List TypeParameterDecl} {ts : List TypeParameter}
    (h : Gives (ps.mapM (Resolution.typeParameter c.limit (c.provider.contextOf scope))) s ts s') :
    c.ResolvesAll scope (ps.flatMap (·.bounds)) (ts.flatMap (·.dataTypes)) := by
  refine resolves_mapM (fun p s t s' h => ?_) h
  obtain ⟨bounds, s₁, hb, hp⟩ := gives_bind.mp h
  obtain ⟨rfl, -⟩ := gives_pure.mp hp
  exact resolves_texts hb

theorem resolves_parameters {ps : List ParameterDecl} {ts : List Parameter}
    (h : Gives (ps.mapM (Resolution.parameter c.limit (c.provider.contextOf scope))) s ts s') :
    c.ResolvesAll scope (ps.map Resolution.parameterSignature) (ts.map (·.dataType)) := by
  refine resolves_each (fun p s t s' h => ?_) h
  obtain ⟨t, s₁, ht, hp⟩ := gives_bind.mp h
  obtain ⟨rfl, -⟩ := gives_pure.mp hp
  exact resolves_resolve ht

theorem resolves_fields {fs : List FieldDecl} {ts : List Attribute}
    (h : Gives (fs.mapM (Resolution.fieldAttribute c.limit (c.provider.contextOf scope))) s ts s') :
    c.ResolvesAll scope (fs.map (·.signature)) (ts.map (·.dataType)) := by
  refine resolves_each (fun f s t s' h => ?_) h
  obtain ⟨t, s₁, ht, hp⟩ := gives_bind.mp h
  obtain ⟨rfl, -⟩ := gives_pure.mp hp
  exact resolves_resolve ht

theorem resolves_returnType {m : MethodDecl} {t : Option DataType}
    (h : Gives (Resolution.returnType c.limit (c.provider.contextOf scope) m) s t s') :
    c.ResolvesAll scope m.returned t.toList := by
  unfold Resolution.returnType at h
  unfold MethodDecl.returned
  split at h
  · rename_i constructor
    obtain ⟨rfl, -⟩ := gives_pure.mp h
    rw [constructor, Bool.true_or, if_pos rfl]
    exact .nil
  · rename_i constructor
    obtain ⟨sig, s₁, hs, h⟩ := gives_bind.mp h
    have parsed : Signature.parse m.returns = .ok sig := mapError_eq_ok.mp (gives_except.mp hs).1
    rw [Bool.not_eq_true] at constructor
    rw [parsed, constructor]
    split at h
    · rename_i void
      obtain ⟨rfl, -⟩ := gives_pure.mp h
      rw [if_pos (by simpa [Except.toOption] using void)]
      exact .nil
    · rename_i void
      obtain ⟨t, s₂, ht, hp⟩ := gives_bind.mp h
      obtain ⟨rfl, -⟩ := gives_pure.mp hp
      rw [if_neg (by simpa [Except.toOption] using void)]
      exact resolves_resolve ht

end

theorem resolves_variant {v : Variant} (h : Gives (c.variant d) s v s') :
    c.ResolvesAll d.scope d.extended (Entry.superclass? { fullName := d.name, variant := v }).toList := by
  unfold variant at h
  unfold Declaration.extended
  split at h
  · rename_i kind
    obtain ⟨throwable, s₁, -, h⟩ := gives_bind.mp h
    obtain ⟨superclass, s₂, hs, hp⟩ := gives_bind.mp h
    obtain ⟨rfl, -⟩ := gives_pure.mp hp
    rw [kind]
    rcases gives_option_mapM.mp hs with ⟨none, rfl, -⟩ | ⟨text, t, some, rfl, ht⟩
    · rw [none]
      exact .nil
    · rw [some]
      exact resolves_resolve ht
  · rename_i kind
    obtain ⟨rfl, -⟩ := gives_pure.mp h
    rw [kind]
    exact .nil
  · rename_i kind
    obtain ⟨rfl, -⟩ := gives_pure.mp h
    rw [kind]
    exact .nil
  · exact absurd h gives_throw

theorem resolves_method {m : MethodDecl} {r : Method} (h : Gives (c.method d m) s r s') :
    c.ResolvesAll (m.scope.or d.scope) m.texts r.dataTypes := by
  obtain ⟨returnType, s₁, hr, h⟩ := gives_bind.mp h
  obtain ⟨typeParameters, s₂, ht, h⟩ := gives_bind.mp h
  obtain ⟨parameters, s₃, hp, h⟩ := gives_bind.mp h
  obtain ⟨throws, s₄, hx, h⟩ := gives_bind.mp h
  obtain ⟨rfl, -⟩ := gives_pure.mp h
  rw [ResolvesAll, MethodDecl.texts, List.map_append, List.map_append, List.map_append]
  exact List.rel_append (List.rel_append (List.rel_append (resolves_returnType hr) (resolves_typeParameters ht))
    (resolves_parameters hp)) (resolves_texts hx)

theorem resolves_methods {ms : List MethodDecl} {rs : List Method} (h : Gives (ms.mapM (c.method d)) s rs s') :
    List.Forall₂ c.Resolves (ms.flatMap fun m => m.texts.map (⟨m.scope.or d.scope, ·⟩)) (rs.flatMap (·.dataTypes)) := by
  induction ms generalizing s rs with
  | nil =>
    obtain ⟨rfl, -⟩ := gives_mapM_nil.mp h
    exact .nil
  | cons m ms ih =>
    obtain ⟨r, rs, s₁, hr, hrs, rfl⟩ := gives_mapM_cons.mp h
    rw [List.flatMap_cons, List.flatMap_cons]
    exact List.rel_append (resolves_method hr) (ih hrs)

/-- The places of a declaration and the data types of its entry, one for one. -/
theorem Classified.resolves (h : c.Classified d e) : List.Forall₂ c.Resolves d.scopedTypes e.dataTypes := by
  obtain ⟨s, s', h⟩ := h
  obtain ⟨variant, typeParameters, attributes, methods, interfaces, s₁, s₂, s₃, s₄, hv, ht, ha, hm, hi, rfl⟩ :=
    gives_classify.mp h
  rw [Declaration.scopedTypes, List.map_append, List.map_append]
  exact List.rel_append (List.rel_append (List.rel_append (List.rel_append (resolves_variant hv)
    (resolves_typeParameters ht)) (resolves_fields ha)) (resolves_methods hm)) (resolves_texts hi)

end Classifier

/-! ### The names of an entry -/

/-- A name as it is written in a declaration, with the scope it is read in. -/
structure Mention where
  scope : Option Scope
  written : String

def Mention.Names (p : Provider) (u : Mention) (n : String) : Prop :=
  Resolution.StandsFor (p.contextOf u.scope) u.written n

def ScopedType.mentions (u : ScopedType) : List Mention :=
  match Signature.parse u.text with
  | .ok sig => sig.written.map (⟨u.scope, ·⟩)
  | .error _ => []

def Declaration.mentions (d : Declaration) : List Mention := d.scopedTypes.flatMap ScopedType.mentions

def Entry.names (e : Entry) : List String := e.dataTypes.flatMap DataType.names

namespace Classifier

variable {c : Classifier} {d : Declaration} {e : Entry}

theorem Resolves.names {u : ScopedType} {t : DataType} (h : c.Resolves u t) :
    List.Forall₂ (Mention.Names c.provider) u.mentions t.names := by
  obtain ⟨s, s', h⟩ := h
  obtain ⟨sig, parsed, names⟩ := Resolution.names_resolve h
  rw [ScopedType.mentions, parsed]
  exact List.forall₂_map_left_iff.mpr names

theorem Classified.names (h : c.Classified d e) : List.Forall₂ (Mention.Names c.provider) d.mentions e.names := by
  exact List.rel_flatMap h.resolves fun _ _ hut => hut.names

end Classifier

/-- The types of a model refer to what is written in their declarations stands for, and to nothing else. -/
theorem Model.refersTo_iff {c : Classifier} {ds : List Declaration} {m : Model}
    (h : List.Forall₂ c.Classified ds m.types) (n : String) :
    m.RefersTo n ↔ ∃ d ∈ ds, ∃ u ∈ d.mentions, u.Names c.provider n := by
  have entries : m.RefersTo n ↔ ∃ e ∈ m.types, n ∈ e.names := by
    simp only [RefersTo, Entry.names, DataType.names, List.mem_flatMap, List.mem_map, List.mem_filter,
      decide_eq_true_eq, and_assoc]
  rw [entries]
  refine ⟨?_, ?_⟩
  · rintro ⟨e, he, hn⟩
    obtain ⟨d, hd, hde⟩ := exists_left_of_forall₂ h he
    obtain ⟨u, hu, names⟩ := exists_left_of_forall₂ hde.names hn
    exact ⟨d, hd, u, hu, names⟩
  · rintro ⟨d, hd, u, hu, names⟩
    obtain ⟨e, he, hde⟩ := exists_right_of_forall₂ h hd
    obtain ⟨k, hk, names'⟩ := exists_right_of_forall₂ hde.names hu
    exact ⟨e, he, names.unique names' ▸ hk⟩

end TypeAtlas
