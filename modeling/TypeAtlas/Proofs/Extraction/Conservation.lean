import TypeAtlas.Proofs.Extraction.Entries
import TypeAtlas.Proofs.Extraction.Limits
import TypeAtlas.Proofs.Extraction.Mentions

/-! What classification makes of a declaration, element by element. No work reads the session it has come to,
so an entry is put together from what each part of its declaration becomes by itself: there is one for exactly
the declarations whose parts all resolve, and nothing in it is lost, added or out of order. -/

namespace TypeAtlas

open Extraction

/-! ### Values -/

section

variable {α β : Type} {x : Extraction α} {a : α}

/-- What work gives, in whatever session it is done. -/
def HasValue (x : Extraction α) (a : α) : Prop := ∃ s s', Gives x s a s'

theorem HasValue.gives (h : HasValue x a) (steady : SustainedBy x x) (s : Session) : ∃ s', Gives x s a s' := by
  obtain ⟨s₁, s₂, h⟩ := h
  exact steady h s

theorem hasValue_pure {b : α} : HasValue (pure a) b ↔ a = b := by
  simp only [HasValue, gives_pure]
  exact ⟨fun ⟨_, _, h, _⟩ => h, fun h => ⟨{}, {}, h, rfl⟩⟩

theorem hasValue_except {x : Except Error α} : HasValue (liftM x) a ↔ x = .ok a := by
  simp only [HasValue, gives_except]
  exact ⟨fun ⟨_, _, h, _⟩ => h, fun h => ⟨{}, {}, h, rfl⟩⟩

theorem hasValue_throw {e : Error} : ¬ HasValue (throw e) a := by
  simp [HasValue, gives_throw]

theorem hasValue_bind {f : α → Extraction β} (steady : ∀ a, SustainedBy (f a) (f a)) {b : β} :
    HasValue (x >>= f) b ↔ ∃ a, HasValue x a ∧ HasValue (f a) b := by
  constructor
  · rintro ⟨s, s', h⟩
    obtain ⟨a, s₁, ha, hb⟩ := gives_bind.mp h
    exact ⟨a, ⟨s, s₁, ha⟩, s₁, s', hb⟩
  · rintro ⟨a, ⟨s, s₁, ha⟩, hb⟩
    obtain ⟨s', hb⟩ := hb.gives (steady a) s₁
    exact ⟨s, s', gives_bind.mpr ⟨a, s₁, ha, hb⟩⟩

/-- Work after which no more is done than to put its value into something else. -/
theorem hasValue_map {f : α → β} {b : β} :
    HasValue (do return f (← x)) b ↔ ∃ a, HasValue x a ∧ f a = b := by
  simp only [hasValue_bind fun _ => SustainedBy.of_pure _, hasValue_pure]

/-- Items that are worked on one after the other, each with the value that `part` says. -/
theorem hasValue_mapM {f : α → Extraction β} {part : α → β → Prop} (steady : ∀ a, SustainedBy (f a) (f a))
    (parts : ∀ {a b}, HasValue (f a) b ↔ part a b) {as : List α} {bs : List β} :
    HasValue (as.mapM f) bs ↔ List.Forall₂ part as bs := by
  induction as generalizing bs with
  | nil => simp [hasValue_pure, eq_comm]
  | cons a as ih =>
    rw [List.mapM_cons, hasValue_bind fun b => (SustainedBy.mapM steady as).bind fun bs => .of_pure (b :: bs)]
    simp only [hasValue_map, ih, parts, List.forall₂_cons_left_iff]
    constructor
    · rintro ⟨b, hb, bs, hbs, rfl⟩
      exact ⟨b, bs, hb, hbs, rfl⟩
    · rintro ⟨b, bs, hb, hbs, rfl⟩
      exact ⟨b, hb, bs, hbs, rfl⟩

theorem hasValue_option_mapM {f : α → Extraction β} {o : Option α} {r : Option β} :
    HasValue (o.mapM f) r ↔ Option.Rel (fun a b => HasValue (f a) b) o r := by
  cases o with
  | none =>
    rw [Option.mapM_none, hasValue_pure]
    constructor
    · rintro rfl
      exact .none
    · rintro ⟨⟩
      rfl
  | some a =>
    rw [Option.mapM_some, map_eq_pure_bind, hasValue_map]
    constructor
    · rintro ⟨b, hb, rfl⟩
      exact .some hb
    · rintro (⟨hb⟩ | _)
      exact ⟨_, hb, rfl⟩

end

/-! ### The parts of an entry -/

namespace Resolution

variable {limit : Int} {ctx : Context}

theorem steady_resolve (limit : Int) (ctx : Context) (text : String) :
    SustainedBy (resolve limit ctx text) (resolve limit ctx text) := sustained_resolve (Int.le_refl limit) ctx text

/-- A method gives nothing back if it is a constructor or says so, and else what its signature resolves to. -/
theorem hasValue_returnType {m : MethodDecl} {r : Option DataType} :
    HasValue (returnType limit ctx m) r ↔
      (m.isConstructor = true ∨ Signature.parse m.returns = .ok .void) ∧ r = none ∨
      ¬ (m.isConstructor = true ∨ Signature.parse m.returns = .ok .void) ∧
        ∃ t, HasValue (resolve limit ctx m.returns) t ∧ r = some t := by
  unfold returnType
  by_cases constructor : m.isConstructor = true
  · rw [if_pos constructor, hasValue_pure]
    simp only [constructor, true_or, true_and, not_true_eq_false, false_and, or_false, eq_comm]
  rw [if_neg constructor, hasValue_bind ?steady]
  case steady =>
    intro sig
    split
    · exact .of_pure none
    · exact (steady_resolve limit ctx m.returns).bind fun t => .of_pure (some t)
  simp only [hasValue_except, signature, mapError_eq_ok]
  cases parsed : Signature.parse m.returns with
  | error fault =>
    have unresolved (t : DataType) : ¬ HasValue (resolve limit ctx m.returns) t := by
      rintro ⟨s, s', h⟩
      obtain ⟨sig, ok, -⟩ := names_resolve h
      cases parsed.symm.trans ok
    simp [constructor, unresolved]
  | ok sig =>
    cases sig with
    | void => simp [Signature.isVoid, hasValue_pure, eq_comm (a := none)]
    | type t => simp [constructor, Signature.isVoid, hasValue_map, eq_comm (a := r), -bind_pure_comp]

end Resolution

namespace Classifier

open Resolution

structure TypeParameterOf (c : Classifier) (scope : Option Scope) (p : TypeParameterDecl) (q : TypeParameter) :
    Prop where
  identifier_eq : q.identifier = p.name
  bounds : c.ResolvesAll scope p.bounds q.bounds

structure ParameterOf (c : Classifier) (scope : Option Scope) (p : ParameterDecl) (q : Parameter) : Prop where
  identifier_eq : q.identifier = p.name
  dataType : c.Resolves ⟨scope, parameterSignature p⟩ q.dataType

structure AttributeOf (c : Classifier) (scope : Option Scope) (f : FieldDecl) (a : Attribute) : Prop where
  identifier_eq : a.identifier = f.name
  dataType : c.Resolves ⟨scope, f.signature⟩ a.dataType
  isStatic_eq : a.isStatic = f.modifiers.contains "static"
  isFinal_eq : a.isFinal = f.modifiers.contains "final"
  access_eq : a.access = .ofModifiers f.modifiers

/-- What a method gives back: nothing if it is a constructor or void. -/
inductive ReturnOf (c : Classifier) (scope : Option Scope) (m : MethodDecl) : Option DataType → Prop
  | constructed (constructor : m.isConstructor = true) : ReturnOf c scope m none
  | void (void : Signature.parse m.returns = .ok .void) : ReturnOf c scope m none
  | type (method : m.isConstructor = false) (type : Signature.parse m.returns ≠ .ok .void) {t : DataType}
      (resolves : c.Resolves ⟨scope, m.returns⟩ t) : ReturnOf c scope m (some t)

/-- A method, its types read in its own scope if it has one and else in that of its declaration. -/
structure MethodOf (c : Classifier) (d : Declaration) (m : MethodDecl) (r : Method) : Prop where
  fullName_eq : r.fullName = d.name ++ "." ++ m.name
  isConstructor_eq : r.isConstructor = m.isConstructor
  returns : c.ReturnOf (m.scope.or d.scope) m r.returnType
  typeParameters : List.Forall₂ (c.TypeParameterOf (m.scope.or d.scope)) m.typeParameters r.typeParameters
  parameters : List.Forall₂ (c.ParameterOf (m.scope.or d.scope)) m.parameters r.parameters
  throws : c.ResolvesAll (m.scope.or d.scope) m.throws r.throws
  isStatic_eq : r.isStatic = m.modifiers.contains "static"
  isAbstract_eq : r.isAbstract = m.modifiers.contains "abstract"
  access_eq : r.access = .ofModifiers m.modifiers

/-- The variant of the declared kind: a class with its flags and superclass, an interface, or an enum with its
constants in order. -/
inductive VariantOf (c : Classifier) (d : Declaration) : Variant → Prop
  | ofClass (kind : d.kind = .known .classType) {isThrowable : Bool} {superclass : Option DataType}
      (lineage : c.Descends c.settings.maxDepth d isThrowable)
      (resolves : Option.Rel (fun w t => c.Resolves ⟨d.scope, w⟩ t) d.superclass superclass) :
      VariantOf c d (.ofClass (d.modifiers.contains "abstract") isThrowable superclass)
  | ofInterface (kind : d.kind = .known .interfaceType) : VariantOf c d .ofInterface
  | ofEnum (kind : d.kind = .known .enumType) :
      VariantOf c d (.ofEnum ((d.fields.filter (·.isConstant)).map (·.name)))

/-- An entry with one part for each declared element, in order. Fields are attributes unless they are constants. -/
structure EntryOf (c : Classifier) (d : Declaration) (e : Entry) : Prop where
  fullName_eq : e.fullName = d.name
  outerType_eq : e.outerType = d.outer
  variant : c.VariantOf d e.variant
  typeParameters : List.Forall₂ (c.TypeParameterOf d.scope) d.typeParameters e.typeParameters
  attributes : List.Forall₂ (c.AttributeOf d.scope) (d.fields.filter (!·.isConstant)) e.attributes
  methods : List.Forall₂ (c.MethodOf d) d.methods e.methods
  interfaces : c.ResolvesAll d.scope d.interfaces e.interfaces

variable {c : Classifier} {d : Declaration} {scope : Option Scope}

theorem hasValue_texts {texts : List String} {ts : List DataType} :
    HasValue (texts.mapM (resolve c.limit (c.provider.contextOf scope))) ts ↔ c.ResolvesAll scope texts ts := by
  rw [hasValue_mapM (steady_resolve _ _) Iff.rfl, ResolvesAll, List.forall₂_map_left_iff]
  rfl

theorem typeParameterOf_iff {p : TypeParameterDecl} {q : TypeParameter} :
    HasValue (typeParameter c.limit (c.provider.contextOf scope) p) q ↔ c.TypeParameterOf scope p q := by
  rw [typeParameter, hasValue_map]
  constructor
  · rintro ⟨ts, bounds, rfl⟩
    exact ⟨rfl, hasValue_texts.mp bounds⟩
  · rintro ⟨identifier, bounds⟩
    exact ⟨q.bounds, hasValue_texts.mpr bounds, by rw [← identifier]⟩

theorem parameterOf_iff {p : ParameterDecl} {q : Parameter} :
    HasValue (parameter c.limit (c.provider.contextOf scope) p) q ↔ c.ParameterOf scope p q := by
  rw [parameter, hasValue_map]
  constructor
  · rintro ⟨t, resolves, rfl⟩
    exact ⟨rfl, resolves⟩
  · rintro ⟨identifier, resolves⟩
    exact ⟨q.dataType, resolves, by rw [← identifier]⟩

theorem attributeOf_iff {f : FieldDecl} {a : Attribute} :
    HasValue (fieldAttribute c.limit (c.provider.contextOf scope) f) a ↔ c.AttributeOf scope f a := by
  rw [fieldAttribute, hasValue_map]
  constructor
  · rintro ⟨t, resolves, rfl⟩
    exact ⟨rfl, resolves, rfl, rfl, rfl⟩
  · rintro ⟨identifier, resolves, isStatic, isFinal, access⟩
    exact ⟨a.dataType, resolves, by rw [← identifier, ← isStatic, ← isFinal, ← access]⟩

theorem returnOf_iff {m : MethodDecl} {r : Option DataType} :
    HasValue (returnType c.limit (c.provider.contextOf scope) m) r ↔ c.ReturnOf scope m r := by
  rw [hasValue_returnType]
  constructor
  · rintro (⟨constructor | void, rfl⟩ | ⟨returns, t, resolves, rfl⟩)
    · exact .constructed constructor
    · exact .void void
    · obtain ⟨method, type⟩ := not_or.mp returns
      exact .type (Bool.not_eq_true _ ▸ method) type resolves
  · rintro (constructor | void | ⟨method, type, resolves⟩)
    · exact .inl ⟨.inl constructor, rfl⟩
    · exact .inl ⟨.inr void, rfl⟩
    · exact .inr ⟨by simp [method, type], _, resolves, rfl⟩

theorem typeParametersOf_iff {ps : List TypeParameterDecl} {qs : List TypeParameter} :
    HasValue (ps.mapM (typeParameter c.limit (c.provider.contextOf scope))) qs ↔
      List.Forall₂ (c.TypeParameterOf scope) ps qs :=
  hasValue_mapM (sustained_typeParameter (Int.le_refl _) _) typeParameterOf_iff

theorem methodOf_iff {m : MethodDecl} {r : Method} : HasValue (c.method d m) r ↔ c.MethodOf d m r := by
  have parametersOf_iff {ps qs} : HasValue (ps.mapM (parameter c.limit (c.provider.methodContext d m))) qs ↔
      List.Forall₂ (c.ParameterOf (m.scope.or d.scope)) ps qs :=
    hasValue_mapM (sustained_parameter (Int.le_refl _) _) parameterOf_iff
  unfold Classifier.method
  constructor
  · rintro ⟨s, s', h⟩
    obtain ⟨returns, s₁, hr, h⟩ := gives_bind.mp h
    obtain ⟨typeParameters, s₂, ht, h⟩ := gives_bind.mp h
    obtain ⟨parameters, s₃, hp, h⟩ := gives_bind.mp h
    obtain ⟨throws, s₄, hx, h⟩ := gives_bind.mp h
    obtain ⟨rfl, -⟩ := gives_pure.mp h
    exact ⟨rfl, rfl, returnOf_iff.mp ⟨s, s₁, hr⟩, typeParametersOf_iff.mp ⟨s₁, s₂, ht⟩,
      parametersOf_iff.mp ⟨s₂, s₃, hp⟩, hasValue_texts.mp ⟨s₃, s₄, hx⟩, rfl, rfl, rfl⟩
  · rintro ⟨fullName, isConstructor, returns, typeParameters, parameters, throws, isStatic, isAbstract, access⟩
    obtain ⟨s₁, hr⟩ := (returnOf_iff.mpr returns).gives (sustained_returnType (Int.le_refl _) _ m) {}
    obtain ⟨s₂, ht⟩ := (typeParametersOf_iff.mpr typeParameters).gives
      (.mapM (sustained_typeParameter (Int.le_refl _) _) _) s₁
    obtain ⟨s₃, hp⟩ := (parametersOf_iff.mpr parameters).gives (.mapM (sustained_parameter (Int.le_refl _) _) _) s₂
    obtain ⟨s₄, hx⟩ := (hasValue_texts.mpr throws).gives (.mapM (steady_resolve _ _) _) s₃
    refine ⟨{}, s₄, ?_⟩
    refine gives_bind.mpr ⟨r.returnType, s₁, hr, gives_bind.mpr ⟨r.typeParameters, s₂, ht, ?_⟩⟩
    refine gives_bind.mpr ⟨r.parameters, s₃, hp, gives_bind.mpr ⟨r.throws, s₄, hx, gives_pure.mpr ⟨?_, rfl⟩⟩⟩
    rw [← fullName, ← isConstructor, ← isStatic, ← isAbstract, ← access]

theorem classVariant_iff {v : Variant} : HasValue (c.classVariant d) v ↔
    ∃ isThrowable superclass, c.Descends c.settings.maxDepth d isThrowable ∧
      Option.Rel (fun w t => c.Resolves ⟨d.scope, w⟩ t) d.superclass superclass ∧
      v = .ofClass (d.modifiers.contains "abstract") isThrowable superclass := by
  have lineage {found : Bool} : HasValue (c.isThrowable d) found ↔ c.Descends c.settings.maxDepth d found := by
    simp only [HasValue, gives_isThrowable]
    exact ⟨fun ⟨_, h⟩ => h, fun h => ⟨{}, h⟩⟩
  have steady := SustainedBy.option_mapM (steady_resolve c.limit (c.provider.context d)) d.superclass
  rw [classVariant, hasValue_bind fun _ => steady.bind fun _ => .of_pure _]
  simp only [hasValue_map, hasValue_option_mapM, lineage]
  constructor
  · rintro ⟨isThrowable, walk, superclass, resolves, rfl⟩
    exact ⟨isThrowable, superclass, walk, resolves, rfl⟩
  · rintro ⟨isThrowable, superclass, walk, resolves, rfl⟩
    exact ⟨isThrowable, walk, superclass, resolves, rfl⟩

theorem variantOf_iff {v : Variant} : HasValue (c.variant d) v ↔ c.VariantOf d v := by
  unfold Classifier.variant
  constructor
  · intro h
    split at h
    · rename_i kind
      obtain ⟨isThrowable, superclass, walk, resolves, rfl⟩ := classVariant_iff.mp h
      exact .ofClass kind walk resolves
    · rename_i kind
      rw [← hasValue_pure.mp h]
      exact .ofInterface kind
    · rename_i kind
      rw [← hasValue_pure.mp h]
      exact .ofEnum kind
    · exact absurd h hasValue_throw
  · rintro (⟨kind, walk, resolves⟩ | kind | kind)
    · rw [kind]
      exact classVariant_iff.mpr ⟨_, _, walk, resolves, rfl⟩
    · rw [kind]
      exact hasValue_pure.mpr rfl
    · rw [kind]
      exact hasValue_pure.mpr rfl

/-- What a declaration becomes is an entry with a part for each of its elements, and it becomes every such entry. -/
theorem entryOf_iff {e : Entry} : c.Classified d e ↔ c.EntryOf d e := by
  have attributesOf_iff {fs as} : HasValue (fs.mapM (fieldAttribute c.limit (c.provider.context d))) as ↔
      List.Forall₂ (c.AttributeOf d.scope) fs as :=
    hasValue_mapM (sustained_fieldAttribute (Int.le_refl _) _) attributeOf_iff
  have methodsOf_iff {ms rs} : HasValue (ms.mapM (c.method d)) rs ↔ List.Forall₂ (c.MethodOf d) ms rs :=
    hasValue_mapM (sustained_method (.refl c) d) methodOf_iff
  constructor
  · rintro ⟨s, s', h⟩
    obtain ⟨variant, typeParameters, attributes, methods, interfaces, s₁, s₂, s₃, s₄, hv, ht, ha, hm, hi, rfl⟩ :=
      gives_classify.mp h
    exact ⟨rfl, rfl, variantOf_iff.mp ⟨s, s₁, hv⟩, typeParametersOf_iff.mp ⟨s₁, s₂, ht⟩,
      attributesOf_iff.mp ⟨s₂, s₃, ha⟩, methodsOf_iff.mp ⟨s₃, s₄, hm⟩, hasValue_texts.mp ⟨s₄, s', hi⟩⟩
  · rintro ⟨fullName, outerType, variant, typeParameters, attributes, methods, interfaces⟩
    obtain ⟨s₁, hv⟩ := (variantOf_iff.mpr variant).gives (sustained_variant (.refl c) d) {}
    obtain ⟨s₂, ht⟩ := (typeParametersOf_iff.mpr typeParameters).gives
      (.mapM (sustained_typeParameter (Int.le_refl _) _) _) s₁
    obtain ⟨s₃, ha⟩ := (attributesOf_iff.mpr attributes).gives (.mapM (sustained_fieldAttribute (Int.le_refl _) _) _) s₂
    obtain ⟨s₄, hm⟩ := (methodsOf_iff.mpr methods).gives (.mapM (sustained_method (.refl c) d) _) s₃
    obtain ⟨s₅, hi⟩ := (hasValue_texts.mpr interfaces).gives (.mapM (steady_resolve _ _) _) s₄
    refine ⟨{}, s₅, gives_classify.mpr ⟨_, _, _, _, _, s₁, s₂, s₃, s₄, hv, ht, ha, hm, hi, ?_⟩⟩
    rw [← fullName, ← outerType]

/-! ### When there is an entry -/

/-- All that classification needs of a declaration: a known kind, a meaning for each type that is read in its
place, and of a class superclasses that come to an end. -/
structure Admits (c : Classifier) (d : Declaration) : Prop where
  kind : ∃ kind, d.kind = .known kind
  types : ∀ u ∈ d.scopedTypes, ∃ t, c.Resolves u t
  lineage : d.kind = .known .classType → ∃ isThrowable, c.Descends c.settings.maxDepth d isThrowable

theorem admits_of_classified {e : Entry} (h : c.Classified d e) : c.Admits d := by
  have variant := (entryOf_iff.mp h).variant
  generalize e.variant = v at variant
  refine ⟨?_, fun u hu => ?_, fun kind => ?_⟩
  · cases variant with
    | ofClass kind => exact ⟨_, kind⟩
    | ofInterface kind => exact ⟨_, kind⟩
    | ofEnum kind => exact ⟨_, kind⟩
  · obtain ⟨t, -, resolves⟩ := exists_right_of_forall₂ h.resolves hu
    exact ⟨t, resolves⟩
  · cases variant with
    | ofClass _ walk => exact ⟨_, walk⟩
    | ofInterface other => cases kind.symm.trans other
    | ofEnum other => cases kind.symm.trans other

theorem exists_resolvesAll {texts : List String} (h : ∀ w ∈ texts, ∃ t, c.Resolves ⟨scope, w⟩ t) :
    ∃ ts, c.ResolvesAll scope texts ts := by
  obtain ⟨ts, h⟩ := exists_forall₂ h
  exact ⟨ts, List.forall₂_map_left_iff.mpr h⟩

theorem exists_typeParameters {ps : List TypeParameterDecl}
    (h : ∀ p ∈ ps, ∀ w ∈ p.bounds, ∃ t, c.Resolves ⟨scope, w⟩ t) :
    ∃ qs, List.Forall₂ (c.TypeParameterOf scope) ps qs := by
  apply exists_forall₂
  intro p hp
  obtain ⟨ts, bounds⟩ := exists_resolvesAll (h p hp)
  exact ⟨⟨p.name, ts⟩, rfl, bounds⟩

theorem exists_returnOf {m : MethodDecl} (h : ∀ w ∈ m.returned, ∃ t, c.Resolves ⟨scope, w⟩ t) :
    ∃ r, c.ReturnOf scope m r := by
  by_cases constructor : m.isConstructor = true
  · exact ⟨none, .constructed constructor⟩
  by_cases void : Signature.parse m.returns = .ok .void
  · exact ⟨none, .void void⟩
  have returned : m.returns ∈ m.returned := by
    unfold MethodDecl.returned
    rcases parsed : Signature.parse m.returns with fault | _ | t
    · simp [constructor, Except.toOption]
    · exact absurd parsed void
    · simp [constructor, Except.toOption, Signature.isVoid]
  obtain ⟨t, resolves⟩ := h m.returns returned
  exact ⟨some t, .type (Bool.not_eq_true _ ▸ constructor) void resolves⟩

theorem exists_methodOf {m : MethodDecl} (h : ∀ w ∈ m.texts, ∃ t, c.Resolves ⟨m.scope.or d.scope, w⟩ t) :
    ∃ r, c.MethodOf d m r := by
  simp only [MethodDecl.texts, List.forall_mem_append, List.forall_mem_flatMap, List.forall_mem_map] at h
  obtain ⟨⟨⟨returns, bounds⟩, parameters⟩, throws⟩ := h
  obtain ⟨r, returns⟩ := exists_returnOf returns
  obtain ⟨typeParameters, bounds⟩ := exists_typeParameters bounds
  obtain ⟨throws', throws⟩ := exists_resolvesAll throws
  obtain ⟨parameters', parameters⟩ : ∃ qs, List.Forall₂ (c.ParameterOf (m.scope.or d.scope)) m.parameters qs := by
    apply exists_forall₂
    intro p hp
    obtain ⟨t, resolves⟩ := parameters p hp
    exact ⟨⟨p.name, t⟩, rfl, resolves⟩
  exact ⟨⟨_, r, _, parameters', throws', typeParameters, _, _, _⟩, rfl, rfl, returns, bounds, parameters, throws,
    rfl, rfl, rfl⟩

theorem exists_variantOf (h : c.Admits d) : ∃ v, c.VariantOf d v := by
  obtain ⟨kind, hk⟩ := h.kind
  cases kind with
  | interfaceType => exact ⟨_, .ofInterface hk⟩
  | enumType => exact ⟨_, .ofEnum hk⟩
  | classType =>
    obtain ⟨isThrowable, walk⟩ := h.lineage hk
    obtain ⟨superclass, resolves⟩ :
        ∃ superclass, Option.Rel (fun w t => c.Resolves ⟨d.scope, w⟩ t) d.superclass superclass := by
      cases hs : d.superclass with
      | none => exact ⟨none, .none⟩
      | some w =>
        obtain ⟨t, resolves⟩ := h.types ⟨d.scope, w⟩ (by simp [Declaration.scopedTypes, Declaration.extended, hk, hs])
        exact ⟨some t, .some resolves⟩
    exact ⟨_, .ofClass hk walk resolves⟩

theorem exists_entryOf (h : c.Admits d) : ∃ e, c.EntryOf d e := by
  obtain ⟨variant, hv⟩ := exists_variantOf h
  have types := h.types
  simp only [Declaration.scopedTypes, List.forall_mem_append, List.forall_mem_map, List.map_append,
    List.forall_mem_flatMap] at types
  obtain ⟨⟨⟨⟨-, bounds⟩, fields⟩, methods⟩, interfaces⟩ := types
  obtain ⟨typeParameters, ht⟩ := exists_typeParameters bounds
  obtain ⟨attributes, ha⟩ : ∃ as, List.Forall₂ (c.AttributeOf d.scope) (d.fields.filter (!·.isConstant)) as := by
    apply exists_forall₂
    intro f hf
    obtain ⟨t, resolves⟩ := fields f hf
    exact ⟨⟨f.name, t, _, _, _⟩, rfl, resolves, rfl, rfl, rfl⟩
  obtain ⟨methods', hm⟩ := exists_forall₂ fun m hm => exists_methodOf (d := d) (methods m hm)
  obtain ⟨interfaces', hi⟩ := exists_resolvesAll interfaces
  exact ⟨⟨_, _, typeParameters, interfaces', attributes, methods', variant⟩, rfl, rfl, hv, ht, ha, hm, hi⟩

end Classifier

/-! ### What plays no part -/

/-- Without the signature of a constant. -/
def FieldDecl.relevant (f : FieldDecl) : FieldDecl := if f.isConstant then { f with signature := "" } else f

theorem FieldDecl.relevant_of_not_isConstant {f : FieldDecl} (h : f.isConstant = false) : f.relevant = f :=
  if_neg (Bool.eq_false_iff.mp h)

@[simp] theorem FieldDecl.isConstant_relevant (f : FieldDecl) : f.relevant.isConstant = f.isConstant := by
  unfold relevant
  split <;> rfl

@[simp] theorem FieldDecl.name_relevant (f : FieldDecl) : f.relevant.name = f.name := by
  unfold relevant
  split <;> rfl

/-- Without the return signature of a constructor. -/
def MethodDecl.relevant (m : MethodDecl) : MethodDecl := if m.isConstructor then { m with returns := "" } else m

/-- Without the signatures that are passed over: those of constants, the return signatures of constructors and the
superclass of what is no class. -/
def Declaration.relevant (d : Declaration) : Declaration :=
  { d with
    superclass := if d.kind = .known .classType then d.superclass else none
    fields := d.fields.map (·.relevant)
    methods := d.methods.map (·.relevant) }

theorem Extraction.collect_map {α β γ : Type} (f : β → Extraction γ) (g : α → β) (as : List α) :
    collect f (as.map g) = collect (fun a => f (g a)) as := by
  induction as with
  | nil => rfl
  | cons a as ih => simp only [List.map_cons, collect, ih]

namespace Classifier

variable (c : Classifier) (d : Declaration)

theorem attributes_relevant : d.relevant.fields.filter (!·.isConstant) = d.fields.filter (!·.isConstant) := by
  change (d.fields.map (·.relevant)).filter _ = _
  induction d.fields with
  | nil => rfl
  | cons f fs ih =>
    simp only [List.map_cons, List.filter_cons, FieldDecl.isConstant_relevant, ih]
    split
    · rename_i kept
      rw [FieldDecl.relevant_of_not_isConstant (by simpa using kept)]
    · rfl

theorem constantNames_relevant : constantNames d.relevant = constantNames d := by
  change ((d.fields.map (·.relevant)).filter _).map _ = (d.fields.filter _).map _
  induction d.fields with
  | nil => rfl
  | cons f fs ih =>
    simp only [List.map_cons, List.filter_cons, FieldDecl.isConstant_relevant]
    split
    · rw [List.map_cons, List.map_cons, FieldDecl.name_relevant, ih]
    · exact ih

theorem method_relevant (m : MethodDecl) : c.method d.relevant m.relevant = c.method d m := by
  unfold MethodDecl.relevant
  split
  · rename_i constructor
    simp only [Classifier.method, Resolution.returnType, constructor]
    rfl
  · rfl

theorem lineage_relevant (kind : d.kind = .known .classType) (n : Nat) : c.lineage n d.relevant = c.lineage n d := by
  have superclass : d.relevant.superclass = d.superclass := if_pos kind
  cases n with
  | zero => rfl
  | succ n =>
    rw [lineage, lineage, superclass]
    rfl

theorem variant_relevant : c.variant d.relevant = c.variant d := by
  have kind_eq : d.relevant.kind = d.kind := rfl
  unfold Classifier.variant
  rw [kind_eq, constantNames_relevant]
  split
  · rename_i kind
    have superclass : d.relevant.superclass = d.superclass := if_pos kind
    rw [classVariant, classVariant, isThrowable, isThrowable, lineage_relevant c d kind, superclass]
    rfl
  all_goals rfl

/-- Neither the outcome nor the session depends on signatures that are passed over. -/
theorem classify_relevant : c.classify d.relevant = c.classify d := by
  have methods : collect (c.method d.relevant) d.relevant.methods = collect (c.method d) d.methods := by
    change collect _ (d.methods.map (·.relevant)) = _
    rw [collect_map]
    simp only [method_relevant]
  simp only [classify, addMembers, addAttributes, addMethods, variant_relevant, attributes_relevant, methods]
  rfl

/-! ### The whole of it -/

variable {d} in
theorem gives_classify_iff {e : Entry} (s : Session) : (∃ s', Gives (c.classify d) s e s') ↔ c.EntryOf d e := by
  rw [← entryOf_iff]
  constructor
  · exact fun ⟨s', h⟩ => ⟨s, s', h⟩
  · exact fun h => Classified.gives h s

variable {d} in
theorem exists_gives_classify_iff (s : Session) : (∃ e s', Gives (c.classify d) s e s') ↔ c.Admits d := by
  constructor
  · rintro ⟨e, s', h⟩
    exact admits_of_classified ⟨s, s', h⟩
  · intro h
    obtain ⟨e, he⟩ := exists_entryOf h
    exact ⟨e, (c.gives_classify_iff s).mpr he⟩

/-- A declaration has an entry exactly if its kind is known, each of its types has a meaning where it is read, and
the superclasses of a class come to an end; else classification fails. The entry has one part for each element of
the declaration, in order, and no other entry does; what it refers to is noted. Signatures that are passed over may
be anything. -/
theorem classify_exact (s : Session) :
    ((∃ e s', Gives (c.classify d) s e s') ↔ c.Admits d) ∧
    ((∃ error s', Fails (c.classify d) s error s') ↔ ¬ c.Admits d) ∧
    (∀ e, (∃ s', Gives (c.classify d) s e s') ↔ c.EntryOf d e) ∧
    (∀ e s', Gives (c.classify d) s e s' → Noted s e.references s') ∧
    (∀ d', d'.relevant = d.relevant → c.classify d' = c.classify d) := by
  have succeeds := c.exists_gives_classify_iff (d := d) s
  refine ⟨succeeds, ?_, fun e => c.gives_classify_iff s, fun e s' h => notes_classify c d h, fun d' same => ?_⟩
  · rw [← succeeds]
    constructor
    · rintro ⟨error, s₁, fails⟩ ⟨e, s₂, h⟩
      exact Gives.not_fails h fails
    · exact (gives_or_fails (c.classify d) s).resolve_left
  · rw [← c.classify_relevant d', same, c.classify_relevant d]

/-- An enum with a field, whose constant and superclass cannot be read. -/
theorem classify_exact_unreadable :
    ∃ (c : Classifier) (d : Declaration), d.superclass = some "nonsense" ∧
      d.fields = [⟨"RED", "nonsense", [], true⟩, ⟨"code", "I", [], false⟩] ∧ ∃ e s', Gives (c.classify d) {} e s' := by
  let c := ofSettings (.ofIndex "enum" [] (Index.ofList [])) {}
  let plain : Declaration :=
    { name := "p.Color", kind := .known .enumType, fields := [⟨"RED", "", [], true⟩, ⟨"code", "I", [], false⟩] }
  let d : Declaration :=
    { plain with superclass := some "nonsense", fields := [⟨"RED", "nonsense", [], true⟩, ⟨"code", "I", [], false⟩] }
  have admits : c.Admits plain := by
    refine ⟨⟨_, rfl⟩, fun u hu => ?_, nofun⟩
    obtain rfl : u = ⟨none, "I"⟩ := List.mem_singleton.mp hu
    exact ⟨_, {}, _, rfl⟩
  obtain ⟨succeeds, -, -, -, passedOver⟩ := classify_exact c plain {}
  have same := passedOver d rfl
  exact ⟨c, d, rfl, rfl, same ▸ succeeds.mpr admits⟩

end Classifier
end TypeAtlas
