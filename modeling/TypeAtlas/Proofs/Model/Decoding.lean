import TypeAtlas.Model.Serial
import TypeAtlas.Proofs.Lists

/-! Reading models back. Each part of a model has a decoder, which looks its fields up by their names; it gives back
what was encoded from every JSON value that equals the encoded one, in whatever order the fields of its objects stand.
So models whose serialized forms are equal have the same project, types and external types. -/

namespace TypeAtlas

namespace Json

/-! ### Equal values -/

/-- Equal as JSON values: the items of arrays one by one, the fields of objects by their keys. -/
inductive Same : Json → Json → Prop
  | null : Same .null .null
  | bool (b : Bool) : Same (.bool b) (.bool b)
  | int (n : Int) : Same (.int n) (.int n)
  | text (s : String) : Same (.text s) (.text s)
  | array {vs ws : List Json} (items : List.Forall₂ Same vs ws) : Same (.array vs) (.array ws)
  | object {fs gs : List (String × Json)} (fields : ∀ key, Option.Rel Same (fs.lookup key) (gs.lookup key)) :
    Same (.object fs) (.object gs)

namespace Same

mutual

theorem refl : (v : Json) → Same v v
  | .null => .null
  | .bool b => .bool b
  | .int n => .int n
  | .text s => .text s
  | .array vs => .array (refl_items vs)
  | .object fs => .object (refl_fields fs)

theorem refl_items : (vs : List Json) → List.Forall₂ Same vs vs
  | [] => .nil
  | v :: vs => .cons (refl v) (refl_items vs)

theorem refl_fields : (fs : List (String × Json)) → ∀ key, Option.Rel Same (fs.lookup key) (fs.lookup key)
  | [], _ => .none
  | (k, v) :: fs, key => by
    rw [List.lookup_cons]
    cases key == k with
    | true => exact .some (refl v)
    | false => exact refl_fields fs key

end

theorem eq_null {v : Json} (h : Same .null v) : v = .null := by
  cases h
  rfl

/-- The fields of an object may stand in any order. -/
theorem of_perm {fs gs : List (String × Json)} (perm : fs.Perm gs) (nodup : (gs.map (·.1)).Nodup) :
    Same (.object fs) (.object gs) := by
  refine .object fun key => ?_
  have found (fields : List (String × Json)) : fields.lookup key = (fields.find? (·.1 == key)).map (·.2) := by
    induction fields with
    | nil => rfl
    | cons f fields ih =>
      rw [List.lookup_cons, List.find?_cons, BEq.comm, ih]
      cases f.1 == key <;> rfl
  rw [found fs, find?_key_perm perm nodup, ← found gs]
  exact refl_fields gs key

end Same

/-! ### Decoders -/

section

variable {α : Type}

def text? : Json → Option String
  | .text s => some s
  | _ => none

def bool? : Json → Option Bool
  | .bool b => some b
  | _ => none

def int? : Json → Option Int
  | .int n => some n
  | _ => none

def word? (ofKeyword? : String → Option α) (v : Json) : Option α := v.text?.bind ofKeyword?

def list? (decode : Json → Option α) : Json → Option (List α)
  | .array items => items.mapM decode
  | _ => none

def optional? (decode : Json → Option α) : Json → Option (Option α)
  | .null => some none
  | v => (decode v).map some

def field? (key : String) : Json → Option Json
  | .object fields => fields.lookup key
  | _ => none

def read (v : Json) (key : String) (decode : Json → Option α) : Option α := (v.field? key).bind decode

end

/-! ### Decoders of encoded values -/

/-- What is encoded is decoded, from every JSON value that equals it. -/
def Reads {α : Type} (decode : Json → Option α) (encode : α → Json) : Prop :=
  ∀ ⦃a : α⦄ ⦃v : Json⦄, v.Same (encode a) → decode v = some a

section

variable {α : Type} {decode : Json → Option α} {encode : α → Json} {v : Json} {a : α}

theorem reads_text : Reads text? .text := by
  rintro s _ ⟨⟩
  rfl

theorem reads_bool : Reads bool? .bool := by
  rintro b _ ⟨⟩
  rfl

theorem reads_int : Reads int? .int := by
  rintro n _ ⟨⟩
  rfl

namespace Reads

theorem word {ofKeyword? : String → Option α} {keyword : α → String} (h : ∀ a, ofKeyword? (keyword a) = some a) :
    Reads (word? ofKeyword?) (fun a => .text (keyword a)) := by
  intro a v same
  rw [word?, reads_text same]
  exact h a

theorem mapM (h : Reads decode encode) {as : List α} {vs : List Json} (same : List.Forall₂ Same vs (as.map encode)) :
    vs.mapM decode = some as := by
  induction as generalizing vs with
  | nil =>
    cases same
    rfl
  | cons a as ih =>
    obtain ⟨v, vs, first, rest, rfl⟩ := List.forall₂_cons_right_iff.mp same
    rw [List.mapM_cons, h first, ih rest]
    rfl

theorem list (h : Reads decode encode) : Reads (list? decode) (fun as => .array (as.map encode)) := by
  rintro as _ (_ | _ | _ | _ | items)
  exact h.mapM items

theorem optional (h : Reads decode encode) (some_ne : ∀ a, encode a ≠ .null) :
    Reads (optional? decode) (ofOption encode) := by
  intro o v same
  cases o with
  | none =>
    cases same
    rfl
  | some a =>
    have decoded := h same
    cases v with
    | null => exact absurd same.eq_null (some_ne a)
    | _ => rw [optional?, decoded] <;> simp

end Reads

theorem Same.field? {fs : List (String × Json)} {key : String} {x : Json} (same : v.Same (.object fs))
    (found : fs.lookup key = some x) : ∃ w, v.field? key = some w ∧ w.Same x := by
  rcases same with _ | _ | _ | _ | _ | ⟨fields⟩
  rename_i gs
  have here := fields key
  rw [found] at here
  rw [Json.field?]
  generalize gs.lookup key = value at here
  cases here with
  | some equal => exact ⟨_, rfl, equal⟩

theorem Same.read {fs : List (String × Json)} {key : String} (same : v.Same (.object fs))
    (found : fs.lookup key = some (encode a)) (h : Reads decode encode) : v.read key decode = some a := by
  obtain ⟨w, at_key, equal⟩ := same.field? found
  rw [Json.read, at_key]
  exact h equal

end

end Json

open Json

/-! ### Reading the parts of a model -/

def Wildcard.ofJson? : Json → Option Wildcard := word? ofKeyword?

theorem reads_wildcard : Reads Wildcard.ofJson? Wildcard.toJson :=
  .word fun w => by cases w <;> rfl

namespace DataType

mutual

def ofJson? : Json → Option DataType
  | .object fields => do
    let fullName ← (fields.lookup "full_name").bind text?
    let arrayCount ← (fields.lookup "array_count").bind int?
    let arguments ← argumentsIn? "generic_arguments" fields
    let wildcard ← (fields.lookup "wildcard").bind (optional? Wildcard.ofJson?)
    return ⟨fullName, arrayCount, arguments, wildcard⟩
  | _ => none

def argumentsIn? (wanted : String) : List (String × Json) → Option (List DataType)
  | [] => none
  | (key, v) :: fields => if wanted == key then argumentsOf? v else argumentsIn? wanted fields

def argumentsOf? : Json → Option (List DataType)
  | .array items => allOfJson? items
  | _ => none

def allOfJson? : List Json → Option (List DataType)
  | [] => some []
  | v :: vs => do
    let t ← ofJson? v
    let ts ← allOfJson? vs
    return t :: ts

end

theorem allOfJson?_eq (vs : List Json) : allOfJson? vs = vs.mapM ofJson? := by
  induction vs with
  | nil => rfl
  | cons v vs ih =>
    rw [allOfJson?, List.mapM_cons, ih]

theorem argumentsIn?_eq (wanted : String) (fields : List (String × Json)) :
    argumentsIn? wanted fields = (fields.lookup wanted).bind (list? ofJson?) := by
  induction fields with
  | nil => rfl
  | cons f fields ih =>
    obtain ⟨key, v⟩ := f
    rw [argumentsIn?, List.lookup_cons, ih]
    cases wanted == key with
    | true => cases v <;> simp [argumentsOf?, list?, allOfJson?_eq]
    | false => rfl

/-- The decoder of data types by the names of its fields. -/
theorem ofJson?_eq (v : Json) : ofJson? v = do
    let fullName ← v.read "full_name" text?
    let arrayCount ← v.read "array_count" int?
    let arguments ← v.read "generic_arguments" (list? ofJson?)
    let wildcard ← v.read "wildcard" (optional? Wildcard.ofJson?)
    return ⟨fullName, arrayCount, arguments, wildcard⟩ := by
  cases v with
  | object fields => rw [ofJson?, argumentsIn?_eq]; rfl
  | _ => rfl

mutual

theorem reads : (t : DataType) → ∀ {v : Json}, v.Same t.toJson → ofJson? v = some t
  | ⟨name, dims, arguments, wildcard⟩, v, same => by
    rw [toJson] at same
    have fullName : v.read "full_name" text? = some name := same.read rfl reads_text
    have arrayCount : v.read "array_count" int? = some dims := same.read rfl reads_int
    have mark : v.read "wildcard" (optional? Wildcard.ofJson?) = some wildcard :=
      same.read rfl (reads_wildcard.optional nofun)
    obtain ⟨w, present, equal⟩ : ∃ w, v.field? "generic_arguments" = some w ∧ w.Same (.array (toJsonAll arguments)) :=
      same.field? rfl
    have inner : v.read "generic_arguments" (list? ofJson?) = some arguments := by
      rw [Json.read, present]
      cases equal with
      | array items => exact reads_items arguments items
    rw [ofJson?_eq, fullName, arrayCount, inner, mark]
    rfl

theorem reads_items : (ts : List DataType) → ∀ {vs : List Json}, List.Forall₂ Same vs (toJsonAll ts) →
    vs.mapM ofJson? = some ts
  | [], _, .nil => rfl
  | t :: ts, _, .cons first rest => by
    rw [List.mapM_cons, reads t first, reads_items ts rest]
    rfl

end

end DataType

theorem reads_dataType : Reads DataType.ofJson? DataType.toJson := fun t _ => DataType.reads t

theorem DataType.toJson_ne_null (t : DataType) : t.toJson ≠ .null := by
  cases t
  exact nofun

def Parameter.ofJson? (v : Json) : Option Parameter := do
  let identifier ← v.read "identifier" text?
  let dataType ← v.read "data_type" DataType.ofJson?
  return ⟨identifier, dataType⟩

theorem reads_parameter : Reads Parameter.ofJson? Parameter.toJson := by
  intro p v same
  have identifier : v.read "identifier" text? = some p.identifier := same.read rfl reads_text
  have dataType : v.read "data_type" DataType.ofJson? = some p.dataType := same.read rfl reads_dataType
  rw [Parameter.ofJson?, identifier, dataType]
  rfl

def Access.ofJson? : Json → Option Access := word? ofKeyword?

theorem reads_access : Reads Access.ofJson? (fun a => .text a.keyword) :=
  .word fun a => by cases a <;> rfl

def Attribute.ofJson? (v : Json) : Option Attribute := do
  let identifier ← v.read "identifier" text?
  let dataType ← v.read "data_type" DataType.ofJson?
  let isStatic ← v.read "static" bool?
  let isFinal ← v.read "final" bool?
  let access ← v.read "modifier" Access.ofJson?
  return ⟨identifier, dataType, isStatic, isFinal, access⟩

theorem reads_attribute : Reads Attribute.ofJson? Attribute.toJson := by
  intro a v same
  have identifier : v.read "identifier" text? = some a.identifier := same.read rfl reads_text
  have dataType : v.read "data_type" DataType.ofJson? = some a.dataType := same.read rfl reads_dataType
  have isStatic : v.read "static" bool? = some a.isStatic := same.read rfl reads_bool
  have isFinal : v.read "final" bool? = some a.isFinal := same.read rfl reads_bool
  have access : v.read "modifier" Access.ofJson? = some a.access := same.read rfl reads_access
  rw [Attribute.ofJson?, identifier, dataType, isStatic, isFinal, access]
  rfl

def TypeParameter.ofJson? (v : Json) : Option TypeParameter := do
  let identifier ← v.read "identifier" text?
  let bounds ← v.read "bounds" (list? DataType.ofJson?)
  return ⟨identifier, bounds⟩

theorem reads_typeParameter : Reads TypeParameter.ofJson? TypeParameter.toJson := by
  intro p v same
  have identifier : v.read "identifier" text? = some p.identifier := same.read rfl reads_text
  have bounds : v.read "bounds" (list? DataType.ofJson?) = some p.bounds := same.read rfl reads_dataType.list
  rw [TypeParameter.ofJson?, identifier, bounds]
  rfl

def Method.ofJson? (v : Json) : Option Method := do
  let fullName ← v.read "full_name" text?
  let returnType ← v.read "return_type" (optional? DataType.ofJson?)
  let isConstructor ← v.read "constructor" bool?
  let parameters ← v.read "parameters" (list? Parameter.ofJson?)
  let throws ← v.read "throws_declarations" (list? DataType.ofJson?)
  let typeParameters ← v.read "type_parameters" (list? TypeParameter.ofJson?)
  let isStatic ← v.read "static" bool?
  let isAbstract ← v.read "abstract" bool?
  let access ← v.read "modifier" Access.ofJson?
  return ⟨fullName, returnType, isConstructor, parameters, throws, typeParameters, isStatic, isAbstract, access⟩

theorem reads_method : Reads Method.ofJson? Method.toJson := by
  intro m v same
  have fullName : v.read "full_name" text? = some m.fullName := same.read rfl reads_text
  have returnType : v.read "return_type" (optional? DataType.ofJson?) = some m.returnType :=
    same.read rfl (reads_dataType.optional DataType.toJson_ne_null)
  have isConstructor : v.read "constructor" bool? = some m.isConstructor := same.read rfl reads_bool
  have parameters : v.read "parameters" (list? Parameter.ofJson?) = some m.parameters := same.read rfl reads_parameter.list
  have throws : v.read "throws_declarations" (list? DataType.ofJson?) = some m.throws := same.read rfl reads_dataType.list
  have typeParameters : v.read "type_parameters" (list? TypeParameter.ofJson?) = some m.typeParameters :=
    same.read rfl reads_typeParameter.list
  have isStatic : v.read "static" bool? = some m.isStatic := same.read rfl reads_bool
  have isAbstract : v.read "abstract" bool? = some m.isAbstract := same.read rfl reads_bool
  have access : v.read "modifier" Access.ofJson? = some m.access := same.read rfl reads_access
  rw [Method.ofJson?, fullName, returnType, isConstructor, parameters, throws, typeParameters, isStatic, isAbstract, access]
  rfl

def TypeKind.ofJson? : Json → Option TypeKind := word? ofKeyword?

theorem reads_kind : Reads TypeKind.ofJson? (fun k => .text k.keyword) :=
  .word fun k => by cases k <;> rfl

def Variant.ofJson? (v : Json) : TypeKind → Option Variant
  | .classType => do
    let isAbstract ← v.read "abstract" bool?
    let isThrowable ← v.read "throwable" bool?
    let superclass ← v.read "super_class" (optional? DataType.ofJson?)
    return .ofClass isAbstract isThrowable superclass
  | .interfaceType => some .ofInterface
  | .enumType => do
    let constants ← v.read "enumerals" (list? text?)
    return .ofEnum constants

theorem Variant.ofJson?_of_same {e : Entry} {v : Json} (same : v.Same e.toJson) :
    Variant.ofJson? v e.kind = some e.variant := by
  obtain ⟨fullName, outerType, typeParameters, interfaces, attributes, methods, variant⟩ := e
  cases variant with
  | ofClass isAbstract isThrowable superclass =>
    have first : v.read "abstract" bool? = some isAbstract := same.read rfl reads_bool
    have second : v.read "throwable" bool? = some isThrowable := same.read rfl reads_bool
    have third : v.read "super_class" (optional? DataType.ofJson?) = some superclass :=
      same.read rfl (reads_dataType.optional DataType.toJson_ne_null)
    rw [Entry.kind, Variant.kind, Variant.ofJson?, first, second, third]
    rfl
  | ofInterface => rfl
  | ofEnum constants =>
    have first : v.read "enumerals" (list? text?) = some constants := same.read rfl reads_text.list
    rw [Entry.kind, Variant.kind, Variant.ofJson?, first]
    rfl

def Entry.ofJson? (v : Json) : Option Entry := do
  let kind ← v.read "kind" TypeKind.ofJson?
  let fullName ← v.read "full_name" text?
  let outerType ← v.read "outer_type" (optional? text?)
  let typeParameters ← v.read "type_parameters" (list? TypeParameter.ofJson?)
  let interfaces ← v.read "interfaces" (list? DataType.ofJson?)
  let attributes ← v.read "attributes" (list? Attribute.ofJson?)
  let methods ← v.read "methods" (list? Method.ofJson?)
  let variant ← Variant.ofJson? v kind
  return ⟨fullName, outerType, typeParameters, interfaces, attributes, methods, variant⟩

theorem reads_entry : Reads Entry.ofJson? Entry.toJson := by
  intro e v same
  have kind : v.read "kind" TypeKind.ofJson? = some e.kind := same.read rfl reads_kind
  have fullName : v.read "full_name" text? = some e.fullName := same.read rfl reads_text
  have outerType : v.read "outer_type" (optional? text?) = some e.outerType := same.read rfl (reads_text.optional nofun)
  have typeParameters : v.read "type_parameters" (list? TypeParameter.ofJson?) = some e.typeParameters :=
    same.read rfl reads_typeParameter.list
  have interfaces : v.read "interfaces" (list? DataType.ofJson?) = some e.interfaces := same.read rfl reads_dataType.list
  have attributes : v.read "attributes" (list? Attribute.ofJson?) = some e.attributes := same.read rfl reads_attribute.list
  have methods : v.read "methods" (list? Method.ofJson?) = some e.methods := same.read rfl reads_method.list
  have variant := Variant.ofJson?_of_same same
  rw [Entry.ofJson?, kind, fullName, outerType, typeParameters, interfaces, attributes, methods]
  simp only [Option.bind_eq_bind, Option.bind_some, variant]
  rfl

/-- A model that nothing has been added to since it was decoded, so it is not frozen. -/
def Model.ofJson? (v : Json) : Option Model := do
  let project ← v.read "project" text?
  let types ← v.read "types" (list? Entry.ofJson?)
  let externals ← v.read "external_types" (list? Entry.ofJson?)
  return { project := project, types := types, externals := externals }

theorem Model.ofJson?_of_same {m : Model} {v : Json} (same : v.Same m.toJson) :
    Model.ofJson? v = some { m with isFrozen := false } := by
  have project : v.read "project" text? = some m.project := same.read rfl reads_text
  have types : v.read "types" (list? Entry.ofJson?) = some m.types := same.read rfl reads_entry.list
  have externals : v.read "external_types" (list? Entry.ofJson?) = some m.externals := same.read rfl reads_entry.list
  rw [Model.ofJson?, project, types, externals]
  rfl

/-- A serialized model has lost nothing but whether it was frozen: its decoder gives it back from its serialized form, or
any equal JSON value, so two models with equal forms have the same project and, in the same order, the same types and
external types. -/
theorem toJson_lossless :
    (∀ (m : Model) (v : Json), v.Same m.toJson → Model.ofJson? v = some { m with isFrozen := false }) ∧
      ∀ m n : Model, m.toJson.Same n.toJson → m.project = n.project ∧ m.types = n.types ∧ m.externals = n.externals := by
  refine ⟨fun m v => Model.ofJson?_of_same, fun m n same => ?_⟩
  have decoded := (Model.ofJson?_of_same (.refl m.toJson)).symm.trans (Model.ofJson?_of_same same)
  obtain ⟨project, types, externals, -⟩ := Model.mk.inj (Option.some.inj decoded)
  exact ⟨project, types, externals⟩

/-- `abstract class Box<T extends Comparable<? super T[]>>` -/
def genericClass : Entry where
  fullName := "p.Box"
  typeParameters := [⟨"T", [⟨"java.lang.Comparable", 0, [⟨"T", 1, [], some .lower⟩], none⟩]⟩]
  variant := .ofClass true false none

def enumStub : Entry where
  fullName := "q.Colour"
  variant := .ofEnum ["RED"]

/-- A model of both, made by additions, is read back also with its fields the other way round, and frozen it has the
same types. -/
theorem toJson_lossless_reordered :
    ∃ m fields, (do (← Model.add { project := "demo" } genericClass).addExternal enumStub) = .ok m ∧
      m.toJson = .object fields ∧ Same (.object fields.reverse) m.toJson ∧
      Model.ofJson? (.object fields.reverse) = some m ∧
      m.freeze.toJson.Same m.toJson ∧ m.freeze.types = m.types := by
  let m : Model := { project := "demo", types := [genericClass], externals := [enumStub] }
  let fields : List (String × Json) :=
    [("project", .text "demo"), ("types", .array [genericClass.toJson]), ("external_types", .array [enumStub.toJson])]
  have same : Same (.object fields.reverse) m.toJson := .of_perm fields.reverse_perm (by decide)
  exact ⟨m, fields, rfl, rfl, same, toJson_lossless.1 m _ same, .refl _, (toJson_lossless.2 m.freeze m (.refl _)).2.1⟩

end TypeAtlas
