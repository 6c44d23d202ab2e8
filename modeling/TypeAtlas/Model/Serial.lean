import TypeAtlas.Json
import TypeAtlas.Model.Registry

/-! The serialized form of a model: every part as an object with its fields in a fixed order. -/

namespace TypeAtlas

def Wildcard.toJson (w : Wildcard) : Json := .text w.keyword

namespace DataType

mutual

def toJson : DataType → Json
  | ⟨fullName, arrayCount, arguments, wildcard⟩ =>
    .object [
      ("full_name", .text fullName),
      ("array_count", .int arrayCount),
      ("generic_arguments", .array (toJsonAll arguments)),
      ("wildcard", Json.ofOption Wildcard.toJson wildcard)]

def toJsonAll : List DataType → List Json
  | [] => []
  | t :: ts => toJson t :: toJsonAll ts

end

end DataType

def Parameter.toJson (p : Parameter) : Json :=
  .object [("identifier", .text p.identifier), ("data_type", p.dataType.toJson)]

def Attribute.toJson (a : Attribute) : Json :=
  .object [
    ("identifier", .text a.identifier),
    ("data_type", a.dataType.toJson),
    ("static", .bool a.isStatic),
    ("final", .bool a.isFinal),
    ("modifier", .text a.access.keyword)]

def TypeParameter.toJson (p : TypeParameter) : Json :=
  .object [("identifier", .text p.identifier), ("bounds", .array (p.bounds.map (·.toJson)))]

def Method.toJson (m : Method) : Json :=
  .object [
    ("full_name", .text m.fullName),
    ("return_type", Json.ofOption DataType.toJson m.returnType),
    ("constructor", .bool m.isConstructor),
    ("parameters", .array (m.parameters.map (·.toJson))),
    ("throws_declarations", .array (m.throws.map (·.toJson))),
    ("type_parameters", .array (m.typeParameters.map (·.toJson))),
    ("static", .bool m.isStatic),
    ("abstract", .bool m.isAbstract),
    ("modifier", .text m.access.keyword)]

/-- The fields that only this kind of entry has. -/
def Variant.fields : Variant → List (String × Json)
  | .ofClass isAbstract isThrowable superclass => [
      ("abstract", .bool isAbstract),
      ("throwable", .bool isThrowable),
      ("super_class", Json.ofOption DataType.toJson superclass)]
  | .ofInterface => []
  | .ofEnum constants => [("enumerals", .array (constants.map .text))]

def Entry.toJson (e : Entry) : Json :=
  .object ([
    ("kind", .text e.kind.keyword),
    ("full_name", .text e.fullName),
    ("outer_type", Json.ofOption .text e.outerType),
    ("type_parameters", .array (e.typeParameters.map (·.toJson))),
    ("interfaces", .array (e.interfaces.map (·.toJson))),
    ("attributes", .array (e.attributes.map (·.toJson))),
    ("methods", .array (e.methods.map (·.toJson)))] ++ e.variant.fields)

def Model.toJson (m : Model) : Json :=
  .object [
    ("project", .text m.project),
    ("types", .array (m.types.map (·.toJson))),
    ("external_types", .array (m.externals.map (·.toJson)))]

end TypeAtlas
