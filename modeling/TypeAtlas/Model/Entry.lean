import TypeAtlas.Model.DataType

/-! The entries of a type model: a class, interface or enum with its attributes and methods, all
types by qualified name. -/

namespace TypeAtlas

inductive TypeKind
  | classType
  | interfaceType
  | enumType
  deriving DecidableEq

namespace TypeKind

def keyword : TypeKind → String
  | .classType => "class"
  | .interfaceType => "interface"
  | .enumType => "enum"

def ofKeyword? : String → Option TypeKind
  | "class" => some .classType
  | "interface" => some .interfaceType
  | "enum" => some .enumType
  | _ => none

end TypeKind

/-- Access level of a member; `packageAccess` is the level without a keyword. -/
inductive Access
  | publicAccess
  | protectedAccess
  | packageAccess
  | privateAccess
  deriving DecidableEq

namespace Access

def keyword : Access → String
  | .publicAccess => "public"
  | .protectedAccess => "protected"
  | .packageAccess => "package"
  | .privateAccess => "private"

def ofKeyword? : String → Option Access
  | "public" => some .publicAccess
  | "protected" => some .protectedAccess
  | "package" => some .packageAccess
  | "private" => some .privateAccess
  | _ => none

/-- The widest level among the keywords. -/
def ofModifiers (modifiers : List String) : Access :=
  if "public" ∈ modifiers then .publicAccess
  else if "protected" ∈ modifiers then .protectedAccess
  else if "private" ∈ modifiers then .privateAccess
  else .packageAccess

end Access

structure Parameter where
  identifier : String
  dataType : DataType

structure Attribute where
  identifier : String
  dataType : DataType
  isStatic : Bool
  isFinal : Bool
  access : Access

structure TypeParameter where
  identifier : String
  bounds : List DataType

/-- A method or constructor; `returnType` is absent for void and for constructors. -/
structure Method where
  fullName : String
  returnType : Option DataType
  isConstructor : Bool
  parameters : List Parameter
  throws : List DataType
  typeParameters : List TypeParameter
  isStatic : Bool
  isAbstract : Bool
  access : Access

def Method.name (m : Method) : String := Text.simpleName m.fullName

/-- What only one kind of type has. -/
inductive Variant
  | ofClass (isAbstract isThrowable : Bool) (superclass : Option DataType)
  | ofInterface
  | ofEnum (constants : List String)

def Variant.kind : Variant → TypeKind
  | .ofClass .. => .classType
  | .ofInterface => .interfaceType
  | .ofEnum _ => .enumType

structure Entry where
  fullName : String
  outerType : Option String := none
  typeParameters : List TypeParameter := []
  interfaces : List DataType := []
  attributes : List Attribute := []
  methods : List Method := []
  variant : Variant

namespace Entry

def kind (e : Entry) : TypeKind := e.variant.kind

def name (e : Entry) : String := Text.simpleName e.fullName

def isInner (e : Entry) : Bool := e.outerType.isSome

def superclass? (e : Entry) : Option DataType :=
  match e.variant with
  | .ofClass _ _ superclass => superclass
  | _ => none

def isThrowable (e : Entry) : Bool :=
  match e.variant with
  | .ofClass _ isThrowable _ => isThrowable
  | _ => false

def constants (e : Entry) : List String :=
  match e.variant with
  | .ofEnum constants => constants
  | _ => []

def addConstants (e : Entry) (names : List String) : Entry :=
  match e.variant with
  | .ofEnum constants => { e with variant := .ofEnum (constants ++ names) }
  | _ => e

end Entry

def TypeParameter.dataTypes (p : TypeParameter) : List DataType := p.bounds

def Method.dataTypes (m : Method) : List DataType :=
  m.returnType.toList ++ m.typeParameters.flatMap (·.dataTypes) ++ m.parameters.map (·.dataType)
    ++ m.throws

/-- The types that an entry refers to, without their arguments. -/
def Entry.dataTypes (e : Entry) : List DataType :=
  e.superclass?.toList ++ e.typeParameters.flatMap (·.dataTypes) ++ e.attributes.map (·.dataType)
    ++ e.methods.flatMap (·.dataTypes) ++ e.interfaces

end TypeAtlas
