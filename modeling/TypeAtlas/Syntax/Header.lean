import TypeAtlas.Declaration
import TypeAtlas.Syntax.TypeEncoding
import TypeAtlas.Warning

/-! Package and imports of a file, and the parts of a declaration that stand outside its body: names,
modifiers, type parameters, supertypes and parameters. -/

namespace TypeAtlas.Syntax

def NodeKind.typeKind? : NodeKind → Option TypeKind
  | .classDeclaration | .recordDeclaration => some .classType
  | .interfaceDeclaration | .annotationTypeDeclaration => some .interfaceType
  | .enumDeclaration => some .enumType
  | _ => none

def modifierKeywords : List String :=
  ["public", "protected", "private", "abstract", "static", "final", "strictfp", "default",
    "synchronized", "native", "transient", "volatile", "sealed", "non-sealed"]

namespace Tree

/-- The text of a field, empty if there is no such child. -/
def fieldText (t : Tree) (field : String) : String :=
  match t.child? field with
  | none => ""
  | some c => c.text

def nameText (t : Tree) : String := t.fieldText "name"

/-- The dotted name of an identifier, without what stands between its parts. -/
def qualifiedName (t : Tree) : String :=
  if t.kind = .scopedIdentifier then
    match h : t.child? "scope" with
    | none => t.nameText
    | some scope =>
      have := sizeOf_lt_of_child? h
      scope.qualifiedName ++ "." ++ t.nameText
  else t.text
termination_by t

def names (t : Tree) : List Tree :=
  t.namedChildren.filter fun c => c.kind == .scopedIdentifier || c.kind == .identifier

def packageName (t : Tree) : String :=
  match t.names with
  | [] => ""
  | name :: _ => name.qualifiedName

def modifiers (t : Tree) : List String :=
  match t.children.find? (·.kind == .modifiers) with
  | none => []
  | some m => (m.children.map (·.text)).filter (modifierKeywords.contains ·)

/-- Whether an import names all members of a package or type. -/
def isOnDemand (t : Tree) : Bool := t.hasChild .asterisk

/-- Whether an import names a member that is no type. -/
def isStaticSingle (t : Tree) : Bool := !t.isOnDemand && t.hasChild .staticKeyword

end Tree

/-- Adds a package or import declaration; other nodes add nothing. -/
def addHeader (u : CompilationUnit) (t : Tree) : CompilationUnit :=
  match t.kind with
  | .packageDeclaration => { u with package := t.packageName }
  | .importDeclaration =>
    match t.names with
    | [] => u
    | name :: _ =>
      let full := name.qualifiedName
      if t.isOnDemand then u.importOnDemand full
      else if t.isStaticSingle then u
      else u.importSingle (Text.simpleName full) full
  | _ => u

/-- The package and all imports of a file, wherever they stand in it. -/
def unitOf (root : Tree) : CompilationUnit := root.namedChildren.foldl addHeader {}

/-- The signature of a declared type, with the place of a failure. -/
def declaredType (path : Option String) (type : Option Tree) : Except Error String :=
  match type with
  | none => .error (.missingType path)
  | some t => t.signature.mapError (.declaredType · t.line path)

def declaredTypes (path : Option String) (types : List Tree) : Except Error (List String) :=
  types.mapM fun t => declaredType path (some t)

namespace Tree

def ofKind (kind : NodeKind) (ts : List Tree) : List Tree := ts.filter (·.kind == kind)

/-- The name of a type parameter, empty if it has none. -/
def parameterName (t : Tree) : String :=
  ((t.parts.filter fun p => (p.kind == .typeIdentifier || p.kind == .identifier) && p.text != "").head?.map
    (·.text)).getD ""

def typeParameter (path : Option String) (t : Tree) : Except Error TypeParameterDecl := do
  let bounds ← declaredTypes path ((ofKind .typeBound t.parts).flatMap (·.parts))
  .ok ⟨t.parameterName, bounds⟩

/-- The type parameters of a declaration; those without a name are left out. -/
def typeParameters (path : Option String) (t : Tree) : Except Error (List TypeParameterDecl) :=
  match t.child? "type_parameters" with
  | none => .ok []
  | some list => do
    let parameters ← (ofKind .typeParameter list.namedChildren).mapM (typeParameter path)
    .ok (parameters.filter (·.name ≠ ""))

/-- The types of a clause with one or more lists of types. -/
def listedTypes (t : Tree) : List Tree :=
  t.parts.flatMap fun p => if p.kind = .typeList then p.parts else [p]

structure Supertypes where
  superclass : Option String := none
  interfaces : List String := []
  deriving DecidableEq

/-- Adds the types of one clause; the last of several superclasses counts. -/
def addSupertypes (path : Option String) (s : Supertypes) (clause : Tree) :
    Except Error Supertypes :=
  match clause.kind with
  | .superclass => do
    let superclass ← declaredType path clause.parts.getLast?
    .ok { s with superclass := some superclass }
  | .superInterfaces | .extendsInterfaces => do
    let interfaces ← declaredTypes path clause.listedTypes
    .ok { s with interfaces := s.interfaces ++ interfaces }
  | _ => .ok s

def supertypes (path : Option String) (t : Tree) : Except Error Supertypes :=
  t.children.foldlM (addSupertypes path) {}

/-- The last declarator's name, empty if there is none. -/
def declaratorName (ts : List Tree) : String :=
  match (ofKind .variableDeclarator ts).getLast? with
  | none => ""
  | some d => d.nameText

def spreadParameter (path : Option String) (t : Tree) : Except Error ParameterDecl := do
  let type := t.parts.find? fun p => p.kind != .variableDeclarator && p.kind != .modifiers
  let signature ← declaredType path type
  .ok ⟨declaratorName t.parts, signature, true⟩

def formalParameter (path : Option String) (t : Tree) : Except Error ParameterDecl := do
  let signature ← declaredType path (t.child? "type")
  .ok ⟨t.nameText, dimensionMarks t.dimensions ++ signature, false⟩

def parameter (path : Option String) (t : Tree) : Except Error ParameterDecl :=
  if t.kind = .spreadParameter then spreadParameter path t else formalParameter path t

/-- The parameters in the field for parameters, if there is one. -/
def parameters (path : Option String) (t : Tree) : Except Error (List ParameterDecl) :=
  match t.child? "parameters" with
  | none => .ok []
  | some list =>
    (list.namedChildren.filter fun c => c.kind == .formalParameter || c.kind == .spreadParameter).mapM
      (parameter path)

def throwsTypes (path : Option String) (t : Tree) : Except Error (List String) :=
  declaredTypes path ((ofKind .throws t.children).flatMap (·.parts))

end Tree
end TypeAtlas.Syntax
