import TypeAtlas.Model.Entry

/-! Type declarations as a provider of sources gives them: types are still signatures, and each
declaration carries the scope in which its names are to be read. -/

namespace TypeAtlas

/-- Package and imports of a source file. A single import names a type by its simple name; an import
on demand names a package or an outer type. -/
structure CompilationUnit where
  package : String := ""
  singleImports : List (String × String) := []
  onDemandImports : List String := []
  deriving DecidableEq

namespace CompilationUnit

/-- A later import of the same simple name replaces an earlier one. -/
def importSingle (u : CompilationUnit) (simple full : String) : CompilationUnit :=
  { u with singleImports := u.singleImports.filter (·.1 != simple) ++ [(simple, full)] }

def importOnDemand (u : CompilationUnit) (full : String) : CompilationUnit :=
  { u with onDemandImports := u.onDemandImports ++ [full] }

end CompilationUnit

/-- The names in sight of a declaration; `enclosing` holds the declaring type and the types around
it, innermost first. -/
structure LexicalScope where
  unit : CompilationUnit := {}
  enclosing : List String := []
  typeVariables : List String := []
  deriving DecidableEq

/-- The scope inside a generic method: its type parameters come on top. -/
def LexicalScope.withTypeVariables (s : LexicalScope) (names : List String) : LexicalScope :=
  { s with typeVariables := s.typeVariables ++ names }

/-- How the names of a declaration are read: by the rules of lexical scoping, or by a table of
written names, which are looked up either without their type arguments or as they stand. -/
inductive Scope
  | lexical (s : LexicalScope)
  | names (table : List (String × String))
  | exactNames (table : List (String × String))
  deriving DecidableEq

structure FieldDecl where
  name : String
  signature : String
  modifiers : List String := []
  isConstant : Bool := false
  deriving DecidableEq

/-- The signature of a variable arity parameter lacks the dimension that its dots add. -/
structure ParameterDecl where
  name : String
  signature : String
  isVariadic : Bool := false
  deriving DecidableEq

structure TypeParameterDecl where
  name : String
  bounds : List String := []
  deriving DecidableEq

/-- A method or constructor; without a scope of its own it has that of its declaring type. -/
structure MethodDecl where
  name : String
  returns : String := "V"
  parameters : List ParameterDecl := []
  throws : List String := []
  modifiers : List String := []
  isConstructor : Bool := false
  typeParameters : List TypeParameterDecl := []
  scope : Option Scope := none
  deriving DecidableEq

/-- The kind a provider states, which may be none that a model knows. -/
inductive DeclaredKind
  | known (kind : TypeKind)
  | other (word : String)
  deriving DecidableEq

structure Declaration where
  name : String
  kind : DeclaredKind := .known .classType
  modifiers : List String := []
  superclass : Option String := none
  interfaces : List String := []
  typeParameters : List TypeParameterDecl := []
  fields : List FieldDecl := []
  methods : List MethodDecl := []
  outer : Option String := none
  scope : Option Scope := none
  sourceFile : Option String := none
  deriving DecidableEq

def Declaration.simpleName (d : Declaration) : String := Text.simpleName d.name

/-- The known declarations by qualified name. -/
abbrev Index := String → Option Declaration

namespace Index

def knows (ix : Index) (name : String) : Bool := (ix name).isSome

def ofList (ds : List Declaration) : Index := fun name => ds.find? (·.name == name)

/-- What the first index does not know is looked up in the second. -/
def orElse (a b : Index) : Index := fun name => (a name).or (b name)

end Index
end TypeAtlas
