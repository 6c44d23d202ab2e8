import TypeAtlas.Declaration
import TypeAtlas.Error
import TypeAtlas.Text.Erasure

/-! Reading a written type name in a lexical scope. The order is: type variables, which stand for no
declaration; the declaring type and those around it; their member types, declared before inherited,
from the inside out; single imports; the package; imports on demand; `java.lang`. -/

namespace TypeAtlas

namespace CompilationUnit

/-- A name that is looked up outside all types of the file. -/
def lookup (u : CompilationUnit) (ix : Index) (name : String) : Option String :=
  (u.singleImports.lookup name).or <|
    (Text.qualify u.package name :: (u.onDemandImports ++ ["java.lang"]).map (· ++ "." ++ name)).find?
      ix.knows

end CompilationUnit

/-- Finds the member type of an owner that the owner inherits. -/
abbrev Inheritance := (owner name : String) → Except Error (Option String)

def Inheritance.none : Inheritance := fun _ _ => .ok .none

/-- The member type of this name in the first of the owners that declares or inherits one. -/
def memberOfFirst (ix : Index) (inherited : Inheritance) (name : String) :
    (owners : List String) → Except Error (Option String)
  | [] => .ok none
  | owner :: owners =>
    if ix.knows (owner ++ "." ++ name) then .ok (some (owner ++ "." ++ name))
    else do
      match ← inherited owner name with
      | some member => .ok (some member)
      | none => memberOfFirst ix inherited name owners

namespace LexicalScope

def resolveSimple (s : LexicalScope) (ix : Index) (inherited : Inheritance) (name : String) :
    Except Error (Option String) :=
  if name ∈ s.typeVariables then .ok none
  else match s.enclosing.find? (Text.simpleName · == name) with
    | some enclosing => .ok (some enclosing)
    | none => do
      match ← memberOfFirst ix inherited name s.enclosing with
      | some member => .ok (some member)
      | none => .ok (s.unit.lookup ix name)

/-- A name without type arguments: what its head names has the rest as members, or else the name is
already a full one. -/
def resolveErased (s : LexicalScope) (ix : Index) (inherited : Inheritance) (name : String) :
    Except Error (Option String) :=
  match Text.afterHead? name with
  | none => s.resolveSimple ix inherited name
  | some rest => do
    match ← s.resolveSimple ix inherited (Text.headSegment name) with
    | some head => .ok (some (head ++ "." ++ rest))
    | none => .ok (if ix.knows name then some name else none)

/-- Names that no declaration can bear: none at all, a wildcard, a primitive. -/
def isNameless (name : String) : Bool :=
  name = "" || name.toList.head? = some '?' || isPrimitiveName name

/-- A name as written, possibly qualified or with type arguments. -/
def resolveWith (s : LexicalScope) (ix : Index) (inherited : Inheritance) (name : String) :
    Except Error (Option String) :=
  let name := Text.erase name
  if isNameless name then .ok none else s.resolveErased ix inherited name

end LexicalScope

namespace Scope

/-- A name by its scope, with member types from supertypes as `inherited` finds them. -/
def resolveWith (s : Scope) (ix : Index) (inherited : Inheritance) (name : String) :
    Except Error (Option String) :=
  match s with
  | .lexical s => s.resolveWith ix inherited name
  | .names table => .ok (table.lookup (String.ofList (name.toList.takeWhile (· != '<'))))
  | .exactNames table => .ok (table.lookup name)

end Scope
end TypeAtlas
