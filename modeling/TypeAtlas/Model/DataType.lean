import TypeAtlas.Text.Brackets
import TypeAtlas.Text.Dotted
import TypeAtlas.Wildcard

/-! A resolved reference to a type: a qualified name with array dimensions, type arguments and, where
it is itself an argument, its wildcard form. -/

namespace TypeAtlas

structure DataType where
  fullName : String
  arrayCount : Int
  arguments : List DataType
  wildcard : Option Wildcard

namespace DataType

def unboundedArgument : DataType := ⟨"?", 0, [], some .unbounded⟩

def name (t : DataType) : String := Text.simpleName t.fullName

def isArray (t : DataType) : Bool := 0 < t.arrayCount

def isGeneric (t : DataType) : Bool := !t.arguments.isEmpty

def brackets (n : Nat) : String := String.ofList (Text.brackets n)

def bounded (w : Option Wildcard) (text : String) : String :=
  match w with
  | none => text
  | some w => "? " ++ w.keyword ++ " " ++ text

mutual

/-- The type as it would be written with full names, such as `java.util.List<java.lang.String>[]`. -/
def typeString : DataType → String
  | ⟨fullName, arrayCount, arguments, wildcard⟩ =>
    if wildcard = some .unbounded then "?"
    else bounded wildcard (fullName ++ argumentString arguments ++ brackets arrayCount.toNat)

def argumentString : List DataType → String
  | [] => ""
  | t :: ts => "<" ++ typeString t ++ moreArguments ts ++ ">"

def moreArguments : List DataType → String
  | [] => ""
  | t :: ts => ", " ++ typeString t ++ moreArguments ts

end

mutual

/-- The type and its arguments at any depth, the type first. -/
def nodes : DataType → List DataType
  | ⟨fullName, arrayCount, arguments, wildcard⟩ =>
    ⟨fullName, arrayCount, arguments, wildcard⟩ :: nodesOfAll arguments

def nodesOfAll : List DataType → List DataType
  | [] => []
  | t :: ts => nodes t ++ nodesOfAll ts

end

end DataType
end TypeAtlas
