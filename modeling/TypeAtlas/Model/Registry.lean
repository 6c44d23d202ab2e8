import TypeAtlas.Error
import TypeAtlas.Model.Entry

/-! The model of a project: its own types and the stubs of types declared elsewhere, each name once
and in order of addition. Nothing can be added once it is frozen. -/

namespace TypeAtlas

structure Model where
  project : String
  types : List Entry := []
  externals : List Entry := []
  isFrozen : Bool := false

namespace Model

def internal? (m : Model) (name : String) : Option Entry :=
  m.types.find? (·.fullName == name)

def external? (m : Model) (name : String) : Option Entry :=
  m.externals.find? (·.fullName == name)

def get? (m : Model) (name : String) : Option Entry :=
  (m.internal? name).or (m.external? name)

def contains (m : Model) (name : String) : Bool :=
  m.types.any (·.fullName == name) || m.externals.any (·.fullName == name)

def isExternal (m : Model) (name : String) : Bool :=
  m.externals.any (·.fullName == name)

/-- The project's own types, then the stubs. -/
def entries (m : Model) : List Entry := m.types ++ m.externals

def size (m : Model) : Nat := m.types.length + m.externals.length

def checkAddable (m : Model) (name : String) : Except Error Unit :=
  if m.isFrozen then .error (.frozenModel name)
  else if m.contains name then .error (.duplicateType name)
  else .ok ()

def add (m : Model) (e : Entry) : Except Error Model := do
  m.checkAddable e.fullName
  .ok { m with types := m.types ++ [e] }

def addExternal (m : Model) (e : Entry) : Except Error Model := do
  m.checkAddable e.fullName
  .ok { m with externals := m.externals ++ [e] }

def freeze (m : Model) : Model := { m with isFrozen := true }

def describe (m : Model) : String :=
  "IntermediateModel(" ++ Text.quoted m.project ++ ", types=" ++ toString m.types.length
    ++ ", external_types=" ++ toString m.externals.length ++ ")"

end Model
end TypeAtlas
