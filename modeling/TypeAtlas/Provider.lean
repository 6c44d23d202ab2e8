import TypeAtlas.Scope.Inheritance

/-! A provider of declarations: the types of a project, whatever else it knows by name, and the meaning
of the names written in its scopes. -/

namespace TypeAtlas

/-- What a name stands for in some place, if it resolves there. -/
abbrev Context := (name : String) → Except Error (Option String)

def Context.empty : Context := fun _ => .ok none

structure Provider where
  name : String
  isPresent : Bool := true
  types : Except Error (List Declaration)
  find? : Index
  resolve : Scope → Context

namespace Provider

def contextOf (p : Provider) (scope : Option Scope) : Context :=
  match scope with
  | none => Context.empty
  | some s => p.resolve s

def context (p : Provider) (d : Declaration) : Context := p.contextOf d.scope

/-- Where a method's names are read: in its own scope, else in its declaration's. -/
def methodContext (p : Provider) (d : Declaration) (m : MethodDecl) : Context :=
  p.contextOf (m.scope.or d.scope)

/-- A provider that has all declarations at hand; its scopes see what it can find. -/
def ofIndex (name : String) (types : List Declaration) (ix : Index) : Provider where
  name := name
  types := .ok types
  find? := ix
  resolve := fun s n => s.resolve ix n true

end Provider

inductive Query
  | presence
  | types
  | find (name : String)
  deriving DecidableEq

end TypeAtlas
