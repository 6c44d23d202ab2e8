import TypeAtlas.Extraction.Resolution
import TypeAtlas.Settings

/-! From declarations to entries of a model. Every declared element gives one part of the entry, in
order; a class is throwable if the exception root is among its superclasses. -/

namespace TypeAtlas

open Extraction

structure Classifier where
  provider : Provider
  settings : Settings := {}
  limit : Int

namespace Classifier

def ofSettings (p : Provider) (settings : Settings) : Classifier := ⟨p, settings, settings.maxDepth⟩

/-- Whether the exception root is among the next `steps` superclasses; `none` if they go on beyond. -/
def lineage (c : Classifier) : (steps : Nat) → Declaration → Extraction (Option Bool)
  | 0, _ => return none
  | steps + 1, d => do
    match d.superclass with
    | none => return some false
    | some superclass =>
      let name ← Resolution.qualifiedName (c.provider.context d) superclass
      if name = c.settings.exceptionRoot then return some true
      match ← find c.provider name with
      | none => return some false
      | some d => c.lineage steps d

/-- Whether the exception root is among the superclasses. The walk ends at a type without superclass
and at one the provider does not know; it may not end at the limit. -/
def isThrowable (c : Classifier) (d : Declaration) : Extraction Bool := do
  match ← c.lineage c.settings.maxDepth d with
  | some found => return found
  | none => throw (.longLineage d.name c.settings.maxDepth d.superclass)

def constantNames (d : Declaration) : List String :=
  (d.fields.filter (·.isConstant)).map (·.name)

def classVariant (c : Classifier) (d : Declaration) : Extraction Variant := do
  let isThrowable ← c.isThrowable d
  let superclass ← d.superclass.mapM (Resolution.resolve c.limit (c.provider.context d))
  return .ofClass (d.modifiers.contains "abstract") isThrowable superclass

def variant (c : Classifier) (d : Declaration) : Extraction Variant :=
  match d.kind with
  | .known .classType => c.classVariant d
  | .known .interfaceType => return .ofInterface
  | .known .enumType => return .ofEnum (constantNames d)
  | .other word => throw (.unsupportedKind word d.name)

def method (c : Classifier) (d : Declaration) (m : MethodDecl) : Extraction Method := do
  let ctx := c.provider.methodContext d m
  let returnType ← Resolution.returnType c.limit ctx m
  let typeParameters ← m.typeParameters.mapM (Resolution.typeParameter c.limit ctx)
  let parameters ← m.parameters.mapM (Resolution.parameter c.limit ctx)
  let throws ← m.throws.mapM (Resolution.resolve c.limit ctx)
  return {
    fullName := d.name ++ "." ++ m.name
    returnType := returnType
    isConstructor := m.isConstructor
    parameters := parameters
    throws := throws
    typeParameters := typeParameters
    isStatic := m.modifiers.contains "static"
    isAbstract := m.modifiers.contains "abstract"
    access := .ofModifiers m.modifiers }

/-- Adds the attributes, as many as resolve before one fails. Constants of an enum are none. -/
def addAttributes (c : Classifier) (d : Declaration) (e : Entry) :
    StateM Session (Entry × Option Error) := do
  let progress ← collect (Resolution.fieldAttribute c.limit (c.provider.context d))
    (d.fields.filter (!·.isConstant))
  return ({ e with attributes := e.attributes ++ progress.done }, progress.stopped)

/-- Adds the methods, as many as resolve before one fails. -/
def addMethods (c : Classifier) (d : Declaration) (e : Entry) :
    StateM Session (Entry × Option Error) := do
  let progress ← collect (c.method d) d.methods
  return ({ e with methods := e.methods ++ progress.done }, progress.stopped)

def addMembers (c : Classifier) (d : Declaration) (e : Entry) :
    StateM Session (Entry × Option Error) := do
  match ← c.addAttributes d e with
  | (e, some error) => return (e, some error)
  | (e, none) => c.addMethods d e

def classify (c : Classifier) (d : Declaration) : Extraction Entry := do
  let variant ← c.variant d
  let ctx := c.provider.context d
  let typeParameters ← d.typeParameters.mapM (Resolution.typeParameter c.limit ctx)
  let shell : Entry := {
    fullName := d.name
    outerType := d.outer
    typeParameters := typeParameters
    variant := variant }
  match ← ExceptT.lift (c.addMembers d shell) with
  | (_, some error) => throw error
  | (e, none) =>
    let interfaces ← d.interfaces.mapM (Resolution.resolve c.limit ctx)
    return { e with interfaces := interfaces }

end Classifier
end TypeAtlas
