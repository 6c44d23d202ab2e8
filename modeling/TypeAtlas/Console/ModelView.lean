import TypeAtlas.Console.Style
import TypeAtlas.Model.Registry

/-! How a model is shown: a summary of its numbers, a table of its types, and one type in detail. What is
shown is markup; `escape` turns a text into markup that shows it as it stands. -/

namespace TypeAtlas.Console

def natCount (n : Nat) : String := count n

/-- Nothing stands for void. -/
def typeText (escape : String → String) (t : Option DataType) : String :=
  match t with
  | none => "void"
  | some t => escape t.typeString

def externalMark : String := " [dim](external)[/dim]"

def summary (m : Model) : Table :=
  let ofKind (k : TypeKind) : Nat := m.types.countP (·.kind == k)
  let rows := [
    ("Types", m.types.length),
    ("Classes", ofKind .classType),
    ("Interfaces", ofKind .interfaceType),
    ("Enums", ofKind .enumType),
    ("Exception types", m.types.countP (·.isThrowable)),
    ("Attributes", (m.types.flatMap (·.attributes)).length),
    ("Methods", (m.types.flatMap (·.methods)).length),
    ("External types", m.externals.length)]
  rows.foldl (fun t r => t.addRow [r.1, natCount r.2]) (summaryTable "Extraction Results" "bold cyan")

def typeRow (escape : String → String) (m : Model) (e : Entry) : List String := [
  kind e.kind.keyword,
  escape e.fullName ++ (if m.isExternal e.fullName then externalMark else ""),
  (e.superclass?.map fun t => escape t.name).getD "",
  natCount e.attributes.length,
  natCount e.methods.length]

def typeTable (escape : String → String) (m : Model) (withExternals : Bool) : Table :=
  let entries := if withExternals then m.entries else m.types
  entries.foldl (fun t e => t.addRow (typeRow escape m e)) <|
    dataTable ("Types of " ++ m.project) [
      ("Kind", "left", "white"), ("Type", "left", "cyan"), ("Super class", "left", "dim"),
      ("Attributes", "right", "green"), ("Methods", "right", "green")]

def commaList (items : List String) : String := String.intercalate ", " items

def typeSubtitle (escape : String → String) (e : Entry) (isExternal : Bool) : String :=
  kind e.kind.keyword
    ++ (if isExternal then externalMark else "")
    ++ (match e.superclass? with
      | none => ""
      | some t => "\nextends " ++ typeText escape (some t))
    ++ (if e.isThrowable then "\n[yellow]throwable[/yellow]" else "")
    ++ (if e.interfaces.isEmpty then ""
      else "\nimplements " ++ commaList (e.interfaces.map fun t => typeText escape (some t)))

def attributeRow (escape : String → String) (a : Attribute) : List String := [
  a.identifier,
  typeText escape (some a.dataType),
  a.access.keyword,
  String.intercalate " "
    ((if a.isStatic then ["static"] else []) ++ (if a.isFinal then ["final"] else []))]

def attributeTable (escape : String → String) (e : Entry) : Table :=
  e.attributes.foldl (fun t a => t.addRow (attributeRow escape a)) <|
    dataTable "Attributes" [
      ("Name", "left", "cyan"), ("Type", "left", "white"), ("Access", "left", "dim"),
      ("Flags", "left", "yellow")]

def methodRow (escape : String → String) (m : Method) : List String := [
  m.name,
  commaList (m.parameters.map fun p => typeText escape (some p.dataType) ++ " " ++ p.identifier),
  if m.isConstructor then "" else typeText escape m.returnType,
  m.access.keyword]

def methodTable (escape : String → String) (e : Entry) : Table :=
  e.methods.foldl (fun t m => t.addRow (methodRow escape m)) <|
    dataTable "Methods" [
      ("Name", "left", "cyan"), ("Parameters", "left", "white"), ("Returns", "left", "white"),
      ("Access", "left", "dim")]

/-- A type with its constants, attributes and methods; what it has none of is left out. -/
def typeDetails (escape : String → String) (e : Entry) (isExternal : Bool) : List Printed :=
  [.panel (headerPanel (escape e.fullName) (typeSubtitle escape e isExternal) "cyan")]
    ++ (if e.constants.isEmpty then []
      else [.text ("[cyan]Constants:[/cyan] " ++ commaList e.constants)])
    ++ (if e.attributes.isEmpty then [] else [.table (attributeTable escape e)])
    ++ (if e.methods.isEmpty then [] else [.table (methodTable escape e)])

end TypeAtlas.Console
