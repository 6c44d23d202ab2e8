/-! What is printed on the console: texts with markup, tables and panels, and the styles of counts, kinds
and outcomes in them. -/

namespace TypeAtlas.Console

structure Column where
  header : String
  justify : String
  style : String
  cells : List String := []
  deriving DecidableEq

structure Table where
  title : String
  headerStyle : String := "bold cyan"
  columns : List Column
  deriving DecidableEq

/-- A framed text, no wider than it needs to be. -/
structure Panel where
  content : String
  borderStyle : String
  deriving DecidableEq

inductive Printed
  | text (markup : String)
  /-- A text with the seconds that the work took between its two parts. -/
  | duration (before after : String)
  | table (t : Table)
  | panel (p : Panel)
  deriving DecidableEq

def Table.addRow (t : Table) (cells : List String) : Table :=
  { t with columns := t.columns.zipWith (fun c cell => { c with cells := c.cells ++ [cell] }) cells }

def statusIcon (success : Bool) : String := if success then "[green]✓[/green]" else "[red]✗[/red]"

/-- Digits, the last first, with a comma after every three. -/
def grouped : List Char → List Char
  | a :: b :: c :: d :: rest => a :: b :: c :: ',' :: grouped (d :: rest)
  | cs => cs

def count (n : Int) : String :=
  let digits := String.ofList (grouped (toString n.natAbs).toList.reverse).reverse
  if n < 0 then "-" ++ digits else digits

def kindStyle (kind : String) : String :=
  if kind = "class" then "green"
  else if kind = "interface" then "magenta"
  else if kind = "enum" then "yellow"
  else "white"

def kind (kind : String) : String :=
  "[" ++ kindStyle kind ++ "]" ++ kind ++ "[/" ++ kindStyle kind ++ "]"

def summaryTable (title headerStyle : String) : Table where
  title := title
  headerStyle := headerStyle
  columns := [⟨"Metric", "left", "cyan", []⟩, ⟨"Count", "right", "green", []⟩]

def dataTable (title : String) (columns : List (String × String × String)) : Table where
  title := title
  columns := columns.map fun c => ⟨c.1, c.2.1, c.2.2, []⟩

def headerPanel (title subtitle borderStyle : String) : Panel where
  content := "[bold cyan]" ++ title ++ "[/bold cyan]" ++ if subtitle = "" then "" else "\n" ++ subtitle
  borderStyle := borderStyle

end TypeAtlas.Console
