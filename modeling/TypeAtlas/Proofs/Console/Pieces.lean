import Mathlib.Algebra.BigOperators.Group.List.Basic
import Mathlib.Algebra.Order.BigOperators.Group.List
import Mathlib.Algebra.Order.Ring.Nat
import TypeAtlas.Console.ModelView
import TypeAtlas.Proofs.Console.Escaping

/-! What is printed, by its pieces. A piece is markup of the program's own, a count, or a text from elsewhere, which is
escaped or stands as it is. A layout is a printed text, table or panel with pieces in place of strings. Of escaping all
that matters is that it inserts characters: then a layout comes out as if all its texts were escaped just in case
escaping would change none of those that are not. -/

namespace TypeAtlas.Console

/-- All markup of the program's own, but for counts. -/
def ownTexts : List String := [
  "[red]Error:[/red] ", "Type ", " not found in the model",
  "[dim]Excluding:[/dim] ", "[cyan]Extracting type model of:[/cyan] ",
  "\n[green]✓[/green] [bold green]Extraction complete![/bold green]", "[dim]⏱  Extraction: ", "s[/dim]",
  "\n[green]Model written to:[/green] ",
  "Extraction Results", "Metric", "Count", "Types", "Classes", "Interfaces", "Enums", "Exception types", "External types",
  "Types of ", "Kind", "Type", "Super class", "Attributes", "Methods",
  "[green]class[/green]", "[magenta]interface[/magenta]", "[yellow]enum[/yellow]",
  " [dim](external)[/dim]", "[bold cyan]", "[/bold cyan]", "\n", "\nextends ", "\n[yellow]throwable[/yellow]",
  "\nimplements ", "[cyan]Constants:[/cyan] ",
  "Name", "Access", "Flags", "Parameters", "Returns", "public", "protected", "package", "private", "static", "final",
  "void", " ", ", "]

/-- A piece of a printed line; only its last two forms are not the program's own. -/
inductive Piece
  | own (markup : String) (known : markup ∈ ownTexts := by decide)
  | count (n : Nat)
  | escaped (text : String)
  | bare (text : String)

namespace Piece

variable {escape : String → String}

def printed (escape : String → String) : Piece → String
  | .own markup _ => markup
  | .count n => natCount n
  | .escaped text => escape text
  | .bare text => text

/-- The piece with its text escaped, be it printed so or not. -/
def literal (escape : String → String) : Piece → String
  | .bare text => escape text
  | p => p.printed escape

def bareText? : Piece → Option String
  | .bare text => some text
  | _ => none

@[simp] theorem printed_own {markup : String} {known : markup ∈ ownTexts} :
    (own markup known).printed escape = markup := rfl

@[simp] theorem printed_count {n : Nat} : (count n).printed escape = natCount n := rfl

@[simp] theorem printed_escaped {text : String} : (escaped text).printed escape = escape text := rfl

@[simp] theorem printed_bare {text : String} : (bare text).printed escape = text := rfl

theorem length_printed_le (inserts : Markup.Inserts escape) (p : Piece) :
    (p.printed escape).length ≤ (p.literal escape).length := by
  cases p with
  | bare text => exact inserts.length_le
  | _ => exact Nat.le_refl _

theorem printed_eq_of_length (inserts : Markup.Inserts escape) {p : Piece}
    (same : (p.printed escape).length = (p.literal escape).length) {t : String} (ht : p.bareText? = some t) :
    escape t = t := by
  cases p with
  | bare text =>
    cases ht
    exact inserts.eq_of_length same
  | _ => cases ht

theorem printed_eq_literal {p : Piece} (h : ∀ t, p.bareText? = some t → escape t = t) :
    p.printed escape = p.literal escape := by
  cases p with
  | bare text => exact (h text rfl).symm
  | _ => rfl

end Piece

abbrev Line := List Piece

def Line.text (f : Piece → String) : Line → String
  | [] => ""
  | p :: ps => f p ++ Line.text f ps

/-- The texts from elsewhere that stand as they are. -/
def Line.bareTexts (line : Line) : List String := line.filterMap Piece.bareText?

def Line.commas : List Line → Line
  | [] => []
  | [l] => l
  | l :: ls => l ++ .own ", " :: commas ls

/-- The header of a column, which is the program's own, with the column's justification and style. -/
structure Heading where
  text : String
  justify : String
  style : String
  known : text ∈ ownTexts := by decide

def Heading.column (h : Heading) : String × String × String := (h.text, h.justify, h.style)

structure Grid where
  title : Line
  headings : List Heading
  rows : List (List Line)
  fits : ∀ row ∈ rows, row.length = headings.length

def Grid.print (f : Piece → String) (g : Grid) : Table :=
  (g.rows.map (·.map (Line.text f))).foldl Table.addRow (dataTable (g.title.text f) (g.headings.map Heading.column))

inductive Layout
  | text (line : Line)
  | duration (before after : Line)
  | table (g : Grid)
  | panel (content : Line) (borderStyle : String)

namespace Layout

def print (f : Piece → String) : Layout → Printed
  | .text line => .text (line.text f)
  | .duration before after => .duration (before.text f) (after.text f)
  | .table g => .table (g.print f)
  | .panel content borderStyle => .panel ⟨content.text f, borderStyle⟩

def pieces : Layout → Line
  | .text line => line
  | .duration before after => before ++ after
  | .table g => g.title ++ g.rows.flatten.flatten
  | .panel content _ => content

def bareTexts (l : Layout) : List String := l.pieces.bareTexts

variable {f : Piece → String}

@[simp] theorem print_text {line : Line} : (text line).print f = .text (line.text f) := rfl

@[simp] theorem print_duration {before after : Line} :
    (duration before after).print f = .duration (before.text f) (after.text f) := rfl

@[simp] theorem print_table {g : Grid} : (table g).print f = .table (g.print f) := rfl

@[simp] theorem print_panel {content : Line} {borderStyle : String} :
    (panel content borderStyle).print f = .panel ⟨content.text f, borderStyle⟩ := rfl

@[simp] theorem bareTexts_text {line : Line} : (text line).bareTexts = line.bareTexts := rfl

@[simp] theorem bareTexts_duration {before after : Line} :
    (duration before after).bareTexts = (before ++ after).bareTexts := rfl

@[simp] theorem bareTexts_panel {content : Line} {borderStyle : String} :
    (panel content borderStyle).bareTexts = content.bareTexts := rfl

end Layout

variable {f g : Piece → String}

theorem Line.text_congr {line : Line} (h : ∀ p ∈ line, f p = g p) : line.text f = line.text g := by
  induction line with
  | nil => rfl
  | cons p ps ih =>
    rw [Line.text, Line.text, h p List.mem_cons_self, ih fun q hq => h q (List.mem_cons_of_mem p hq)]

theorem Layout.print_congr {l : Layout} (h : ∀ p ∈ l.pieces, f p = g p) : l.print f = l.print g := by
  cases l with
  | text line => exact congrArg Printed.text (Line.text_congr h)
  | duration before after =>
    rw [Layout.print, Layout.print, Line.text_congr fun p hp => h p (List.mem_append_left after hp),
      Line.text_congr fun p hp => h p (List.mem_append_right before hp)]
  | table grid =>
    have title := Line.text_congr fun p hp => h p (List.mem_append_left grid.rows.flatten.flatten hp)
    have rows : grid.rows.map (·.map (Line.text f)) = grid.rows.map (·.map (Line.text g)) :=
      List.map_congr_left fun row hr => List.map_congr_left fun line hl => Line.text_congr fun p hp =>
        h p (List.mem_append_right grid.title
          (List.mem_flatten.mpr ⟨line, List.mem_flatten.mpr ⟨row, hr, hl⟩, hp⟩))
    rw [Layout.print, Layout.print, Grid.print, Grid.print, title, rows]
  | panel content borderStyle => exact congrArg (fun text => Printed.panel ⟨text, borderStyle⟩) (Line.text_congr h)

/-! ### How long it is -/

def Table.size (t : Table) : Nat :=
  t.title.length + (t.columns.map fun c => (c.cells.map String.length).sum).sum

def Printed.size : Printed → Nat
  | .text markup => markup.length
  | .duration before after => before.length + after.length
  | .table t => t.size
  | .panel p => p.content.length

theorem Line.length_text (line : Line) : (line.text f).length = (line.map fun p => (f p).length).sum := by
  induction line with
  | nil => rfl
  | cons p ps ih => rw [Line.text, String.length_append, ih, List.map_cons, List.sum_cons]

theorem size_addRow {t : Table} {row : List String} (fits : row.length = t.columns.length) :
    (t.addRow row).size = t.size + (row.map String.length).sum := by
  obtain ⟨title, headerStyle, columns⟩ := t
  rw [Table.size, Table.size, Table.addRow, Nat.add_assoc]
  congr 1
  induction columns generalizing row with
  | nil =>
    rw [List.length_eq_zero_iff.mp fits]
    rfl
  | cons c columns ih =>
    cases row with
    | nil => cases fits
    | cons cell row =>
      have shorter : row.length = columns.length := by simpa using fits
      have rest := ih shorter
      simp only [List.zipWith_cons_cons, List.map_cons, List.sum_cons, List.map_append, List.sum_append, List.map_nil,
        List.sum_nil] at rest ⊢
      omega

theorem columns_length_addRow {t : Table} {row : List String} (fits : row.length = t.columns.length) :
    (t.addRow row).columns.length = t.columns.length := by
  rw [Table.addRow, List.length_zipWith, fits, Nat.min_self]

theorem size_addRows {rows : List (List String)} {t : Table} (fits : ∀ row ∈ rows, row.length = t.columns.length) :
    (rows.foldl Table.addRow t).size = t.size + (rows.map fun row => (row.map String.length).sum).sum := by
  induction rows generalizing t with
  | nil => rfl
  | cons row rows ih =>
    have here := fits row List.mem_cons_self
    rw [List.foldl_cons, ih fun r hr => (fits r (List.mem_cons_of_mem row hr)).trans (columns_length_addRow here).symm,
      size_addRow here, List.map_cons, List.sum_cons, Nat.add_assoc]

theorem Grid.size_print (grid : Grid) :
    (grid.print f).size = ((grid.title ++ grid.rows.flatten.flatten).map fun p => (f p).length).sum := by
  have empty : (dataTable (grid.title.text f) (grid.headings.map Heading.column)).size = (grid.title.text f).length := by
    simp [Table.size, dataTable, Function.comp_def]
  have fits : ∀ row ∈ grid.rows.map (·.map (Line.text f)),
      row.length = (dataTable (grid.title.text f) (grid.headings.map Heading.column)).columns.length := by
    intro row printed
    obtain ⟨lines, hl, rfl⟩ := List.mem_map.mp printed
    simpa [dataTable] using grid.fits lines hl
  rw [Grid.print, size_addRows fits, empty, Line.length_text, List.map_append, List.sum_append, List.map_flatten,
    List.sum_flatten, List.map_flatten, List.map_flatten, List.sum_flatten]
  simp only [List.map_map, Function.comp_def, Line.length_text]

theorem Layout.size_print (l : Layout) : (l.print f).size = (l.pieces.map fun p => (f p).length).sum := by
  cases l with
  | text line => exact line.length_text
  | duration before after =>
    rw [Layout.print, Printed.size, Line.length_text, Line.length_text, Layout.pieces, List.map_append, List.sum_append]
  | table grid => exact grid.size_print
  | panel content borderStyle => exact content.length_text

/-! ### Literal layouts -/

/-- Numbers with the same sum are the same, if none is greater than its counterpart. -/
theorem eq_of_sum_eq {ps : List Piece} {a b : Piece → Nat} (le : ∀ p, a p ≤ b p)
    (same : (ps.map a).sum = (ps.map b).sum) :
    ∀ p ∈ ps, a p = b p := by
  induction ps with
  | nil => exact nofun
  | cons p ps ih =>
    have below : (ps.map a).sum ≤ (ps.map b).sum := List.sum_le_sum fun q _ => le q
    have here := le p
    simp only [List.map_cons, List.sum_cons] at same
    intro q hq
    rcases List.mem_cons.mp hq with rfl | hq
    · omega
    · exact ih (by omega) q hq

variable {escape : String → String}

/-- A layout is printed as if all its texts were escaped just in case escaping would change none of them. -/
theorem Layout.print_literal_iff (inserts : Markup.Inserts escape) (l : Layout) :
    l.print (Piece.printed escape) = l.print (Piece.literal escape) ↔ ∀ t ∈ l.bareTexts, escape t = t := by
  refine ⟨fun same t ht => ?_, fun h => print_congr fun p hp => ?_⟩
  · obtain ⟨p, hp, bare⟩ := List.mem_filterMap.mp ht
    have sizes := congrArg Printed.size same
    rw [l.size_print, l.size_print] at sizes
    exact Piece.printed_eq_of_length inserts (eq_of_sum_eq (Piece.length_printed_le inserts) sizes p hp) bare
  · exact Piece.printed_eq_literal fun t ht => h t (List.mem_filterMap.mpr ⟨p, hp, ht⟩)

theorem map_print_literal_iff (inserts : Markup.Inserts escape) (ls : List Layout) :
    ls.map (·.print (Piece.printed escape)) = ls.map (·.print (Piece.literal escape)) ↔
      ∀ t ∈ ls.flatMap Layout.bareTexts, escape t = t := by
  simp only [List.map_inj_left, Layout.print_literal_iff inserts, List.mem_flatMap]
  exact ⟨fun h t ⟨l, hl, ht⟩ => h l hl t ht, fun h l hl t ht => h t ⟨l, hl, ht⟩⟩

end TypeAtlas.Console
