import TypeAtlas.CommandLine.Basic
import TypeAtlas.Proofs.Console.Layouts

/-! What the command line prints, by layouts. Errors, names of types, types and the name asked for are escaped; the
names of excluded directories, the project's path and name, the path of the written model and the names of constants
and members stand as they are. So all texts come out literally just in case escaping would change none of these. -/

namespace TypeAtlas.CommandLine

open Console (Layout Line Piece)

variable {escape : String → String} (fs : Files) (workingDirectory : Path)

/-! ### Extraction -/

def introLayouts (o : ExtractOptions) : List Layout :=
  (if (exclusions o).isEmpty then [] else [.text (.own "[dim]Excluding:[/dim] " :: Line.names (exclusions o))])
    ++ [.text [.own "[cyan]Extracting type model of:[/cyan] ",
      .bare ((Path.ofString o.path).resolve workingDirectory).toString]]

theorem print_introLayouts (o : ExtractOptions) :
    (introLayouts workingDirectory o).map (·.print (Piece.printed escape)) = extractIntro workingDirectory o := by
  simp [introLayouts, extractIntro, apply_ite (List.map _)]

theorem bareTexts_introLayouts (o : ExtractOptions) :
    (introLayouts workingDirectory o).flatMap Layout.bareTexts =
      exclusions o ++ [((Path.ofString o.path).resolve workingDirectory).toString] := by
  rw [introLayouts, List.flatMap_append, Console.bareTexts_unless_empty fun empty => by simp [empty]]
  simp

def resultLayouts (m : Model) : List Layout := [
  .text [.own "\n[green]✓[/green] [bold green]Extraction complete![/bold green]"],
  .table (Console.summaryGrid m),
  .duration [.own "[dim]⏱  Extraction: "] [.own "s[/dim]"]]

theorem print_resultLayouts (m : Model) :
    (resultLayouts m).map (·.print (Piece.printed escape)) = extractResults m := by
  simp [resultLayouts, extractResults, Console.print_summaryGrid, Console.statusIcon]

theorem bareTexts_resultLayouts (m : Model) : (resultLayouts m).flatMap Layout.bareTexts = [] := by
  simp [resultLayouts, Console.bareTexts_summaryGrid]

def errorLayout (message : Line) : Layout := .text (.own "[red]Error:[/red] " :: message)

/-- Where a model is written, if it is to be written and can be. -/
def written? (o : ExtractOptions) : Option Path :=
  if o.output = "" then none
  else match fs.writeFailure? (Path.ofString o.output) with
    | some _ => none
    | none => some (Path.ofString o.output)

def writtenLayouts (o : ExtractOptions) : List Layout :=
  (written? fs o).toList.map fun path => .text [.own "\n[green]Model written to:[/green] ", .bare path.toString]

def extractLayouts (o : ExtractOptions) : List Layout :=
  introLayouts workingDirectory o ++
    match (extractModel fs (project workingDirectory o.path o.libraries (exclusions o)) o.settings).1 with
    | .error e => [errorLayout [.escaped e.message]]
    | .ok m => resultLayouts m ++ writtenLayouts fs o

/-- What an extraction prints as it is: the excluded names, the project's path and the path of the model, if that is
written. -/
def extractTexts (o : ExtractOptions) : List String :=
  exclusions o ++ [((Path.ofString o.path).resolve workingDirectory).toString] ++
    match (extractModel fs (project workingDirectory o.path o.libraries (exclusions o)) o.settings).1 with
    | .error _ => []
    | .ok _ => (written? fs o).toList.map (·.toString)

theorem print_extractLayouts (o : ExtractOptions) :
    (extractLayouts fs workingDirectory o).map (·.print (Piece.printed escape)) =
      (runExtract escape fs workingDirectory o).printed := by
  rw [extractLayouts, runExtract]
  rcases extractModel fs (project workingDirectory o.path o.libraries (exclusions o)) o.settings with ⟨e | m, warnings⟩
  · simp [print_introLayouts, errorLayout, failed]
  · rw [List.map_append, List.map_append, print_introLayouts, print_resultLayouts]
    by_cases unwritten : o.output = ""
    · simp [unwritten, writtenLayouts, written?]
    · cases h : fs.writeFailure? (Path.ofString o.output) <;> simp [h, unwritten, writtenLayouts, written?]

theorem bareTexts_extractLayouts (o : ExtractOptions) :
    (extractLayouts fs workingDirectory o).flatMap Layout.bareTexts = extractTexts fs workingDirectory o := by
  have written : (writtenLayouts fs o).flatMap Layout.bareTexts = (written? fs o).toList.map (·.toString) := by
    simp [writtenLayouts, List.flatMap_map, ← List.map_eq_flatMap]
  rw [extractLayouts, extractTexts, List.flatMap_append, bareTexts_introLayouts]
  congr 1
  split
  · simp [errorLayout]
  · rw [List.flatMap_append, bareTexts_resultLayouts, written, List.nil_append]

/-! ### Showing types -/

theorem depthLimit_pos : 0 < 64 := by decide

/-- The settings that types are shown with, which are the usual ones. -/
def usualSettings : Settings := { maxDepth_pos := depthLimit_pos }

def shownModel (o : ShowOptions) : Except Error Model × List Warning :=
  extractModel fs (project workingDirectory o.path o.libraries Sources.defaultExclusions) usualSettings

def showLayouts (o : ShowOptions) : List Layout :=
  match (shownModel fs workingDirectory o).1 with
  | .error e => [errorLayout [.escaped e.message]]
  | .ok m =>
    match o.typeName with
    | none => [.table (Console.typeGrid m o.withExternals)]
    | some name =>
      match m.get? name with
      | none => [errorLayout [.own "Type ", .escaped name, .own " not found in the model"]]
      | some e => Console.detailLayouts e (m.isExternal name)

/-- What showing types prints as it is: the project's name over the list of types, and the names of the constants,
attributes, methods and parameters of a type in detail. -/
def showTexts (o : ShowOptions) : List String :=
  match (shownModel fs workingDirectory o).1 with
  | .error _ => []
  | .ok m =>
    match o.typeName with
    | none => [m.project]
    | some name =>
      match m.get? name with
      | none => []
      | some e => e.constants ++ e.attributes.map (·.identifier)
          ++ e.methods.flatMap fun m => m.name :: m.parameters.map (·.identifier)

theorem print_showLayouts (o : ShowOptions) :
    (showLayouts fs workingDirectory o).map (·.print (Piece.printed escape)) =
      (runShow escape fs workingDirectory o).printed := by
  have shown : extractModel fs (project workingDirectory o.path o.libraries Sources.defaultExclusions) {} =
      shownModel fs workingDirectory o := rfl
  rw [showLayouts, runShow, shown]
  rcases shownModel fs workingDirectory o with ⟨e | m, warnings⟩
  · simp [errorLayout, failed]
  · cases o.typeName with
    | none => simp [Console.print_typeGrid]
    | some name =>
      cases found : m.get? name with
      | none => simp [found, errorLayout, failed, String.append_assoc]
      | some e => simp [found, Console.print_detailLayouts]

theorem bareTexts_showLayouts (o : ShowOptions) :
    (showLayouts fs workingDirectory o).flatMap Layout.bareTexts = showTexts fs workingDirectory o := by
  rw [showLayouts, showTexts]
  split
  · simp [errorLayout]
  · rename_i m _
    cases o.typeName with
    | none => simp [Console.bareTexts_typeGrid]
    | some name =>
      cases found : m.get? name with
      | none => simp [found, errorLayout]
      | some e => simp only [found, Console.bareTexts_detailLayouts]

/-! ### Runs -/

/-- What a run prints, with the texts it prints told from its own markup. -/
def layouts : Except Refusal Command → List Layout
  | .error _ => []
  | .ok (.extract o) => extractLayouts fs workingDirectory o
  | .ok (.showTypes o) => showLayouts fs workingDirectory o

/-- The texts that a run prints as they are. -/
def rawTexts : Except Refusal Command → List String
  | .error _ => []
  | .ok (.extract o) => extractTexts fs workingDirectory o
  | .ok (.showTypes o) => showTexts fs workingDirectory o

theorem print_layouts (asked : Except Refusal Command) :
    (layouts fs workingDirectory asked).map (·.print (Piece.printed escape)) =
      (carryOut escape fs workingDirectory asked).printed := by
  rcases asked with (_ | _) | (o | o)
  · rfl
  · rfl
  · exact print_extractLayouts fs workingDirectory o
  · exact print_showLayouts fs workingDirectory o

theorem bareTexts_layouts (asked : Except Refusal Command) :
    (layouts fs workingDirectory asked).flatMap Layout.bareTexts = rawTexts fs workingDirectory asked := by
  rcases asked with _ | (o | o)
  · rfl
  · exact bareTexts_extractLayouts fs workingDirectory o
  · exact bareTexts_showLayouts fs workingDirectory o

/-- However texts are escaped, if only by inserting characters, what is printed comes out as if all texts were escaped
just in case escaping would change none of the raw ones. -/
theorem carryOut_literal_iff (inserts : Markup.Inserts escape) (asked : Except Refusal Command) :
    (carryOut escape fs workingDirectory asked).printed =
        (layouts fs workingDirectory asked).map (·.print (Piece.literal escape)) ↔
      ∀ t ∈ rawTexts fs workingDirectory asked, escape t = t := by
  rw [← print_layouts, Console.map_print_literal_iff inserts, bareTexts_layouts]

/-- A run prints markup of its own, counts, escaped texts and the raw ones. It comes out as if it escaped them all
just in case no tag opens in a raw text and no single backslash ends it. -/
theorem printed_literal_iff (args : List String) :
    (run fs workingDirectory args).printed =
        (layouts fs workingDirectory (command fs args)).map (·.print (Piece.printed Markup.escape)) ∧
      (layouts fs workingDirectory (command fs args)).flatMap Layout.bareTexts =
        rawTexts fs workingDirectory (command fs args) ∧
      ((run fs workingDirectory args).printed =
          (layouts fs workingDirectory (command fs args)).map (·.print (Piece.literal Markup.escape)) ↔
        ∀ t ∈ rawTexts fs workingDirectory (command fs args), Markup.IsPlain t) := by
  refine ⟨(print_layouts fs workingDirectory _).symm, bareTexts_layouts fs workingDirectory _, ?_⟩
  rw [run, carryOut_literal_iff fs workingDirectory Markup.inserts_escape]
  simp only [Markup.escape_eq_self_iff]

def appFiles : Files := .ofEntries [⟨["app", "A.java"], .bytes (String.toUTF8 "class A {}")⟩]

/-- A name to exclude that closes a tag is printed as it is. -/
theorem printed_literal_closingTag :
    "[/b]" ∈ rawTexts appFiles ⟨true, ["home"]⟩ (command appFiles ["extract", "app", "--exclude", "[/b]"]) ∧
      (run appFiles ⟨true, ["home"]⟩ ["extract", "app", "--exclude", "[/b]"]).printed ≠
        (layouts appFiles ⟨true, ["home"]⟩ (command appFiles ["extract", "app", "--exclude", "[/b]"])).map
          (·.print (Piece.literal Markup.escape)) := by
  obtain ⟨o, asked, excluded⟩ :
      ∃ o, command appFiles ["extract", "app", "--exclude", "[/b]"] = .ok (.extract o) ∧ "[/b]" ∈ o.exclude :=
    ⟨_, rfl, by decide⟩
  have raw : "[/b]" ∈ rawTexts appFiles ⟨true, ["home"]⟩ (command appFiles ["extract", "app", "--exclude", "[/b]"]) := by
    rw [asked]
    exact List.mem_append_left _ (List.mem_append_left _ (List.mem_append_right _ excluded))
  refine ⟨raw, fun literal => ?_⟩
  have plain := (printed_literal_iff appFiles ⟨true, ["home"]⟩ _).2.2.mp literal "[/b]" raw
  exact absurd plain.1 (by decide)

end TypeAtlas.CommandLine
