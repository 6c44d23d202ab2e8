import TypeAtlas.Proofs.Console.Pieces

/-! The views of a model as layouts. Each is printed as its view, and its texts that stand as they are can be listed:
they are the project's name and the names of constants and members. -/

namespace TypeAtlas.Console

variable {escape : String → String}

namespace Line

variable {f : Piece → String} {ps : Line}

@[simp] theorem text_nil : text f [] = "" := rfl

@[simp] theorem text_cons {p : Piece} : text f (p :: ps) = f p ++ text f ps := rfl

@[simp] theorem text_append {a b : Line} : text f (a ++ b) = text f a ++ text f b := by
  induction a with
  | nil => rw [List.nil_append, text_nil, String.empty_append]
  | cons p ps ih => rw [List.cons_append, text_cons, text_cons, ih, String.append_assoc]

@[simp] theorem bareTexts_nil : bareTexts [] = [] := rfl

@[simp] theorem bareTexts_own {markup : String} {known : markup ∈ ownTexts} :
    bareTexts (.own markup known :: ps) = bareTexts ps := rfl

@[simp] theorem bareTexts_count {n : Nat} : bareTexts (.count n :: ps) = bareTexts ps := rfl

@[simp] theorem bareTexts_escaped {text : String} : bareTexts (.escaped text :: ps) = bareTexts ps := rfl

@[simp] theorem bareTexts_bare {text : String} : bareTexts (.bare text :: ps) = text :: bareTexts ps := rfl

@[simp] theorem bareTexts_append {a b : Line} : bareTexts (a ++ b) = bareTexts a ++ bareTexts b :=
  List.filterMap_append

theorem bareTexts_flatten (ls : List Line) : bareTexts ls.flatten = ls.flatMap bareTexts := by
  rw [bareTexts, List.filterMap_flatten, List.flatMap]
  rfl

theorem commaList_cons_cons (a b : String) (rest : List String) :
    commaList (a :: b :: rest) = a ++ (", " ++ commaList (b :: rest)) := by
  rw [commaList, commaList, String.intercalate_cons_cons, String.append_assoc]

theorem text_commas (ls : List Line) :
    (commas ls).text (Piece.printed escape) = commaList (ls.map (text (Piece.printed escape))) := by
  induction ls with
  | nil => rfl
  | cons l ls ih =>
    cases ls with
    | nil => simp [commas, commaList]
    | cons l' ls =>
      rw [commas, text_append, text_cons, ih]
      · exact (commaList_cons_cons ..).symm
      · exact nofun

theorem bareTexts_commas (ls : List Line) : (commas ls).bareTexts = ls.flatMap bareTexts := by
  induction ls with
  | nil => rfl
  | cons l ls ih =>
    cases ls with
    | nil => simp [commas]
    | cons l' ls =>
      rw [commas, bareTexts_append, bareTexts_own, ih, ← List.flatMap_cons]
      exact nofun

def names (ns : List String) : Line := commas (ns.map fun n => [.bare n])

@[simp] theorem text_names (ns : List String) : (names ns).text (Piece.printed escape) = commaList ns := by
  rw [names, text_commas, List.map_map]
  simp [Function.comp_def]

@[simp] theorem bareTexts_names (ns : List String) : (names ns).bareTexts = ns := by
  simp [names, bareTexts_commas, List.flatMap_map]

end Line

/-! ### Tables with a row for each item -/

section Items

variable {α : Type} {f : Piece → String} {title : Line} {columns : List (Heading × (α → Line))} {items : List α}

/-- A table with a row for each of some items, by what its columns show of an item. -/
def Grid.ofItems (title : Line) (columns : List (Heading × (α → Line))) (items : List α) : Grid where
  title := title
  headings := columns.map (·.1)
  rows := items.map fun x => columns.map (·.2 x)
  fits := by simp

theorem Grid.print_ofItems :
    (Grid.ofItems title columns items).print f =
      items.foldl (fun t x => t.addRow (columns.map fun c => (c.2 x).text f))
        (dataTable (title.text f) (columns.map (·.1.column))) := by
  simp only [Grid.print, Grid.ofItems, List.map_map, List.foldl_map, Function.comp_def]

theorem Grid.bareTexts_ofItems :
    (Layout.table (Grid.ofItems title columns items)).bareTexts =
      title.bareTexts ++ items.flatMap fun x => columns.flatMap fun c => (c.2 x).bareTexts := by
  rw [Layout.bareTexts, Layout.pieces, Line.bareTexts_append, Line.bareTexts_flatten, ← List.flatMap_id,
    List.flatMap_assoc, Grid.ofItems, List.flatMap_map]
  simp only [id_eq, List.flatMap_map]

end Items

/-! ### The numbers of a model -/

def summaryGrid (m : Model) : Grid :=
  let ofKind (k : TypeKind) : Nat := m.types.countP (·.kind == k)
  .ofItems [.own "Extraction Results"] [
    (⟨"Metric", "left", "cyan", by decide⟩, fun r => [r.1]),
    (⟨"Count", "right", "green", by decide⟩, fun r => [.count r.2])] [
    (.own "Types", m.types.length),
    (.own "Classes", ofKind .classType),
    (.own "Interfaces", ofKind .interfaceType),
    (.own "Enums", ofKind .enumType),
    (.own "Exception types", m.types.countP (·.isThrowable)),
    (.own "Attributes", (m.types.flatMap (·.attributes)).length),
    (.own "Methods", (m.types.flatMap (·.methods)).length),
    (.own "External types", m.externals.length)]

theorem print_summaryGrid (m : Model) : (summaryGrid m).print (Piece.printed escape) = summary m := by
  simp [summaryGrid, Grid.print_ofItems, summary, summaryTable, dataTable, Heading.column]

theorem bareTexts_summaryGrid (m : Model) : (Layout.table (summaryGrid m)).bareTexts = [] := by
  simp [summaryGrid, Grid.bareTexts_ofItems]

/-! ### The list of types -/

def kindPiece : TypeKind → Piece
  | .classType => .own "[green]class[/green]"
  | .interfaceType => .own "[magenta]interface[/magenta]"
  | .enumType => .own "[yellow]enum[/yellow]"

@[simp] theorem printed_kindPiece (k : TypeKind) : (kindPiece k).printed escape = kind k.keyword := by
  cases k <;> rfl

@[simp] theorem bareTexts_kindPiece {k : TypeKind} {ps : Line} : Line.bareTexts (kindPiece k :: ps) = ps.bareTexts := by
  cases k <;> rfl

def externalLine (isExternal : Bool) : Line := if isExternal then [.own " [dim](external)[/dim]"] else []

@[simp] theorem text_externalLine (isExternal : Bool) :
    (externalLine isExternal).text (Piece.printed escape) = if isExternal then externalMark else "" := by
  cases isExternal <;> rfl

@[simp] theorem bareTexts_externalLine (isExternal : Bool) : (externalLine isExternal).bareTexts = [] := by
  cases isExternal <;> rfl

def typeGrid (m : Model) (withExternals : Bool) : Grid :=
  .ofItems [.own "Types of ", .bare m.project] [
    (⟨"Kind", "left", "white", by decide⟩, fun e => [kindPiece e.kind]),
    (⟨"Type", "left", "cyan", by decide⟩, fun e => .escaped e.fullName :: externalLine (m.isExternal e.fullName)),
    (⟨"Super class", "left", "dim", by decide⟩, fun e => e.superclass?.toList.map fun t => .escaped t.name),
    (⟨"Attributes", "right", "green", by decide⟩, fun e => [.count e.attributes.length]),
    (⟨"Methods", "right", "green", by decide⟩, fun e => [.count e.methods.length])]
    (if withExternals then m.entries else m.types)

theorem text_superclass (t : Option DataType) :
    Line.text (Piece.printed escape) (t.toList.map fun t => .escaped t.name) = (t.map fun t => escape t.name).getD "" := by
  cases t <;> simp

theorem bareTexts_superclass (t : Option DataType) : Line.bareTexts (t.toList.map fun t => .escaped t.name) = [] := by
  cases t <;> rfl

theorem print_typeGrid (m : Model) (withExternals : Bool) :
    (typeGrid m withExternals).print (Piece.printed escape) = typeTable escape m withExternals := by
  simp [typeGrid, Grid.print_ofItems, typeTable, typeRow, text_superclass, Heading.column]

theorem bareTexts_typeGrid (m : Model) (withExternals : Bool) :
    (Layout.table (typeGrid m withExternals)).bareTexts = [m.project] := by
  simp [typeGrid, Grid.bareTexts_ofItems, bareTexts_superclass]

/-! ### A type in detail -/

def typePiece : Option DataType → Piece
  | none => .own "void"
  | some t => .escaped t.typeString

@[simp] theorem printed_typePiece (t : Option DataType) : (typePiece t).printed escape = typeText escape t := by
  cases t <;> rfl

@[simp] theorem bareTexts_typePiece {t : Option DataType} {ps : Line} :
    Line.bareTexts (typePiece t :: ps) = ps.bareTexts := by
  cases t <;> rfl

def accessPiece : Access → Piece
  | .publicAccess => .own "public"
  | .protectedAccess => .own "protected"
  | .packageAccess => .own "package"
  | .privateAccess => .own "private"

@[simp] theorem printed_accessPiece (a : Access) : (accessPiece a).printed escape = a.keyword := by
  cases a <;> rfl

@[simp] theorem bareTexts_accessPiece {a : Access} {ps : Line} :
    Line.bareTexts (accessPiece a :: ps) = ps.bareTexts := by
  cases a <;> rfl

def superclassLine (e : Entry) : Line :=
  match e.superclass? with
  | none => []
  | some t => [.own "\nextends ", typePiece (some t)]

def throwableLine (e : Entry) : Line := if e.isThrowable then [.own "\n[yellow]throwable[/yellow]"] else []

def interfacesLine (e : Entry) : Line :=
  if e.interfaces.isEmpty then []
  else .own "\nimplements " :: Line.commas (e.interfaces.map fun t => [typePiece (some t)])

def subtitleLine (e : Entry) (isExternal : Bool) : Line :=
  kindPiece e.kind :: (externalLine isExternal ++ superclassLine e ++ throwableLine e ++ interfacesLine e)

theorem text_subtitleLine (e : Entry) (isExternal : Bool) :
    (subtitleLine e isExternal).text (Piece.printed escape) = typeSubtitle escape e isExternal := by
  have throwable : (throwableLine e).text (Piece.printed escape) =
      if e.isThrowable then "\n[yellow]throwable[/yellow]" else "" := by
    rw [throwableLine]
    split <;> simp
  have interfaces : (interfacesLine e).text (Piece.printed escape) =
      if e.interfaces.isEmpty then ""
      else "\nimplements " ++ commaList (e.interfaces.map fun t => typeText escape (some t)) := by
    rw [interfacesLine]
    split <;> simp [Line.text_commas, Function.comp_def]
  rw [subtitleLine, Line.text_cons, Line.text_append, Line.text_append, Line.text_append, throwable, interfaces,
    printed_kindPiece, text_externalLine, superclassLine, typeSubtitle]
  cases e.superclass? with
  | none => simp only [Line.text_nil, String.append_assoc]
  | some t =>
    simp only [Line.text_cons, Line.text_nil, Piece.printed_own, printed_typePiece, String.append_empty,
      String.append_assoc]

theorem bareTexts_subtitleLine (e : Entry) (isExternal : Bool) : (subtitleLine e isExternal).bareTexts = [] := by
  have superclass : (superclassLine e).bareTexts = [] := by
    rw [superclassLine]
    split <;> simp
  have throwable : (throwableLine e).bareTexts = [] := by
    rw [throwableLine]
    split <;> simp
  have interfaces : (interfacesLine e).bareTexts = [] := by
    rw [interfacesLine]
    split <;> simp [Line.bareTexts_commas]
  simp [subtitleLine, superclass, throwable, interfaces]

def flagsLine (a : Attribute) : Line :=
  match a.isStatic, a.isFinal with
  | true, true => [.own "static", .own " ", .own "final"]
  | true, false => [.own "static"]
  | false, true => [.own "final"]
  | false, false => []

theorem text_flagsLine (a : Attribute) :
    (flagsLine a).text (Piece.printed escape) = String.intercalate " "
      ((if a.isStatic then ["static"] else []) ++ (if a.isFinal then ["final"] else [])) := by
  rw [flagsLine]
  split <;> simp [*]

@[simp] theorem bareTexts_flagsLine (a : Attribute) : (flagsLine a).bareTexts = [] := by
  rw [flagsLine]
  split <;> rfl

def attributeGrid (e : Entry) : Grid :=
  .ofItems [.own "Attributes"] [
    (⟨"Name", "left", "cyan", by decide⟩, fun a => [.bare a.identifier]),
    (⟨"Type", "left", "white", by decide⟩, fun a => [typePiece (some a.dataType)]),
    (⟨"Access", "left", "dim", by decide⟩, fun a => [accessPiece a.access]),
    (⟨"Flags", "left", "yellow", by decide⟩, flagsLine)]
    e.attributes

theorem print_attributeGrid (e : Entry) : (attributeGrid e).print (Piece.printed escape) = attributeTable escape e := by
  simp [attributeGrid, Grid.print_ofItems, attributeTable, attributeRow, text_flagsLine, Heading.column]

theorem bareTexts_attributeGrid (e : Entry) :
    (Layout.table (attributeGrid e)).bareTexts = e.attributes.map (·.identifier) := by
  simp [attributeGrid, Grid.bareTexts_ofItems, ← List.map_eq_flatMap]

def parametersLine (m : Method) : Line :=
  Line.commas (m.parameters.map fun p => [typePiece (some p.dataType), .own " ", .bare p.identifier])

theorem text_parametersLine (m : Method) :
    (parametersLine m).text (Piece.printed escape) =
      commaList (m.parameters.map fun p => typeText escape (some p.dataType) ++ " " ++ p.identifier) := by
  simp [parametersLine, Line.text_commas, Function.comp_def, String.append_assoc]

@[simp] theorem bareTexts_parametersLine (m : Method) :
    (parametersLine m).bareTexts = m.parameters.map (·.identifier) := by
  simp [parametersLine, Line.bareTexts_commas, List.flatMap_map, ← List.map_eq_flatMap]

def methodGrid (e : Entry) : Grid :=
  .ofItems [.own "Methods"] [
    (⟨"Name", "left", "cyan", by decide⟩, fun m => [.bare m.name]),
    (⟨"Parameters", "left", "white", by decide⟩, parametersLine),
    (⟨"Returns", "left", "white", by decide⟩, fun m => if m.isConstructor then [] else [typePiece m.returnType]),
    (⟨"Access", "left", "dim", by decide⟩, fun m => [accessPiece m.access])]
    e.methods

theorem print_methodGrid (e : Entry) : (methodGrid e).print (Piece.printed escape) = methodTable escape e := by
  simp [methodGrid, Grid.print_ofItems, methodTable, methodRow, text_parametersLine, Heading.column,
    apply_ite (Line.text (Piece.printed escape))]

theorem bareTexts_methodGrid (e : Entry) :
    (Layout.table (methodGrid e)).bareTexts = e.methods.flatMap fun m => m.name :: m.parameters.map (·.identifier) := by
  simp [methodGrid, Grid.bareTexts_ofItems, apply_ite Line.bareTexts]

def headerLayout (e : Entry) (isExternal : Bool) : Layout :=
  .panel (.own "[bold cyan]" :: .escaped e.fullName :: .own "[/bold cyan]" :: .own "\n" :: subtitleLine e isExternal)
    "cyan"

theorem print_headerLayout (e : Entry) (isExternal : Bool) :
    (headerLayout e isExternal).print (Piece.printed escape) =
      .panel (headerPanel (escape e.fullName) (typeSubtitle escape e isExternal) "cyan") := by
  have subtitle : typeSubtitle escape e isExternal ≠ "" := by simp [typeSubtitle, kind]
  simp [headerLayout, headerPanel, subtitle, text_subtitleLine, String.append_assoc]

def detailLayouts (e : Entry) (isExternal : Bool) : List Layout :=
  [headerLayout e isExternal]
    ++ (if e.constants.isEmpty then [] else [.text (.own "[cyan]Constants:[/cyan] " :: Line.names e.constants)])
    ++ (if e.attributes.isEmpty then [] else [.table (attributeGrid e)])
    ++ (if e.methods.isEmpty then [] else [.table (methodGrid e)])

theorem print_detailLayouts (e : Entry) (isExternal : Bool) :
    (detailLayouts e isExternal).map (·.print (Piece.printed escape)) = typeDetails escape e isExternal := by
  simp only [detailLayouts, typeDetails, List.map_append, apply_ite (List.map _), List.map_cons, List.map_nil,
    print_headerLayout, Layout.print_text, Line.text_cons, Piece.printed_own, Line.text_names, Layout.print_table,
    print_attributeGrid, print_methodGrid]

/-- What shows no item has nothing to say. -/
theorem bareTexts_unless_empty {α : Type} {items : List α} {l : Layout} (h : items = [] → l.bareTexts = []) :
    (if items.isEmpty then [] else [l]).flatMap Layout.bareTexts = l.bareTexts := by
  cases items with
  | nil => simpa using (h rfl).symm
  | cons x xs => simp

theorem bareTexts_detailLayouts (e : Entry) (isExternal : Bool) :
    (detailLayouts e isExternal).flatMap Layout.bareTexts =
      e.constants ++ e.attributes.map (·.identifier)
        ++ e.methods.flatMap fun m => m.name :: m.parameters.map (·.identifier) := by
  have header : (headerLayout e isExternal).bareTexts = [] := by simp [headerLayout, bareTexts_subtitleLine]
  rw [detailLayouts, List.flatMap_append, List.flatMap_append, List.flatMap_append, List.flatMap_singleton, header,
    bareTexts_unless_empty fun empty => by simp [empty],
    bareTexts_unless_empty fun empty => by simp [bareTexts_attributeGrid, empty],
    bareTexts_unless_empty fun empty => by simp [bareTexts_methodGrid, empty],
    bareTexts_attributeGrid, bareTexts_methodGrid]
  simp

end TypeAtlas.Console
