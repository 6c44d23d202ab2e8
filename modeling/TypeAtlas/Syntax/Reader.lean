import TypeAtlas.Syntax.Header

/-! Reading declarations from a syntax tree. A file gives a declaration for every type in it, outer
types before the types nested in them; blocks and initializers are not looked at. The names of a
declaration see the whole file's package and imports. -/

namespace TypeAtlas.Syntax

/-- Where a type declaration stands: its file, the package or type that qualifies its name, the types
around it and the type variables in sight. -/
structure Place where
  path : Option String
  unit : CompilationUnit
  owner : String
  outer : Option String
  enclosing : List String
  typeVariables : List String

namespace Place

def top (path : Option String) (unit : CompilationUnit) (package : String) : Place :=
  ⟨path, unit, package, none, [], []⟩

def scope (p : Place) (name : String) (parameters : List TypeParameterDecl) : LexicalScope where
  unit := p.unit
  enclosing := Text.qualify p.owner name :: p.enclosing
  typeVariables := p.typeVariables ++ parameters.map (·.name)

/-- The place of a member type of the type `owner` with the given scope. A static one does not see the
type variables around it. -/
def member (p : Place) (owner : String) (s : LexicalScope) (isStatic : Bool) : Place where
  path := p.path
  unit := p.unit
  owner := owner
  outer := some owner
  enclosing := s.enclosing
  typeVariables := if isStatic then [] else s.typeVariables

end Place

structure Members where
  fields : List FieldDecl := []
  methods : List MethodDecl := []
  nested : List Declaration := []

/-- A declaration with its members, before the types nested in it. -/
def Members.close (m : Members) (d : Declaration) : List Declaration :=
  { d with fields := m.fields, methods := m.methods } :: m.nested

structure Owner where
  place : Place
  name : String
  scope : LexicalScope
  isInterface : Bool

namespace Tree

def constant (o : Owner) (t : Tree) : FieldDecl where
  name := t.nameText
  signature := "Q" ++ Text.simpleName o.name ++ ";"
  modifiers := ["public", "static", "final"]
  isConstant := true

/-- The fields of one declaration, which share type and modifiers. -/
def fields (o : Owner) (t : Tree) : Except Error (List FieldDecl) := do
  let modifiers := t.modifiers ++ if o.isInterface then ["public", "static", "final"] else []
  let signature ← declaredType o.place.path (t.child? "type")
  .ok ((ofKind .variableDeclarator t.namedChildren).map fun d =>
    ⟨d.nameText, dimensionMarks d.dimensions ++ signature, modifiers, false⟩)

/-- The modifiers of a method with those that an interface implies. -/
def methodModifiers (isInterface : Bool) (t : Tree) : List String :=
  let modifiers := t.modifiers
  if !isInterface || modifiers.contains "private" then modifiers
  else
    let isAbstract := (t.child? "body").isNone
      && !modifiers.contains "static" && !modifiers.contains "default"
    modifiers ++ "public" :: if isAbstract then ["abstract"] else []

def completeMethod (o : Owner) (m : MethodDecl) (t : Tree) : Except Error MethodDecl := do
  let typeParameters ← t.typeParameters o.place.path
  let parameters ← t.parameters o.place.path
  let throws ← t.throwsTypes o.place.path
  .ok { m with
    typeParameters := typeParameters
    scope := some (.lexical (o.scope.withTypeVariables (typeParameters.map (·.name))))
    parameters := m.parameters ++ parameters
    throws := throws }

def method (o : Owner) (t : Tree) : Except Error MethodDecl := do
  let returns ← declaredType o.place.path (t.child? "type")
  completeMethod o {
    name := t.nameText
    returns := dimensionMarks t.dimensions ++ returns
    modifiers := methodModifiers o.isInterface t } t

/-- A constructor; a compact one takes the fields so far as its parameters. -/
def constructor (o : Owner) (fields : List FieldDecl) (t : Tree) : Except Error MethodDecl :=
  completeMethod o {
    name := Text.simpleName o.name
    modifiers := t.modifiers
    isConstructor := true
    parameters := if t.kind = .compactConstructorDeclaration
      then fields.map fun f => ⟨f.name, f.signature, false⟩ else [] } t

/-- The components of a record, which are private fields. -/
def components (path : Option String) (t : Tree) : Except Error (List FieldDecl) := do
  let parameters ← t.parameters path
  .ok (parameters.map fun p =>
    ⟨p.name, if p.isVariadic then "[" ++ p.signature else p.signature, ["private", "final"], false⟩)

def declarationHead (p : Place) (kind : TypeKind) (t : Tree) : Except Error Declaration := do
  let typeParameters ← t.typeParameters p.path
  let supertypes ← t.supertypes p.path
  let d : Declaration := {
    name := Text.qualify p.owner t.nameText
    kind := .known kind
    modifiers := t.modifiers
    superclass := supertypes.superclass
    interfaces := supertypes.interfaces
    typeParameters := typeParameters
    outer := p.outer
    scope := some (.lexical (p.scope t.nameText typeParameters))
    sourceFile := p.path.filter (· ≠ "") }
  if t.kind = .recordDeclaration then do
    let components ← t.components p.path
    .ok { d with superclass := some "Qjava.lang.Record;", fields := components }
  else .ok d

/-- Opens a type: what it declares outside its body, and itself as the owner of what is in there. A
type without a name is left out. -/
def openType (p : Place) (kind : TypeKind) (t : Tree) : Warned (Option (Declaration × Owner)) := do
  if t.nameText = "" then
    warn (.namelessType t.line p.path)
    return none
  let d ← declarationHead p kind t
  return some (d, ⟨p, d.name, p.scope t.nameText d.typeParameters, kind = .interfaceType⟩)

mutual

/-- The members in the first child known as body. -/
def readBody (o : Owner) (m : Members) : List Tree → Warned Members
  | [] => return m
  | t :: ts => if t.field = some "body" then readInside o m t else readBody o m ts
termination_by structural ts => ts

def readInside (o : Owner) (m : Members) : Tree → Warned Members
  | ⟨_, _, _, _, _, children⟩ => readMembers o m children
termination_by structural t => t

def readMembers (o : Owner) (m : Members) : List Tree → Warned Members
  | [] => return m
  | t :: ts => do
    let m ← readMember o m t
    readMembers o m ts
termination_by structural ts => ts

def readMember (o : Owner) (m : Members) : Tree → Warned Members
  | ⟨kind, isNamed, field, text, line, children⟩ => do
    let t : Tree := ⟨kind, isNamed, field, text, line, children⟩
    if !isNamed then return m
    match kind with
    | .enumConstant => return { m with fields := m.fields ++ [t.constant o] }
    | .enumBodyDeclarations => readMembers o m children
    | .fieldDeclaration | .constantDeclaration =>
      let fields ← t.fields o
      return { m with fields := m.fields ++ fields }
    | .methodDeclaration | .annotationTypeElementDeclaration =>
      let method ← t.method o
      return { m with methods := m.methods ++ [method] }
    | .constructorDeclaration | .compactConstructorDeclaration =>
      let method ← t.constructor o m.fields
      return { m with methods := m.methods ++ [method] }
    | kind =>
      match kind.typeKind? with
      | none => return m
      | some typeKind =>
        let place := o.place.member o.name o.scope (t.modifiers.contains "static")
        match ← t.openType place typeKind with
        | none => return m
        | some (d, inner) =>
          let body ← readBody inner { fields := d.fields } children
          return { m with nested := m.nested ++ body.close d }
termination_by structural t => t

end

/-- The declaration of a type and those of the types nested in it; none if it has no name. -/
def readType (p : Place) (kind : TypeKind) (t : Tree) : Warned (List Declaration) := do
  match ← t.openType p kind with
  | none => return []
  | some (d, inner) => do
    let body ← readBody inner { fields := d.fields } t.children
    return body.close d

end Tree

/-- Reads the top-level nodes of a file. A type's name is qualified by the package declared before it. -/
def readTop (path : Option String) (unit : CompilationUnit) :
    (package : String) → List Tree → Warned (List Declaration)
  | _, [] => return []
  | package, t :: ts =>
    match t.kind with
    | .packageDeclaration => readTop path unit t.packageName ts
    | .importDeclaration => do
      if t.names.isEmpty then warn (.unreadableImport t.text path)
      readTop path unit package ts
    | kind =>
      match kind.typeKind? with
      | none => readTop path unit package ts
      | some typeKind => do
        let first ← t.readType (.top path unit package) typeKind
        let rest ← readTop path unit package ts
        return first ++ rest

/-- A parsed file; a parser that recovers from errors says whether there were any. -/
structure ParsedFile where
  root : Tree
  hasError : Bool := false

abbrev Parser := String → ParsedFile

def ParsedFile.read (f : ParsedFile) (path : Option String) : Warned (List Declaration) := do
  if f.hasError then warn (.syntaxErrors path)
  readTop path (unitOf f.root) "" f.root.namedChildren

end TypeAtlas.Syntax
