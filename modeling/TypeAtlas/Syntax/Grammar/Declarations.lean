import TypeAtlas.Syntax.Grammar.Types

/-! The grammar of files, type declarations and their members. Bodies of methods, initializers and
arguments are passed over: groups of brackets as a whole, and between them up to the comma or
semicolon that ends them. -/

namespace TypeAtlas.Syntax.Parse

/-- Passes over an expression up to, and without, a token that `ends` it outside all brackets. What
can be read as type arguments is taken as such, for their commas end nothing. -/
def expression (ends : Token → Bool) : (limit : Nat) → Parse Unit
  | 0 => failure
  | limit + 1 => do
    let t ← look
    if ends t then return
    if t.opens then group
    else if t.closes then failure
    else
      match ← (if t.isSymbol '<' then attempt (typeArguments limit) else return none) with
      | some _ => pure ()
      | none => let _ ← take
    expression ends limit

/-- Passes over an expression that is not empty. -/
def value (ends : Token → Bool) (limit : Nat) : Parse Unit := do
  if ← nextIs ends then failure else expression ends limit

def modifierWords : List String :=
  ["public", "protected", "private", "abstract", "static", "final", "strictfp", "default",
    "synchronized", "native", "transient", "volatile", "sealed"]

def token (t : Token) : Tree := ⟨.ofName t.text, false, none, t.text, t.line, []⟩

/-- Takes a modifier, if one is next: a keyword, which gives a node, or an annotation. -/
def modifier? : Parse (Option (List Tree)) := do
  match ← ahead with
  | a :: b :: c :: _ =>
    if a.isWord "non" && b.isSymbol '-' && c.isWord "sealed" && a.stop = b.start && b.stop = c.start then
      let _ ← take
      let _ ← take
      let _ ← take
      return some [token { a with text := "non-sealed", stop := c.stop }]
    else if a.kind = .word && modifierWords.contains a.text then return some [token (← take)]
    else return (← annotation?).map fun _ => []
  | _ => return none

def modifiers : Parse (List Tree) := do
  let c ← get
  match c.tokens, ← many modifier? (← left) with
  | start :: _, first :: rest => return [← node .modifiers none start (first ++ rest.flatten)]
  | _, _ => return []

def commaTypes (limit : Nat) : Parse (List Tree) := commaSeparated (annotatedType limit)

/-- A clause with a list of types after a keyword, if it is next. -/
def typeClause (limit : Nat) (word : String) (kind : NodeKind) : Parse (List Tree) := do
  if ← nextIs (·.isWord word) then
    let start ← take
    let first ← look
    let types ← commaTypes limit
    let list ← node .typeList none first types
    return [← node kind none start [list]]
  else return []

def superclass (limit : Nat) : Parse (List Tree) := do
  if ← nextIs (·.isWord "extends") then
    let start ← take
    let t ← annotatedType limit
    return [← node .superclass none start [t]]
  else return []

def throwsClause (limit : Nat) : Parse (List Tree) := do
  if ← nextIs (·.isWord "throws") then
    let start ← take
    let types ← commaTypes limit
    return [← node .throws none start types]
  else return []

def typeBound (limit : Nat) : Parse (List Tree) := do
  if ← nextIs (·.isWord "extends") then
    let start ← take
    let first ← annotatedType limit
    let rest ← many (do
      if ← takeIf (·.isSymbol '&') then return some (← annotatedType limit) else return none) (← left)
    return [← node .typeBound none start (first :: rest)]
  else return []

def typeParameter (limit : Nat) : Parse Tree := do
  let start ← look
  let _ ← annotations
  let name ← identifier
  let bound ← typeBound limit
  node .typeParameter none start (leaf .typeIdentifier none name :: bound)

def typeParameters (limit : Nat) : Parse (List Tree) := do
  if ← nextIs (·.isSymbol '<') then
    let start ← take
    let parameters ← commaSeparated (typeParameter limit)
    let _ ← symbol '>'
    return [← node (.other "type_parameters") (some "type_parameters") start parameters]
  else return []

def nameLeaf (t : Token) : Tree := leaf .identifier (some "name") t

def declaratorId : Parse (List Tree) := do
  let name ← identifier
  return nameLeaf name :: (← dimensions?).toList

def dots : Parse Bool := do
  match ← ahead with
  | a :: b :: c :: _ =>
    if a.isSymbol '.' && b.isSymbol '.' && c.isSymbol '.' then
      let _ ← take
      let _ ← take
      let _ ← take
      return true
    else return false
  | _ => return false

/-- The dots of variable arity, with the annotations before them. -/
def ellipsis : Parse Bool := do
  let found ← attempt do
    let _ ← annotations
    if ← dots then return () else failure
  return found.isSome

/-- A parameter; the receiver of a method is one too, of a kind of its own. -/
def formalParameter (limit : Nat) : Parse Tree := do
  let start ← look
  let modifiers ← modifiers
  let t ← type limit
  if ← ellipsis then
    let first ← look
    let declarator ← node .variableDeclarator none first (← declaratorId)
    node .spreadParameter none start (modifiers ++ [t, declarator])
  else
    match ← attempt declaratorId with
    | some declarator =>
      if ← nextIs (·.isSymbol '.') then
        expression (fun t => t.isSymbol ',' || t.isSymbol ')') limit <|> pure ()
        node (.other "receiver_parameter") none start []
      else node .formalParameter none start (modifiers ++ { t with field := some "type" } :: declarator)
    | none =>
      let _ ← word "this"
      node (.other "receiver_parameter") none start []

def formalParameters (limit : Nat) : Parse Tree := do
  let start ← symbol '('
  let parameters ← if ← nextIs (·.isSymbol ')') then pure [] else commaSeparated (formalParameter limit)
  let _ ← symbol ')'
  node (.other "formal_parameters") (some "parameters") start parameters

/-- A block, whose content leaves no nodes. -/
def block (field : Option String) : Parse Tree := do
  let start ← look
  if !start.isSymbol '\x7b' then failure
  group
  node (.other "block") field start []

def variableDeclarator (limit : Nat) : Parse Tree := do
  let start ← look
  let name ← declaratorId
  if ← takeIf (·.isSymbol '=') then
    value (fun t => t.isSymbol ',' || t.isSymbol ';') limit
  node .variableDeclarator none start name

inductive BodyKind
  | classBody
  | interfaceBody
  | annotationBody
  deriving DecidableEq

def BodyKind.fieldKind : BodyKind → NodeKind
  | .classBody => .fieldDeclaration
  | _ => .constantDeclaration

def BodyKind.methodKind : BodyKind → NodeKind
  | .annotationBody => .annotationTypeElementDeclaration
  | _ => .methodDeclaration

/-- What follows the name of a method: parameters, dimensions, exceptions, a default, a body. -/
def methodRest (limit : Nat) : Parse (List Tree) := do
  let parameters ← formalParameters limit
  let dimensions ← dimensions?
  let throws ← throwsClause limit
  if ← takeIf (·.isWord "default") then value (·.isSymbol ';') limit
  let body ← if ← takeIf (·.isSymbol ';') then pure [] else pure [← block (some "body")]
  return parameters :: dimensions.toList ++ throws ++ body

/-- A field, method, constructor or initializer, after its modifiers. -/
def plainMember (limit : Nat) (kind : BodyKind) (start : Token) (modifiers : List Tree) : Parse Tree := do
  if ← nextIs (·.isSymbol '\x7b') then
    group
    node (.other "static_initializer") none start []
  else
    let typeParameters ← typeParameters limit
    let _ ← annotations
    match ← ahead with
    | a :: b :: _ =>
      if a.isIdentifier && b.isSymbol '(' then
        let name ← take
        let rest ← methodRest limit
        node .constructorDeclaration none start (modifiers ++ typeParameters ++ nameLeaf name :: rest)
      else if a.isIdentifier && b.isSymbol '\x7b' then
        let name ← take
        let body ← block (some "body")
        node .compactConstructorDeclaration none start (modifiers ++ [nameLeaf name, body])
      else
        let t := { ← type limit with field := some "type" }
        match ← ahead with
        | _ :: c :: _ =>
          if c.isSymbol '(' then
            let name ← identifier
            let rest ← methodRest limit
            node kind.methodKind none start (modifiers ++ typeParameters ++ t :: nameLeaf name :: rest)
          else
            let declarators ← commaSeparated (variableDeclarator limit)
            let _ ← symbol ';'
            node kind.fieldKind none start (modifiers ++ t :: declarators)
        | _ => failure
    | _ => failure

/-- A constant of an enum; its arguments and body leave no nodes. -/
def enumConstant : Parse Tree := do
  let start ← look
  let modifiers ← modifiers
  let name ← identifier
  if ← nextIs (·.isSymbol '(') then group
  if ← nextIs (·.isSymbol '\x7b') then group
  node .enumConstant none start (modifiers ++ [nameLeaf name])

/-- The constants of an enum up to, and without, what ends them. -/
def enumConstants : (limit : Nat) → Parse (List Tree)
  | 0 => failure
  | limit + 1 => do
    if ← takeIf (·.isSymbol ',') then enumConstants limit
    else if ← nextIs fun t => t.isSymbol ';' || t.isSymbol '\x7d' then return []
    else
      let first ← enumConstant
      return first :: (← enumConstants limit)

mutual

/-- The members up to, and without, the bracket that closes the body. -/
def members (limit : Nat) (kind : BodyKind) : Parse (List Tree) :=
  match limit with
  | 0 => failure
  | limit + 1 => do
    if ← takeIf (·.isSymbol ';') then members limit kind
    else if ← nextIs (·.isSymbol '\x7d') then return []
    else
      let first ← member limit kind
      return first :: (← members limit kind)

def member (limit : Nat) (kind : BodyKind) : Parse Tree :=
  match limit with
  | 0 => failure
  | limit + 1 => do
    let start ← look
    let modifiers ← modifiers
    match ← typeDeclaration? limit start modifiers with
    | some t => return t
    | none => plainMember limit kind start modifiers

def body (limit : Nat) (kind : BodyKind) : Parse Tree :=
  match limit with
  | 0 => failure
  | limit + 1 => do
    let start ← symbol '\x7b'
    let members ← members limit kind
    let _ ← symbol '\x7d'
    node (.other "class_body") (some "body") start members

def enumBody (limit : Nat) : Parse Tree :=
  match limit with
  | 0 => failure
  | limit + 1 => do
    let start ← symbol '\x7b'
    let constants ← enumConstants limit
    let more ←
      if ← nextIs (·.isSymbol ';') then
        let first ← take
        let members ← members limit .classBody
        pure [← node .enumBodyDeclarations none first members]
      else pure []
    let _ ← symbol '\x7d'
    node (.other "enum_body") (some "body") start (constants ++ more)

def typeDeclaration? (limit : Nat) (start : Token) (modifiers : List Tree) : Parse (Option Tree) :=
  match limit with
  | 0 => failure
  | limit + 1 => do
    match ← ahead with
    | a :: b :: c :: _ =>
      if a.isWord "class" then
        let _ ← take
        let name ← identifier
        let typeParameters ← typeParameters limit
        let superclass ← superclass limit
        let interfaces ← typeClause limit "implements" .superInterfaces
        let permits ← typeClause limit "permits" (.other "permits")
        let body ← body limit .classBody
        return some (← node .classDeclaration none start
          (modifiers ++ nameLeaf name :: typeParameters ++ superclass ++ interfaces ++ permits ++ [body]))
      else if a.isWord "interface" then
        let _ ← take
        let name ← identifier
        let typeParameters ← typeParameters limit
        let interfaces ← typeClause limit "extends" .extendsInterfaces
        let permits ← typeClause limit "permits" (.other "permits")
        let body ← body limit .interfaceBody
        return some (← node .interfaceDeclaration none start
          (modifiers ++ nameLeaf name :: typeParameters ++ interfaces ++ permits ++ [body]))
      else if a.isSymbol '@' && b.isWord "interface" then
        let _ ← take
        let _ ← take
        let name ← identifier
        let body ← body limit .annotationBody
        return some (← node .annotationTypeDeclaration none start
          (modifiers ++ [nameLeaf name, body]))
      else if a.isWord "enum" then
        let _ ← take
        let name ← identifier
        let interfaces ← typeClause limit "implements" .superInterfaces
        let body ← enumBody limit
        return some (← node .enumDeclaration none start
          (modifiers ++ nameLeaf name :: interfaces ++ [body]))
      else if a.isWord "record" && b.isIdentifier && (c.isSymbol '(' || c.isSymbol '<') then
        let _ ← take
        let name ← identifier
        let typeParameters ← typeParameters limit
        let components ← formalParameters limit
        let interfaces ← typeClause limit "implements" .superInterfaces
        let body ← body limit .classBody
        return some (← node .recordDeclaration none start
          (modifiers ++ nameLeaf name :: typeParameters ++ components :: interfaces ++ [body]))
      else return none
    | _ => return none

end

def dottedName (start : Token) (path : Tree) : (limit : Nat) → Parse Tree
  | 0 => failure
  | limit + 1 => do
    match ← ahead with
    | a :: b :: _ =>
      if a.isSymbol '.' && b.isIdentifier then
        let _ ← take
        let name ← take
        let path ← node .scopedIdentifier none start [{ path with field := some "scope" }, nameLeaf name]
        dottedName start path limit
      else return path
    | _ => return path

def qualifiedName : Parse Tree := do
  let start ← identifier
  dottedName start (leaf .identifier none start) ((← left) + 1)

def packageDeclaration : Parse Tree := do
  let start ← look
  let _ ← annotations
  let _ ← word "package"
  let name ← qualifiedName
  let _ ← symbol ';'
  node .packageDeclaration none start [name]

def importDeclaration : Parse Tree := do
  let start ← word "import"
  let static ← if ← nextIs (·.isWord "static") then pure [token (← take)] else pure []
  let name ← qualifiedName
  let asterisk ←
    if ← takeIf (·.isSymbol '.') then pure [leaf .asterisk none (← symbol '*')] else pure []
  let _ ← symbol ';'
  node .importDeclaration none start (static ++ name :: asterisk)

/-- A module declaration, which holds no types. -/
def moduleDeclaration : Parse Tree := do
  let start ← look
  let _ ← annotations
  let _ ← takeIf (·.isWord "open")
  let _ ← word "module"
  let _ ← qualifiedName
  group
  node (.other "module_declaration") none start []

def topType (limit : Nat) : Parse Tree := do
  let start ← look
  let modifiers ← modifiers
  match ← typeDeclaration? limit start modifiers with
  | some t => return t
  | none => failure

/-- Passes over a statement, up to its semicolon or the end of its block. No type is declared in it. -/
def statement : (limit : Nat) → Parse Unit
  | 0 => failure
  | limit + 1 => do
    let t ← look
    if t.isSymbol ';' then
      let _ ← take
    else if t.isSymbol '\x7b' then group
    else if t.isWord "class" || t.isWord "interface" || t.isWord "enum" then failure
    else if t.opens then
      group
      statement limit
    else
      let _ ← take
      if t.isSymbol '.' then
        let _ ← take
      statement limit

/-- What stands at the top of a file; statements leave no node. -/
def topLevel (limit : Nat) : Parse (Option Tree) := do
  match ← attempt (packageDeclaration <|> importDeclaration <|> moduleDeclaration <|> topType limit) with
  | some t => return some t
  | none =>
    statement limit
    return none

/-- The nodes of a whole file, and whether all of it could be read. Where it could not, the tokens are
passed over one by one. -/
def file (limit : Nat) : (steps : Nat) → Cursor → List Tree × Bool
  | 0, c => ([], c.tokens.isEmpty)
  | steps + 1, c =>
    match c.tokens with
    | [] => ([], true)
    | _ :: ts =>
      match (topLevel limit).run c with
      | some (t, c) =>
        let (rest, ok) := file limit steps c
        (t.toList ++ rest, ok)
      | none => ((file limit steps { c with tokens := ts }).1, false)

end Parse

end TypeAtlas.Syntax
