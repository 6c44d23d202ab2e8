import TypeAtlas.Syntax.Grammar.Cursor

/-! The grammar of types: primitives, references with type arguments at any segment, wildcards, array
dimensions, and annotations before and inside them. `limit` bounds the nesting of the steps; with a
few for each token it is never reached. -/

namespace TypeAtlas.Syntax.Parse

def primitiveKind? (word : String) : Option NodeKind :=
  if ["byte", "short", "int", "long", "char"].contains word then some .integralType
  else if word = "float" || word = "double" then some .floatingPointType
  else if word = "boolean" then some .booleanType
  else if word = "void" then some .voidType
  else none

def bracket (t : Token) : Tree := ⟨.openBracket, false, none, t.text, t.line, []⟩

def bracketPair : Parse Tree := do
  let _ ← annotations
  let first ← symbol '['
  let _ ← symbol ']'
  return bracket first

def dimensions? : Parse (Option Tree) := do
  let c ← get
  match c.tokens, ← many (attempt bracketPair) (← left) with
  | start :: _, pair :: pairs =>
    return some (← node (.other "dimensions") (some "dimensions") start (pair :: pairs))
  | _, _ => return none

def arrayOf (start : Token) (element : Tree) : Parse Tree := do
  match ← dimensions? with
  | none => return element
  | some dimensions =>
    node .arrayType none start [{ element with field := some "element" }, dimensions]

mutual

/-- A type without annotations before it. -/
def type : (limit : Nat) → Parse Tree
  | 0 => failure
  | limit + 1 => do
    let start ← take
    match if start.kind = .word then primitiveKind? start.text else none with
    | some kind => arrayOf start (leaf kind none start)
    | none =>
      if start.isIdentifier then
        let path ← segments limit start (leaf .typeIdentifier none start)
        arrayOf start path
      else failure

/-- The reference that starts with `path`, with the type arguments and segments that follow. -/
def segments (limit : Nat) (start : Token) (path : Tree) : Parse Tree :=
  match limit with
  | 0 => failure
  | limit + 1 => do
    match ← ahead with
    | a :: b :: _ =>
      if a.isSymbol '<' then
        let arguments ← typeArguments limit
        segments limit start (← node .genericType none start [path, arguments])
      else if a.isSymbol '.' && !b.isSymbol '.' then
        let _ ← take
        let _ ← annotations
        let name ← identifier
        segments limit start
          (← node .scopedTypeIdentifier none start [path, leaf .typeIdentifier none name])
      else return path
    | _ => return path

def typeArguments : (limit : Nat) → Parse Tree
  | 0 => failure
  | limit + 1 => do
    let start ← symbol '<'
    if ← takeIf (·.isSymbol '>') then node .typeArguments none start []
    else
      let first ← typeArgument limit
      let rest ← moreTypeArguments limit
      let _ ← symbol '>'
      node .typeArguments none start (first :: rest)

def moreTypeArguments : (limit : Nat) → Parse (List Tree)
  | 0 => failure
  | limit + 1 => do
    if ← takeIf (·.isSymbol ',') then
      let first ← typeArgument limit
      let rest ← moreTypeArguments limit
      return first :: rest
    else return []

def typeArgument : (limit : Nat) → Parse Tree
  | 0 => failure
  | limit + 1 => do
    let start ← look
    let isAnnotated ← annotations
    if ← takeIf (·.isSymbol '?') then
      if ← takeIf (·.isWord "extends") then
        node .wildcard none start [← annotatedType limit]
      else if ← nextIs (·.isWord "super") then
        let word ← take
        let bound ← annotatedType limit
        node .wildcard none start [leaf .superKeyword none word, bound]
      else node .wildcard none start []
    else
      let t ← type limit
      if isAnnotated then node .annotatedType none start [t] else return t

def annotatedType : (limit : Nat) → Parse Tree
  | 0 => failure
  | limit + 1 => do
    let start ← look
    let isAnnotated ← annotations
    let t ← type limit
    if isAnnotated then node .annotatedType none start [t] else return t

end

end TypeAtlas.Syntax.Parse
