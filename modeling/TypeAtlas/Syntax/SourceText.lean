import TypeAtlas.Syntax.Grammar.Declarations
import TypeAtlas.Syntax.Reader

/-! From source text to the syntax tree of a file. Only what matters for declarations has nodes:
bodies, expressions, annotations and comments leave none. -/

namespace TypeAtlas.Syntax

def ParsedFile.ofText (source : String) : ParsedFile :=
  let tokens := Token.ofText source
  let cursor : Cursor := { source := source.toList.toArray, tokens := tokens }
  let (children, isComplete) := Parse.file (16 * tokens.length + 16) tokens.length cursor
  ⟨⟨.other "program", true, none, source, 1, children⟩, !isComplete⟩

end TypeAtlas.Syntax
