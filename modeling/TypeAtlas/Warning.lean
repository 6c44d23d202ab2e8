import TypeAtlas.Error

/-! Warnings: what was left out of a reading that went on. -/

namespace TypeAtlas

inductive Warning
  | syntaxErrors (path : Option String)
  | unreadableImport (text : String) (path : Option String)
  | namelessType (line : Nat) (path : Option String)
  | duplicateDeclaration (name : String) (path : Option String)
  deriving DecidableEq

namespace Warning

def message : Warning → String
  | .syntaxErrors path =>
    "Syntax errors in " ++ shownPath path ++ ", extracting recoverable declarations"
  | .unreadableImport text path =>
    "Could not read import " ++ Text.quoted text ++ " in " ++ shownPath path
  | .namelessType line path =>
    "Type declaration without name at line " ++ toString line ++ " of " ++ shownPath path
  | .duplicateDeclaration name path =>
    "Duplicate declaration of " ++ name ++ " in " ++ shownPath path ++ ", keeping the first one"

end Warning

/-- Work that may warn and may fail; the warnings outlive a failure, the latest first. -/
abbrev Warned := ExceptT Error (StateM (List Warning))

def warn (w : Warning) : Warned Unit := modify (w :: ·)

namespace Warned

def outcome {α : Type} (x : Warned α) : Except Error α × List Warning :=
  let (result, warnings) := x.run []
  (result, warnings.reverse)

end Warned
end TypeAtlas
