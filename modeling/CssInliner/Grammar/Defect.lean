import CssInliner.Text.Position

/-!
What can be wrong with the structure of a stylesheet, and the report of it.
-/

namespace CssInliner

inductive Defect where
  | unterminatedComment
  | missingSelector
  | missingColon
  | missingOpenBrace
  | missingCloseBrace
  | keyframesMissingName
  | extraClosingBrace
deriving DecidableEq, Repr

def Defect.message : Defect → Text
  | unterminatedComment => "end of comment is missing".toList
  | missingSelector => "selector missing".toList
  | missingColon => "property missing ':'".toList
  | missingOpenBrace => "missing '\x7b'".toList
  | missingCloseBrace => "missing '\x7d'".toList
  | keyframesMissingName => "@keyframes missing name".toList
  | extraClosingBrace => "extra closing bracket".toList

structure SyntaxError where
  defect : Defect
  position : Position
deriving DecidableEq, Repr

namespace SyntaxError

def atOffset (defect : Defect) (source : Text) (offset : Nat) : SyntaxError :=
  ⟨defect, Position.atOffset source offset⟩

def message (e : SyntaxError) : Text :=
  "CSS parse error: ".toList ++ e.defect.message ++ " at ".toList ++
    (toString e.position.line).toList ++ ":".toList ++ (toString e.position.column).toList

end SyntaxError

end CssInliner
