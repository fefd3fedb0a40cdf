import CssInliner.Text.Basic

/-!
What can go wrong with a reference to a variable. None of it stops a run.
-/

namespace CssInliner

inductive Warning where
  | missingClosingParen (value : Text)
  | emptyCall
  | undefined (name : Text)
  | cycle (name : Text)
  | depthExceeded (name : Text) (limit : Nat)
deriving DecidableEq, Repr

def Warning.message : Warning → Text
  | missingClosingParen value =>
      "missing closing \")\" in the value \"".toList ++ value ++ "\"".toList
  | emptyCall => "var() must contain a non-whitespace string".toList
  | undefined name => "variable \"".toList ++ name ++ "\" is undefined".toList
  | cycle name =>
      "variable \"".toList ++ name ++ "\" is part of a reference cycle".toList
  | depthExceeded name limit =>
      "variable \"".toList ++ name ++
        "\" exceeds the maximum var() nesting depth of ".toList ++ (toString limit).toList

/-- A value with the warnings raised on the way to it, in order. -/
structure Noted (α : Type) where
  value : α
  warnings : List Warning
deriving DecidableEq, Repr

end CssInliner
