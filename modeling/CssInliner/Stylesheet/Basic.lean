import CssInliner.Text.Basic

/-!
The tree of a stylesheet. Selectors, preludes and values are kept as written;
rules nest only inside groups.
-/

namespace CssInliner

structure Declaration where
  property : Text
  value : Text
deriving DecidableEq, Repr

namespace Declaration

def customLead : Text := "--".toList

/-- The call that refers to a variable, up to its parenthesis. -/
def variableCall : Text := "var(".toList

def isCustom (d : Declaration) : Bool := (Text.dropLead? customLead d.property).isSome

/-- Whether the value mentions a variable, be it inside a string. -/
def mentionsVariable (d : Declaration) : Bool := Text.contains variableCall d.value

def involvesVariables (d : Declaration) : Bool := d.isCustom || d.mentionsVariable

end Declaration

structure Keyframe where
  selectors : List Text
  declarations : List Declaration
deriving DecidableEq, Repr

inductive StatementKind where
  | importSheet
  | charset
  | declareNamespace
deriving DecidableEq, Repr

def StatementKind.keyword : StatementKind → Text
  | importSheet => "import".toList
  | charset => "charset".toList
  | declareNamespace => "namespace".toList

def StatementKind.ofKeyword? (keyword : Text) : Option StatementKind :=
  [importSheet, charset, declareNamespace].find? fun kind => kind.keyword = keyword

inductive GroupKind where
  | media
  | supports
  | host
  | document (vendor : Option Text)
deriving DecidableEq, Repr

inductive Rule where
  | style (selectors : List Text) (declarations : List Declaration)
  | page (selectors : List Text) (declarations : List Declaration)
  | fontFace (declarations : List Declaration)
  | keyframes (vendor : Option Text) (name : Text) (frames : List Keyframe)
  | group (kind : GroupKind) (prelude : Text) (rules : List Rule)
  | customMedia (name media : Text)
  | statement (kind : StatementKind) (value : Text)
  | comment (text : Text)
deriving Repr

abbrev Stylesheet := List Rule

def rootSelector : Text := ":root".toList

def isRoot (selectors : List Text) : Bool := selectors = [rootSelector]

def Rule.isComment : Rule → Bool
  | comment _ => true
  | _ => false

end CssInliner
