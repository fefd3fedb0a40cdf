import CssInliner.Grammar.Comment
import CssInliner.Text.Alphanumeric

/-!
Declarations and their blocks. A property is a run of name characters with an
optional bracketed suffix; a value is raw text up to the semicolon or brace that
ends it.
-/

namespace CssInliner.Grammar

def isPropertyChar (c : Char) : Bool :=
  Text.isAlphanumeric c || c = '-' || c = '_' || c = '#' || c = '/' || c = '*' || c = '\\'

def isSuffixChar (c : Char) : Bool :=
  Text.isDigit c || Text.isLowercase c || c = '_' || c = '-'

/-- A bracketed suffix such as `[ie]`, brackets included. -/
def propertySuffix : Parser Text := do
  Parser.char '['
  let name ← Parser.takeWhile1 isSuffixChar
  Parser.char ']'
  return '[' :: name ++ [']']

theorem advances_propertySuffix : propertySuffix.Advances :=
  (Parser.advances_char _).bind fun _ =>
    (Parser.advances_takeWhile1 _).walks.bind fun _ =>
      (Parser.advances_char _).walks.bind fun _ => Parser.walks_pure _

def propertyName : Parser Text := do
  let name ← Parser.takeWhile1 isPropertyChar
  let suffix ← propertySuffix.optional
  return name ++ suffix.getD []

theorem advances_propertyName : propertyName.Advances :=
  (Parser.advances_takeWhile1 _).bind fun _ =>
    advances_propertySuffix.walks.optional.bind fun _ => Parser.walks_pure _

def valueLexis : Lexis := ⟨true, true, .never⟩

/-- Goes on through a value. A semicolon ends it outside parentheses, a closing
brace anywhere. -/
def withinValue (depth : Nat) : Piece → Option Nat
  | .char '(' => some (depth + 1)
  | .char ')' => some (depth - 1)
  | .char ';' => if depth = 0 then none else some depth
  | .char '\x7d' => none
  | _ => some depth

def splitValue (t : Text) : Text × Text := valueLexis.cut withinValue 0 t

def rawValue : Parser Text := fun t =>
  let (value, rest) := splitValue t
  .matched value rest

theorem walks_rawValue : rawValue.Walks := fun _ => ⟨_, Lexis.cut_append ..⟩

def declaration : Parser Declaration := do
  let property ← propertyName
  let _ ← layout
  (Parser.char ':').require .missingColon
  let _ ← layout
  let value ← rawValue
  let _ ← separators
  return ⟨(stripComments property).trim, (stripComments value).trim⟩

theorem advances_declaration : declaration.Advances :=
  advances_propertyName.bind fun _ =>
    walks_layout.bind fun _ =>
      ((Parser.advances_char _).require _).walks.bind fun _ =>
        walks_layout.bind fun _ =>
          walks_rawValue.bind fun _ =>
            walks_separators.bind fun _ => Parser.walks_pure _

def declarationItem : Parser Declaration := do
  let d ← declaration
  let _ ← filler
  return d

theorem advances_declarationItem : declarationItem.Advances :=
  advances_declaration.bind fun _ => walks_filler.bind fun _ => Parser.walks_pure _

def declarationBlock : Parser (List Declaration) := do
  openBrace.require .missingOpenBrace
  let _ ← filler
  let ds ← Parser.many declarationItem advances_declarationItem
  closeBrace.require .missingCloseBrace
  return ds

theorem advances_declarationBlock : declarationBlock.Advances :=
  (advances_openBrace.require _).bind fun _ =>
    walks_filler.bind fun _ =>
      (Parser.walks_many _).bind fun _ =>
        (advances_closeBrace.require _).walks.bind fun _ => Parser.walks_pure _

end CssInliner.Grammar
