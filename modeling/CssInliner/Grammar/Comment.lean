import CssInliner.Grammar.Parser
import CssInliner.Lexis.Piece
import CssInliner.Stylesheet.Basic
import CssInliner.Text.Blank

/-!
Space between tokens: layout characters, comments, and the fillers between
declarations. Comments between rules become rules of the tree; comments inside
captured text are taken out of it by `stripComments`.
-/

namespace CssInliner.Grammar

def layout : Parser Text := Parser.takeWhile Text.isLayout

theorem walks_layout : layout.Walks := Parser.walks_takeWhile _

/-- The text of a comment. A comment without an end is a defect at its start. -/
def comment : Parser Text := fun t =>
  match Text.dropLead? commentOpen t with
  | none => .mismatch
  | some body =>
      match Text.splitFirst? commentClose body with
      | some (text, rest) => .matched text rest
      | none => .failure .unterminatedComment t

theorem advances_comment : comment.Advances := by
  intro t
  unfold comment
  split
  · trivial
  · next body hbody =>
      obtain rfl := Text.eq_append_of_dropLead? hbody
      split
      · next text rest hrest =>
          obtain rfl := Text.eq_append_of_splitFirst? hrest
          refine ⟨⟨commentOpen ++ text ++ commentClose, by simp⟩, ?_⟩
          simp [commentOpen, commentClose]
          omega
      · exact List.suffix_refl _

def commentRule : Parser Rule := do
  let _ ← layout
  let text ← comment
  return .comment text

theorem advances_commentRule : commentRule.Advances :=
  walks_layout.bind_advances fun _ => advances_comment.bind fun _ => Parser.walks_pure _

def comments : Parser (List Rule) := do
  let found ← Parser.many commentRule advances_commentRule
  let _ ← layout
  return found

theorem walks_comments : comments.Walks :=
  (Parser.walks_many _).bind fun _ => walks_layout.bind fun _ => Parser.walks_pure _

def isSeparator (c : Char) : Bool := c = ';' || Text.isBlank c

def separators : Parser Text := Parser.takeWhile isSeparator

theorem walks_separators : separators.Walks := Parser.walks_takeWhile _

def fillerPart : Parser Text := (Parser.takeWhile1 isSeparator).orElse comment

theorem advances_fillerPart : fillerPart.Advances :=
  (Parser.advances_takeWhile1 _).orElse advances_comment

/-- Everything that may stand between declarations. -/
def filler : Parser (List Text) := Parser.many fillerPart advances_fillerPart

theorem walks_filler : filler.Walks := Parser.walks_many _

def openBrace : Parser Unit := do
  Parser.char '\x7b'
  let _ ← layout
  return ()

theorem advances_openBrace : openBrace.Advances :=
  (Parser.advances_char _).bind fun _ => walks_layout.bind fun _ => Parser.walks_pure _

def closeBrace : Parser Unit := Parser.char '\x7d'

theorem advances_closeBrace : closeBrace.Advances := Parser.advances_char _

/-- What `stripComments` tells apart; a backslash has no meaning outside quoted
strings. -/
def commentLexis : Lexis := ⟨false, true, .never⟩

/-- The text without its comments. Quoted strings are left as they are. -/
def stripComments (t : Text) : Text :=
  ((commentLexis.pieces t).filter fun p => !(p matches .comment _)).flatMap Piece.text

end CssInliner.Grammar
