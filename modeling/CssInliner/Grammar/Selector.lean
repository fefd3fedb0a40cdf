import CssInliner.Grammar.Comment

/-!
Selector lists. A selector is raw text: all that matters is where the list ends
and where one selector ends and the next begins.
-/

namespace CssInliner.Grammar

/-- Quoted strings and escapes are all that a selector list is scanned for. -/
def selectorLexis : Lexis := ⟨true, false, .never⟩

/-- How deep in parentheses and brackets a selector is after one more piece. -/
def selectorDepth (depth : Nat) : Piece → Nat
  | .char '(' | .char '[' => depth + 1
  | .char ')' | .char ']' => depth - 1
  | _ => depth

def splitPieces (depth : Nat) : List Piece → List Text
  | [] => [[]]
  | p :: ps =>
      if p = .char ',' && depth = 0 then [] :: splitPieces 0 ps
      else
        match splitPieces (selectorDepth depth p) ps with
        | [] => [p.text]
        | part :: parts => (p.text ++ part) :: parts

/-- The trimmed selectors of a list; parts without text are left out. -/
def splitSelectors (t : Text) : List Text :=
  ((splitPieces 0 (selectorLexis.pieces t)).map Text.trim).filter fun s => !s.isEmpty

def untilBlock (t : Text) : Text × Text :=
  selectorLexis.cut (fun _ p => if p = .char '\x7b' then none else some ()) () t

/-- A selector list up to the brace of its block. It may be empty; a closing
brace in its place is a defect. -/
def selectorList : Parser (List Text) := do
  let _ ← layout
  fun t =>
    if t.head? = some '\x7d' then .failure .extraClosingBrace t
    else
      let (header, rest) := untilBlock t
      .matched (splitSelectors (stripComments header.trim)) rest

theorem walks_selectorList : selectorList.Walks := by
  refine walks_layout.bind fun _ t => ?_
  split
  · exact List.suffix_refl t
  · exact ⟨_, Lexis.cut_append ..⟩

end CssInliner.Grammar
