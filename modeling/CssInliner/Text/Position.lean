import CssInliner.Text.Basic

/-!
Lines and columns. Only a line feed ends a line; a column counts characters,
and both numbers start at one.
-/

namespace CssInliner

structure Position where
  line : Nat
  column : Nat
deriving DecidableEq, Repr

namespace Position

def first : Position := ⟨1, 1⟩

def next (p : Position) (c : Char) : Position :=
  if c = '\n' then ⟨p.line + 1, 1⟩ else ⟨p.line, p.column + 1⟩

def after (t : Text) : Position := t.foldl next first

/-- The position at a byte offset; beyond the end it is that of the end. -/
def atOffset (source : Text) (offset : Nat) : Position :=
  after (Text.takeBytes offset source)

theorem atOffset_byteLength_append (s t : Text) :
    atOffset (s ++ t) (Text.byteLength s) = after s := by
  rw [atOffset, Text.takeBytes_byteLength_append]

end Position

end CssInliner
