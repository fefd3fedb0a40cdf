import CssInliner.Text.Basic

/-!
Paths of files. A path leads from folder to folder, starting at the working
folder or at the root; a dot stays where it is and two dots lead to the folder
above. An address lists the names on the way, the last one first; the folders
above the working folder are two dots each, and the root is an empty name.
-/

namespace CssInliner.Cli

abbrev Address := List Text

def parts (path : Text) : List Text := (path.splitOn '/').filter fun part => !part.isEmpty

namespace Address

def above : Text := ['.', '.']

def rootName : Text := []

/-- Where a part leads. There is nothing above the root. -/
def follow (a : Address) (part : Text) : Address :=
  if part = ['.'] then a
  else if part = above then
    match a with
    | [] => [above]
    | name :: rest =>
        if name = rootName then a
        else if name = above then above :: a
        else rest
  else part :: a

def start (path : Text) : Address := if path.head? = some '/' then [rootName] else []

def ofPath (path : Text) : Address := (parts path).foldl follow (start path)

/-- The shortest path to an address. -/
def toPath (a : Address) : Text := Text.join ['/'] a.reverse

/-- The working folder, the root and the folders above, which are always there. -/
def isGiven (a : Address) : Bool := a.all fun name => name = rootName || name = above

def isLocal (a : Address) : Bool := a.getLast?.all fun name => name ≠ rootName && name ≠ above

end Address

/-- The shortest spelling of a path. -/
def canonical (path : Text) : Text := (Address.ofPath path).toPath

end CssInliner.Cli
