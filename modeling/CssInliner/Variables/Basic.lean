import CssInliner.Text.Blank
import CssInliner.Stylesheet.Basic
import Std.Data.TreeMap

/-!
Variables by name, in the order of their names, and the store that outlives a
single run. Names in the store always have their normal form; `get?` and `merge`
take any spelling.
-/

namespace CssInliner

/-- The name with exactly one pair of leading dashes. -/
def normalizeName (name : Text) : Text :=
  Declaration.customLead ++ name.trim.dropWhile (· = '-')

abbrev VariableMap := Std.TreeMap Text Text

/-- Inserts the pairs from left to right, so that the last of a name stays. -/
def VariableMap.insertAll (m : VariableMap) (pairs : List (Text × Text)) : VariableMap :=
  pairs.foldl (fun m pair => m.insert pair.1 pair.2) m

def normalizePairs (pairs : List (Text × Text)) : List (Text × Text) :=
  pairs.map fun pair => (normalizeName pair.1, pair.2)

/-- The map under normal names; of two spellings of a name the greater wins. -/
def VariableMap.normalize (m : VariableMap) : VariableMap :=
  VariableMap.insertAll ∅ (normalizePairs m.toList)

structure Store where
  entries : VariableMap

namespace Store

def empty : Store := ⟨∅⟩

def get? (s : Store) (name : Text) : Option Text := s.entries[normalizeName name]?

def merge (s : Store) (pairs : List (Text × Text)) : Store :=
  ⟨VariableMap.insertAll s.entries (normalizePairs pairs)⟩

def toList (s : Store) : List (Text × Text) := s.entries.toList

def size (s : Store) : Nat := s.entries.size

def isEmpty (s : Store) : Bool := s.entries.isEmpty

/-- Adds the variables whose names the store does not hold yet. -/
def supplement (s : Store) (m : VariableMap) : Store :=
  s.merge (m.toList.filter fun pair => (s.get? pair.1).isNone)

end Store

end CssInliner
