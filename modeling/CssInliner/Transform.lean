import CssInliner.Calc
import CssInliner.Grammar.Rules
import CssInliner.Stylesheet.Filter
import CssInliner.Stylesheet.Printer
import CssInliner.Variables.Harvest
import CssInliner.Variables.Resolution

/-!
A whole run: read, filter if asked to, collect variables, resolve references,
flatten nested calls if asked to, write.
-/

namespace CssInliner

structure Settings where
  fixNestedCalc : Bool
  onlyVariables : Bool
  preserve : Bool
  persist : Bool
  /-- Variables by name in any spelling. -/
  overrides : VariableMap
  /-- What follows each style or page rule in the output. -/
  delimiter : Text

namespace Settings

def standard : Settings := ⟨true, false, false, false, ∅, []⟩

/-- The switches as bits of a number, the form in which a caller may keep them. -/
def bits (s : Settings) : Nat :=
  s.fixNestedCalc.toNat + 2 * s.onlyVariables.toNat + 4 * s.preserve.toNat +
    8 * s.persist.toNat

/-- Sets the switches from the bits of a number; other bits have no meaning. -/
def withBits (s : Settings) (n : Nat) : Settings :=
  { s with
    fixNestedCalc := n.testBit 0
    onlyVariables := n.testBit 1
    preserve := n.testBit 2
    persist := n.testBit 3 }

end Settings

structure Transformation where
  /-- The sheet with its references resolved. -/
  resolved : Stylesheet
  /-- The sheet that is written. -/
  final : Stylesheet
  css : Text
  store : Option Store
  events : List Event

def Transformation.warnings (r : Transformation) : List Warning :=
  CssInliner.warnings r.events

/-- The sheet after the filter, which is used if the settings say so. -/
def Stylesheet.selected (s : Settings) (sheet : Stylesheet) : Stylesheet × List Event :=
  if s.onlyVariables then
    let kept := keepVariables sheet
    (kept, [.filtered kept.length sheet.length])
  else (sheet, [])

/-- Runs on a sheet that has been read. The store is used, and changed, only if
the settings say that variables persist. -/
def Stylesheet.transform (s : Settings) (store : Option Store) (sheet : Stylesheet) :
    Transformation :=
  let (selected, filtered) := sheet.selected s
  let harvest := selected.harvest s.overrides s.preserve (if s.persist then store else none)
  let (resolved, resolving) := harvest.sheet.resolve harvest.bindings s.preserve
  let final := if s.fixNestedCalc then resolved.flattenCalc else resolved
  let css := final.render s.delimiter
  { resolved
    final
    css
    store := if s.persist then harvest.store else store
    events := [.parsed sheet.length] ++ filtered ++ [.harvested harvest.declared] ++ resolving ++
      [.produced css.byteLength (CssInliner.warnings resolving).length] }

def transform (s : Settings) (store : Option Store) (source : Text) :
    Except SyntaxError Transformation := do
  let sheet ← Stylesheet.parse source
  return sheet.transform s store

end CssInliner
