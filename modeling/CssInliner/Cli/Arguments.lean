import CssInliner.Transform

/-!
The arguments of a run and what they ask for. Taking the words of a command line apart is
left to a parser of options, which stands for itself: it hands over the arguments, or it
ends the program, with help or with a complaint. What is given for a variable it hands to
a reader of ours.
-/

namespace CssInliner.Cli

/-- The arguments, with what was given for the variables as `ν`. -/
structure Arguments (ν : Type) where
  input : Option Text
  output : Option Text
  /-- In the order they were given. -/
  overrides : List ν
  preserve : Bool
  onlyVariables : Bool
  keepNestedCalc : Bool
  delimiter : Option Text
  logFile : Option Text
  verbosity : Nat
deriving DecidableEq, Repr

/-- How a program ends that has nothing to run. -/
structure Stop where
  code : Nat
  out : Text
  err : Text
deriving DecidableEq, Repr

/-- A parser of command lines. It is told how to read what is given for a variable. -/
structure OptionParser where
  parse : {ν : Type} → (Text → Except Text ν) → List Text → Except Stop (Arguments ν)

/-- A name and a value around the first equals sign. The name needs more than
dashes. -/
def readVariable (t : Text) : Except Text (Text × Text) :=
  match Text.splitFirst? ['='] t with
  | none => .error ("expected NAME=VALUE, got `".toList ++ t ++ "`".toList)
  | some (name, value) =>
      if (name.trim.dropWhile (· = '-')).isEmpty then
        .error ("missing variable name in `".toList ++ t ++ "`".toList)
      else .ok (name.trim, value.trim)

namespace Arguments

def readEach {ν : Type} (read : Text → Except Text ν) (given : Arguments Text) :
    Except Text (Arguments ν) := do
  return { given with overrides := ← given.overrides.mapM read }

def settings (a : Arguments (Text × Text)) : Settings where
  fixNestedCalc := !a.keepNestedCalc
  onlyVariables := a.onlyVariables
  preserve := a.preserve
  persist := false
  overrides := VariableMap.insertAll ∅ a.overrides
  delimiter := a.delimiter.getD []

end Arguments

end CssInliner.Cli
