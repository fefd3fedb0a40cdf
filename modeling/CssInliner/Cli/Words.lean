import CssInliner.Cli.Arguments

/-!
A parser of options. A word is a switch, a parameter, a cluster of one-letter ones, or an
operand; the value of a parameter is in the same word or in the next. Behind `--` every
word is an operand. Words are taken in the order they stand in: a call for help ends the
program if all was well before it. How help and complaints are worded is of no account:
they end the program before anything is done.
-/

namespace CssInliner.Cli

inductive Switch where
  | preserve
  | onlyVariables
  | keepNestedCalc
  | verbose
deriving DecidableEq, Repr

inductive Parameter where
  | output
  | override
  | delimiter
  | logFile
deriving DecidableEq, Repr

def Switch.ofName? (name : Text) : Option Switch :=
  if name = "preserve".toList then some preserve
  else if name = "only-vars".toList then some onlyVariables
  else if name = "no-fix-nested-calc".toList then some keepNestedCalc
  else if name = "verbose".toList then some verbose
  else none

def Parameter.ofName? (name : Text) : Option Parameter :=
  if name = "output".toList then some output
  else if name = "var".toList then some override
  else if name = "delimiter".toList then some delimiter
  else if name = "log-file".toList then some logFile
  else none

inductive Token where
  | switch (switch : Switch)
  | parameter (parameter : Parameter) (value : Text)
  | operand (word : Text)
  | help
  /-- What makes no sense where it stands. -/
  | stray
deriving DecidableEq, Repr

/-- The tokens of a word, and the parameter whose value the next word has to give. -/
abbrev Reading := List Token × Option Parameter

/-- A word of one-letter switches, the last of which may be a parameter with its
value behind it, set off by an equals sign or not. -/
def readCluster : Text → Reading
  | [] => ([], none)
  | 'v' :: t => (.switch .verbose :: (readCluster t).1, (readCluster t).2)
  | 'h' :: _ => ([.help], none)
  | ['o'] => ([], some .output)
  | 'o' :: '=' :: t => ([.parameter .output t], none)
  | 'o' :: t => ([.parameter .output t], none)
  | _ => ([.stray], none)

/-- A word behind two dashes: a name, and a value if there is an equals sign. -/
def readLong (word : Text) : Reading :=
  match Text.splitFirst? ['='] word with
  | some (name, value) =>
      match Parameter.ofName? name with
      | some p => ([.parameter p value], none)
      | none => ([.stray], none)
  | none =>
      match Switch.ofName? word, Parameter.ofName? word with
      | some s, _ => ([.switch s], none)
      | none, some p => ([], some p)
      | none, none => ([if word = "help".toList then .help else .stray], none)

def readWord : Text → Reading
  | '-' :: '-' :: word => readLong word
  | '-' :: c :: word => readCluster (c :: word)
  | word => ([.operand word], none)

/-- A word that can be the value of the parameter before it. -/
def isValue : Text → Bool
  | '-' :: _ :: _ => false
  | _ => true

def readWords : List Text → List Token
  | [] => []
  | word :: words =>
      if word = "--".toList then words.map Token.operand
      else
        match readWord word with
        | (tokens, none) => tokens ++ readWords words
        | (tokens, some p) =>
            match words with
            | [] => tokens ++ [.stray]
            | value :: words =>
                if isValue value then tokens ++ .parameter p value :: readWords words
                else tokens ++ [.stray]

namespace Stop

def synopsis : Text := "usage: css-inliner [OPTION]... [INPUT]\n".toList

def help : Stop := ⟨0, synopsis, []⟩

def misuse : Stop := ⟨2, [], synopsis⟩

def badVariable (value reason : Text) : Stop where
  code := 2
  out := []
  err := "error: invalid value '".toList ++ value ++ "' for '--var <NAME=VALUE>': ".toList ++
    reason ++ ['\n']

end Stop

namespace Arguments

variable {ν : Type}

def empty : Arguments ν := ⟨none, none, [], false, false, false, none, none, 0⟩

/-- Sets what was not set before. -/
def setOnce {α : Type} (old : Option α) (new : α) : Except Stop (Option α) :=
  if old.isSome then .error .misuse else .ok (some new)

/-- The same for the name of a file, which cannot be empty. -/
def setPath (old : Option Text) (path : Text) : Except Stop (Option Text) :=
  if path.isEmpty then .error .misuse else setOnce old path

def setSwitch (old : Bool) : Except Stop Bool := if old then .error .misuse else .ok true

def add (read : Text → Except Text ν) (a : Arguments ν) : Token → Except Stop (Arguments ν)
  | .switch .preserve => (setSwitch a.preserve).map fun b => { a with preserve := b }
  | .switch .onlyVariables =>
      (setSwitch a.onlyVariables).map fun b => { a with onlyVariables := b }
  | .switch .keepNestedCalc =>
      (setSwitch a.keepNestedCalc).map fun b => { a with keepNestedCalc := b }
  | .switch .verbose => .ok { a with verbosity := a.verbosity + 1 }
  | .parameter .output path => (setPath a.output path).map fun p => { a with output := p }
  | .parameter .logFile path => (setPath a.logFile path).map fun p => { a with logFile := p }
  | .parameter .delimiter t => (setOnce a.delimiter t).map fun d => { a with delimiter := d }
  | .parameter .override t =>
      match read t with
      | .ok v => .ok { a with overrides := a.overrides ++ [v] }
      | .error reason => .error (.badVariable t reason)
  | .operand path => (setPath a.input path).map fun p => { a with input := p }
  | .help => .error .help
  | .stray => .error .misuse

end Arguments

def wordParser : OptionParser where
  parse read words := (readWords words).foldlM (Arguments.add read) .empty

end CssInliner.Cli
