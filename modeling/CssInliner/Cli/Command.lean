import CssInliner.Cli.Arguments
import CssInliner.Cli.Host

/-!
The command: read a stylesheet, run, tell what happened, deliver the result. The
exit code is 0 for success and 1 for a run that failed. Nothing is delivered by a run
that failed, unless it was the line end behind the result that standard output refused.
-/

namespace CssInliner.Cli

inductive Failure where
  | logging (cause : AccessError)
  | reading (input : Option Text) (cause : AccessError)
  | transforming (input : Option Text) (cause : SyntaxError)
  | writing (path : Text) (cause : AccessError)
  /-- Standard output refused something. -/
  | printing (cause : AccessError)
deriving DecidableEq, Repr

namespace Failure

def inputName (input : Option Text) : Text := input.getD "stdin".toList

def context? : Failure → Option Text
  | logging _ => some "failed to initialise logging".toList
  | reading input _ => some ("failed to read ".toList ++ inputName input)
  | transforming input _ => some ("failed to transform ".toList ++ inputName input)
  | writing path _ => some ("failed to write ".toList ++ path)
  | printing _ => none

def cause : Failure → Text
  | logging e => e.message
  | reading _ e => e.message
  | transforming _ e => e.message
  | writing _ e => e.message
  | printing e => e.message

def message (f : Failure) : Text :=
  "Error: ".toList ++
    (match f.context? with
    | some context => context ++ "\n\nCaused by:\n    ".toList ++ f.cause
    | none => f.cause) ++ ['\n']

end Failure

section

variable {m : Type → Type} [Monad m] (host : Host m) (a : Arguments (Text × Text))

/-- Records an event if it is weighty enough, in the log file if there is one. -/
def logEvent (e : Event) : m Unit :=
  if e.level.rank ≤ (Level.ofVerbosity a.verbosity).rank then
    match a.logFile with
    | some path => host.append path e.record
    | none => host.err e.record
  else pure ()

/-- Records an event; a warning is told in any case. -/
def tellEvent (e : Event) : m Unit := do
  logEvent host a e
  match e.warning? with
  | some w => host.err ("warning: ".toList ++ w.message ++ ['\n'])
  | none => pure ()

def tell : List Event → m Unit
  | [] => pure ()
  | e :: es => do
      tellEvent host a e
      tell es

def openLog : m (Except AccessError Unit) :=
  match a.logFile with
  | some path => host.create path
  | none => pure (.ok ())

def printLine (text : Text) : m (Except AccessError Unit) := do
  match ← host.out text with
  | .error e => return .error e
  | .ok () => host.out ['\n']

def deliver (css : Text) : m (Except Failure Unit) := do
  match a.output with
  | some path => return (← host.write path css).mapError (.writing path)
  | none => return (← printLine host css).mapError .printing

/-- Everything up to the first failure. -/
def attempt : m (Except Failure Unit) := do
  match ← openLog host a with
  | .error e => return .error (.logging e)
  | .ok () =>
      match ← host.read a.input with
      | .error e => return .error (.reading a.input e)
      | .ok source =>
          match transform a.settings none source with
          | .error e => return .error (.transforming a.input e)
          | .ok r =>
              tell host a r.events
              deliver host a r.css

def runArguments : m Nat := do
  match ← attempt host a with
  | .ok () => return 0
  | .error f =>
      host.err f.message
      return 1

end

/-- Ends the program. What standard output makes of its last words nobody asks. -/
def Stop.run {m : Type → Type} [Monad m] (stop : Stop) (host : Host m) : m Nat := do
  let _ ← host.out stop.out
  host.err stop.err
  return stop.code

/-- Runs with the words of a command line. The answer is the exit code. -/
def run {m : Type → Type} [Monad m] (host : Host m) (parser : OptionParser) (words : List Text) :
    m Nat :=
  match parser.parse readVariable words with
  | .ok a => runArguments host a
  | .error stop => stop.run host

end CssInliner.Cli
