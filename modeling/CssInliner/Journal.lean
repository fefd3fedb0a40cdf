import CssInliner.Warning

/-!
What a run has to tell, in the order it happened: each event has a level and a
message. Warnings are events among the others. What there would be to tell of a store
is left out, since no command line asks for variables to persist.
-/

namespace CssInliner

inductive Event where
  | parsed (rules : Nat)
  | filtered (kept total : Nat)
  | harvested (names : Nat)
  | warned (warning : Warning)
  | substituted (property before after : Text)
  | produced (bytes warnings : Nat)
deriving DecidableEq, Repr

inductive Level where
  | error
  | warn
  | info
  | debug
  | trace
deriving DecidableEq, Repr

namespace Level

def rank : Level → Nat
  | error => 0
  | warn => 1
  | info => 2
  | debug => 3
  | trace => 4

def name : Level → Text
  | error => "ERROR".toList
  | warn => "WARN".toList
  | info => "INFO".toList
  | debug => "DEBUG".toList
  | trace => "TRACE".toList

/-- The least weighty level that is recorded when verbosity is raised `n` times. -/
def ofVerbosity (n : Nat) : Level :=
  match n with
  | 0 => error
  | 1 => info
  | 2 => debug
  | _ => trace

end Level

namespace Event

def level : Event → Level
  | warned _ => .warn
  | substituted .. => .trace
  | _ => .debug

def message : Event → Text
  | parsed rules => "parsed ".toList ++ (toString rules).toList ++ " top-level rules".toList
  | filtered kept total =>
      "variable filter kept ".toList ++ (toString kept).toList ++ " of ".toList ++
        (toString total).toList ++ " top-level rules".toList
  | harvested names =>
      "harvested ".toList ++ (toString names).toList ++
        " custom properties from :root".toList
  | warned warning => warning.message
  | substituted property before after =>
      property ++ ": ".toList ++ before ++ " -> ".toList ++ after
  | produced bytes warnings =>
      "transform produced ".toList ++ (toString bytes).toList ++ " bytes with ".toList ++
        (toString warnings).toList ++ " warnings".toList

def record (e : Event) : Text :=
  '[' :: e.level.name ++ "] ".toList ++ e.message ++ ['\n']

def warning? : Event → Option Warning
  | warned warning => some warning
  | _ => none

end Event

def warnings (events : List Event) : List Warning := events.filterMap Event.warning?

end CssInliner
