import CssInliner.Cli.Arguments
import CssInliner.Proofs.Variables.Names

/-!
What is assumed of a parser of options, and what the arguments that it hands over ask for.
Of the order in which arguments were given only that of the variables matters: of the
values for a name the last one counts.
-/

namespace CssInliner.Cli

/-- The parser hands over each thing that is given for a variable as it is read, in order,
and how it is read has no part in the rest: with a reader that takes the bare text for
anything, the same words are accepted with the same arguments. -/
def OptionParser.Lawful (parser : OptionParser) : Prop :=
  ∀ {ν : Type} (read : Text → Except Text ν) (words : List Text) (a : Arguments ν),
    parser.parse read words = .ok a →
      ∃ given, parser.parse .ok words = .ok given ∧ given.readEach read = .ok a

namespace Arguments

variable {ν : Type} {read : Text → Except Text ν} {given : Arguments Text}

end Arguments

end CssInliner.Cli
