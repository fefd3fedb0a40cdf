import CssInliner.Cli.Workspace
import CssInliner.Main
import CssInliner.Session
import CssInliner.Stylesheet.Equality
import CssInliner.Proofs.Lookahead.Lexis
import CssInliner.Proofs.Lexis.Balance
import CssInliner.Proofs.Lexis.Nesting
import CssInliner.Proofs.Lookahead.Parser
import CssInliner.Proofs.Lookahead.Declaration
import CssInliner.Proofs.Lookahead.AtRule
import CssInliner.Proofs.Selectors
import CssInliner.Proofs.Lookahead.Item
import CssInliner.Proofs.Concatenation
import CssInliner.Proofs.Lookahead.Stop
import CssInliner.Proofs.Session
import CssInliner.Proofs.Filter
import CssInliner.Proofs.Variables.Leftovers
import CssInliner.Proofs.Printing.Block
import CssInliner.Proofs.Printing.Item
import CssInliner.Proofs.Printing.Stylesheet
import CssInliner.Proofs.Variables.Calls
import CssInliner.Proofs.Variables.Substitution
import CssInliner.Proofs.Variables.Cycles
import CssInliner.Proofs.Variables.Chains
import CssInliner.Proofs.Printing.Weight
import CssInliner.Proofs.Printing.Extent
import CssInliner.Proofs.Printing.Stability
import CssInliner.Proofs.Text.Position
import CssInliner.Proofs.Variables.Accounting
import CssInliner.Proofs.Variables.Copies
import CssInliner.Proofs.Variables.Fragments
import CssInliner.Proofs.Defects
import CssInliner.Proofs.Calc
import CssInliner.Proofs.Frame
import CssInliner.Proofs.Cli.Command
import CssInliner.Proofs.Capture
import CssInliner.Proofs.Pruning
import CssInliner.Proofs.Keywords
import CssInliner.Proofs.HeaderComments
import CssInliner.Proofs.Splitting
import CssInliner.Proofs.Progress
import CssInliner.Proofs.WellFormed
import CssInliner.Proofs.ValueComments
import CssInliner.Proofs.Bodies
