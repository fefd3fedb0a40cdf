import CssInliner.Text.Basic

/-!
What opens a span: a fixed text, or any text that a measuring function accepts.
-/

namespace CssInliner

inductive Marker where
  /-- Exactly this text. -/
  | literal (text : Text)
  /-- As many characters as the function answers; none and zero refuse. -/
  | pattern (measure : Text → Option Nat)

namespace Marker

/-- The number of characters the marker covers at the start of a text. -/
def matchAt : Marker → Text → Option Nat
  | literal text, t => (Text.dropLead? text t).map fun _ => text.length
  | pattern measure, t => (measure t).filter (0 < ·)

def never : Marker := pattern fun _ => none

@[simp] theorem matchAt_never (t : Text) : never.matchAt t = none := rfl

end Marker

end CssInliner
