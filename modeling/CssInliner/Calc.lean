import CssInliner.Lexis.Span
import CssInliner.Stylesheet.Visit

/-!
Flattening of nested `calc()`. The outermost call keeps its name and vendor mark;
every call inside it becomes a bare pair of parentheses. A call that is never
closed stays as it is, with all that follows.
-/

namespace CssInliner.Calc

def calcCall : Text := "calc(".toList

/-- The length of a vendor mark such as `-webkit-`, or zero. -/
def vendorLength : Text → Nat
  | '-' :: t =>
      let letters := t.takeWhile Text.isLowercase
      if letters.isEmpty || (t.dropWhile Text.isLowercase).head? != some '-' then 0
      else letters.length + 2
  | _ => 0

/-- The length of the opener at the start of a text, vendor mark included. -/
def measureOpener (t : Text) : Option Nat :=
  let vendor := vendorLength t
  (Text.dropLead? calcCall (t.drop vendor)).map fun _ => vendor + calcCall.length

def marker : Marker := .pattern measureOpener

theorem matchAt_bounds {t : Text} {n : Nat} (h : marker.matchAt t = some n) :
    1 < n ∧ n ≤ t.length := by
  simp only [marker, Marker.matchAt, Option.filter_eq_some_iff, measureOpener,
    Option.map_eq_some_iff] at h
  obtain ⟨⟨rest, hrest, rfl⟩, -⟩ := h
  have hlen := congrArg List.length (Text.eq_append_of_dropLead? hrest)
  simp only [List.length_drop, List.length_append] at hlen
  have : calcCall.length = 5 := rfl
  omega

def parenthesize (s : Span) : Text := s.pre ++ '(' :: s.body ++ ')' :: s.post

theorem length_parenthesize_lt {t : Text} {s : Span}
    (h : Span.first? marker ')' t = some s) : (parenthesize s).length < t.length := by
  obtain ⟨n, hn, hlen⟩ := Span.matchAt_of_first? h
  have hbounds := matchAt_bounds hn
  have htotal := congrArg List.length (Span.append_of_first? h)
  simp only [parenthesize, List.length_append, List.length_cons] at *
  omega

/-- Turns every call inside a body into a pair of parentheses. -/
def unnest (body : Text) : Text :=
  match h : Span.first? marker ')' body with
  | none => body
  | some s =>
      have := length_parenthesize_lt h
      unnest (parenthesize s)
termination_by body.length

theorem unnest_eq (body : Text) :
    unnest body =
      match Span.first? marker ')' body with
      | none => body
      | some s => unnest (parenthesize s) := by
  rw [unnest]
  split <;> simp only [*]

/-- The span with nothing nested in it, and the text before it. -/
def flattenSpan (s : Span) : Text := s.pre ++ s.opener ++ unnest s.body ++ [')']

def flatten (value : Text) : Text :=
  let (spans, tail) := Span.all marker ')' value
  spans.flatMap flattenSpan ++ tail

def flattenDeclaration (d : Declaration) : Declaration :=
  if marker.occursIn d.value then ⟨d.property, flatten d.value⟩ else d

end CssInliner.Calc

namespace CssInliner

def Stylesheet.flattenCalc (sheet : Stylesheet) : Stylesheet :=
  mapBlocks (fun ds => ds.map Calc.flattenDeclaration) sheet

end CssInliner
