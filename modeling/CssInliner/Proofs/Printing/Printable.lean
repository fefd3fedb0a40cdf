import CssInliner.Grammar.AtRule
import CssInliner.Proofs.Tree

/-!
Trees that survive printing. What a printable tree asks of each captured text is
that the grammar, let loose on the text alone, takes all of it and nothing else.
`written` is the part of a tree that is printed at all.
-/

namespace CssInliner

open CssInliner.Grammar

/-- Selectors that are read back from the list they are joined to. -/
def SelectorsPrintable (separator : Text) (selectors : List Text) : Prop :=
  selectors ≠ [] ∧
    selectorList (Text.join separator selectors ++ ['\x7b']) = .matched selectors ['\x7b']

structure Declaration.Printable (d : Declaration) : Prop where
  property_read : propertyName (d.property ++ [':']) = .matched d.property [':']
  property_bare : stripComments d.property = d.property
  value_bare : stripComments d.value = d.value
  value_trimmed : d.value.trim = d.value
  value_read : splitValue (d.value ++ [';']) = (d.value, [';'])

def BlockPrintable (ds : List Declaration) : Prop := ∀ d ∈ ds, d.Printable

structure Keyframe.Printable (frame : Keyframe) : Prop where
  selectors_ne_nil : frame.selectors ≠ []
  selectors_read : ∀ s ∈ frame.selectors, keyframeSelector s = .matched s []
  block : BlockPrintable frame.declarations

/-- A captured text that is trimmed, not empty, and free of what ends it. -/
structure CapturePrintable (ends : List Char) (t : Text) : Prop where
  ne_nil : t ≠ []
  trimmed : t.trim = t
  free : ∀ c ∈ ends, c ∉ t

def NamePrintable (name : Text) : Prop :=
  name ≠ [] ∧ ∀ c ∈ name, Text.isIdentifierChar c = true

def VendorPrintable (vendor : Option Text) : Prop :=
  ∀ v ∈ vendor, v.head? = some '-' ∧ ∀ c ∈ v, Text.isIdentifierChar c = true

def GroupKind.Printable (header : Text) : GroupKind → Prop
  | media | supports => CapturePrintable ['\x7b'] header
  | host => header = []
  | document vendor => VendorPrintable vendor ∧ CapturePrintable ['\x7b'] header

/-- Two dashes and at least one more character, none of them a blank. -/
def MediaNamePrintable (name : Text) : Prop :=
  ∃ s, name = "--".toList ++ s ∧ s ≠ [] ∧ ∀ c ∈ s, Text.isBlank c = false

/-- What a rule needs to be read back, but for the rules inside it. -/
def Rule.PrintableHead : Rule → Prop
  | .style selectors ds =>
      SelectorsPrintable [','] selectors ∧ ledByAt selectors = false ∧ BlockPrintable ds
  | .page selectors ds =>
      (selectors = [] ∨ SelectorsPrintable ", ".toList selectors) ∧ BlockPrintable ds
  | .fontFace ds => BlockPrintable ds
  | .keyframes vendor name frames =>
      VendorPrintable vendor ∧ NamePrintable name ∧ ∀ frame ∈ frames, frame.Printable
  | .group kind header _ => kind.Printable header
  | .customMedia name media =>
      MediaNamePrintable name ∧ CapturePrintable ['\x7b', ';'] media
  | .statement _ value => CapturePrintable [';'] value
  | .comment _ => True

def Stylesheet.Printable (sheet : Stylesheet) : Prop := RulesThroughout Rule.PrintableHead sheet

mutual

/-- The rule as it is printed, if it is: without comments and without style and
page rules that have no declarations. -/
def Rule.written : Rule → List Rule
  | .style selectors ds => if ds.isEmpty then [] else [.style selectors ds]
  | .page selectors ds => if ds.isEmpty then [] else [.page selectors ds]
  | .group kind header rules => [.group kind header (writtenRules rules)]
  | .comment _ => []
  | rule => [rule]

def writtenRules : List Rule → List Rule
  | [] => []
  | rule :: rules => rule.written ++ writtenRules rules

end

def Stylesheet.written (sheet : Stylesheet) : Stylesheet := writtenRules sheet

end CssInliner
