import CssInliner.Lexis.Span
import CssInliner.Variables.Basic
import CssInliner.Warning

/-!
Replacing the references in a value. A call names a variable and may give a
fallback; both the variable's value and the fallback are expanded in turn, each
one level deeper, down to a fixed depth. What cannot be replaced stays as it is
written and is counted.
-/

namespace CssInliner

def maxDepth : Nat := 32

def variableMarker : Marker := .literal Declaration.variableCall

/-- A text after expansion, with the numbers of references that were replaced
and of those that were not. -/
structure Expansion where
  text : Text
  substituted : Nat
  unresolved : Nat
deriving DecidableEq, Repr

namespace Expansion

/-- There were references and none could be replaced. -/
def failed (e : Expansion) : Bool := 0 < e.unresolved && e.substituted = 0

def unlessFailed (e : Expansion) : Option Expansion := if e.failed then none else some e

/-- The variable and the fallback that a call's arguments give. The fallback is
all behind the first comma, and counts only if it has any text. -/
def splitArguments (arguments : Text) : Text × Option Text :=
  match Text.splitFirst? [','] arguments with
  | some (name, fallback) => (name.trim, fallback.trim.nonempty?)
  | none => (arguments.trim, none)

/-- The text behind the last span. An opener in it is never closed. -/
def ofTail (value tail : Text) : Noted Expansion :=
  if variableMarker.occursIn tail then ⟨⟨tail, 0, 1⟩, [.missingClosingParen value]⟩
  else ⟨⟨tail, 0, 0⟩, []⟩

def consSpan (call : Text → Noted (Option Expansion)) (s : Span) (rest : Noted Expansion) :
    Noted Expansion :=
  let replaced := call s.body
  let warnings := replaced.warnings ++ rest.warnings
  match replaced.value with
  | some inner =>
      ⟨⟨s.pre ++ inner.text ++ rest.value.text, 1 + inner.substituted + rest.value.substituted,
        inner.unresolved + rest.value.unresolved⟩, warnings⟩
  | none =>
      ⟨⟨s.pre ++ s.whole ++ rest.value.text, rest.value.substituted,
        1 + rest.value.unresolved⟩, warnings⟩

def assemble (call : Text → Noted (Option Expansion)) (value : Text) : Noted Expansion :=
  let (spans, tail) := Span.all variableMarker ')' value
  spans.foldr (consSpan call) (ofTail value tail)

/-- A call at the greatest depth is left as it is. -/
def refuse (arguments : Text) : Noted (Option Expansion) :=
  if arguments.isBlankOnly then ⟨none, [.emptyCall]⟩
  else ⟨none, [.depthExceeded (splitArguments arguments).1 maxDepth]⟩

/-- What the variable of a call comes to. A name that is being expanded already
is part of a cycle. -/
def ofVariable (vars : VariableMap) (active : List Text)
    (expand : List Text → Text → Noted Expansion) (name : Text) : Noted (Option Expansion) :=
  match vars[name]? with
  | none => ⟨none, []⟩
  | some value =>
      if name ∈ active then ⟨none, [.cycle name]⟩
      else
        let e := expand (name :: active) value
        ⟨e.value.unlessFailed, e.warnings⟩

/-- What a call comes to where its variable comes to nothing. -/
def ofFallback (vars : VariableMap) (active : List Text)
    (expand : List Text → Text → Noted Expansion) (name : Text) :
    Option Text → Noted (Option Expansion)
  | some fallback =>
      let e := expand active fallback
      ⟨e.value.unlessFailed, e.warnings⟩
  | none => ⟨none, if name ∈ vars then [] else [.undefined name]⟩

def answer (vars : VariableMap) (active : List Text)
    (expand : List Text → Text → Noted Expansion) (arguments : Text) :
    Noted (Option Expansion) :=
  if arguments.isBlankOnly then ⟨none, [.emptyCall]⟩
  else
    let (name, fallback) := splitArguments arguments
    let held := ofVariable vars active expand name
    match held.value with
    | some e => ⟨some e, held.warnings⟩
    | none =>
        let other := ofFallback vars active expand name fallback
        ⟨other.value, held.warnings ++ other.warnings⟩

/-- Expands a value where `levels` more levels are allowed and the names in
`active` are being expanded. -/
def expand (vars : VariableMap) : (levels : Nat) → (active : List Text) → Text →
    Noted Expansion
  | 0, _ => assemble refuse
  | levels + 1, active => assemble (answer vars active (expand vars levels))

end Expansion

end CssInliner
