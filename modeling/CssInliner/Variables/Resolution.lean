import CssInliner.Journal
import CssInliner.Stylesheet.Visit
import CssInliner.Variables.Expansion

/-!
Resolving the references of declarations. A declaration whose value does not
change is left alone; with `preserve` a changed value goes into a copy behind the
declaration, without it in place.
-/

namespace CssInliner

inductive Resolution where
  | resolved (text : Text)
  | partly (text : Text)
  | unresolved
deriving DecidableEq, Repr

/-- The value to write, if there is one. -/
def Resolution.text? : Resolution → Option Text
  | resolved text => some text
  | partly text => some text
  | unresolved => none

def Resolution.ofExpansion (e : Expansion) : Resolution :=
  if e.unresolved = 0 then .resolved e.text
  else if e.substituted = 0 then .unresolved
  else .partly e.text

def resolveValue (vars : VariableMap) (value : Text) : Noted Resolution :=
  let e := Expansion.expand vars maxDepth [] value
  ⟨.ofExpansion e.value, e.warnings⟩

/-- What stands in the place of a declaration, and what there is to tell of it. -/
def resolveDeclaration (vars : VariableMap) (preserve : Bool) (d : Declaration) :
    List Declaration × List Event :=
  if !d.mentionsVariable then ([d], [])
  else
    let r := resolveValue vars d.value
    let warned := r.warnings.map Event.warned
    match r.value.text? with
    | none => ([d], warned)
    | some value =>
        if value = d.value then ([d], warned)
        else
          let resolved : Declaration := ⟨d.property, value⟩
          (if preserve then [d, resolved] else [resolved],
            warned ++ [.substituted d.property d.value value])

def resolveBlock (vars : VariableMap) (preserve : Bool) (events : List Event)
    (ds : List Declaration) : List Declaration × List Event :=
  let resolved := ds.map (resolveDeclaration vars preserve)
  (resolved.flatMap Prod.fst, events ++ resolved.flatMap Prod.snd)

def Stylesheet.resolve (vars : VariableMap) (preserve : Bool) (sheet : Stylesheet) :
    Stylesheet × List Event :=
  visitRules (resolveBlock vars preserve) [] sheet

end CssInliner
