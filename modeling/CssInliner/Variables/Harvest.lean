import CssInliner.Variables.Basic

/-!
Where the variables of a run come from: the top-level rules for `:root`, then
the overrides of the caller, then the store, each stronger than the one before.
-/

namespace CssInliner

def Rule.rootVariables : Rule → List Declaration
  | .style selectors ds => if isRoot selectors then ds.filter Declaration.isCustom else []
  | _ => []

def Rule.withoutRootVariables : Rule → Rule
  | .style selectors ds =>
      if isRoot selectors then .style selectors (ds.filter fun d => !d.isCustom)
      else .style selectors ds
  | rule => rule

/-- The variables declared in the sheet; the last declaration of a name stays. -/
def Stylesheet.rootVariables (sheet : Stylesheet) : VariableMap :=
  VariableMap.insertAll ∅ <|
    (sheet.flatMap Rule.rootVariables).map fun d => (d.property, d.value)

def Store.rootRule (s : Store) : Rule :=
  .style [rootSelector] (s.toList.map fun pair => ⟨pair.1, pair.2⟩)

structure Harvest where
  /-- The sheet that is left. -/
  sheet : Stylesheet
  bindings : VariableMap
  store : Option Store
  /-- How many names the sheet itself declares. -/
  declared : Nat

/-- Collects the variables of a sheet. Unless `preserve` is set they are taken
out of it; if it is set, a rule that declares the store is added. -/
def Stylesheet.harvest (sheet : Stylesheet) (overrides : VariableMap) (preserve : Bool)
    (store : Option Store) : Harvest :=
  let declared := sheet.rootVariables
  let rest := if preserve then sheet else sheet.map Rule.withoutRootVariables
  let overrides := overrides.normalize
  let bindings := declared.insertAll overrides.toList
  match store with
  | none => ⟨rest, bindings, none, declared.size⟩
  | some store =>
      let store := store.supplement overrides
      let added := if preserve && !store.isEmpty then [store.rootRule] else []
      ⟨rest ++ added, bindings.insertAll store.toList, some store, declared.size⟩

end CssInliner
