import CssInliner.Stylesheet.Visit
import Mathlib.Data.List.Forall2

/-!
What holds of every rule of a tree, those inside groups included, and what holds
between the declaration lists of two trees that have the same rules.
-/

namespace CssInliner

mutual

/-- The rule has the property, and so has every rule inside it. -/
def Rule.Throughout (P : Rule → Prop) : Rule → Prop
  | .group kind header rules => P (.group kind header rules) ∧ RulesThroughout P rules
  | rule => P rule

def RulesThroughout (P : Rule → Prop) : List Rule → Prop
  | [] => True
  | rule :: rules => rule.Throughout P ∧ RulesThroughout P rules

end

section Throughout

variable {P : Rule → Prop}

theorem rulesThroughout_iff {rules : List Rule} :
    RulesThroughout P rules ↔ ∀ rule ∈ rules, rule.Throughout P := by
  induction rules with
  | nil => simp [RulesThroughout]
  | cons rule rules ih => simp [RulesThroughout, ih]

theorem Rule.Throughout.self {rule : Rule} (h : rule.Throughout P) : P rule := by
  cases rule with
  | group kind header rules => exact h.1
  | _ => exact h

end Throughout

def ledByAt (selectors : List Text) : Bool :=
  selectors.head?.any fun s => s.head? = some '@'

/-- A style rule whose selectors are not led by an at sign; any other rule. -/
def Rule.KeepsOffAt : Rule → Prop
  | .style selectors _ => ledByAt selectors = false
  | _ => True

/-- The rules are the same but for their declarations, and list by list these are
related. -/
inductive Rule.Corresponds (R : List Declaration → List Declaration → Prop) : Rule → Rule → Prop
  | style (selectors : List Text) {ds ds' : List Declaration} (h : R ds ds') :
      Corresponds R (.style selectors ds) (.style selectors ds')
  | page (selectors : List Text) {ds ds' : List Declaration} (h : R ds ds') :
      Corresponds R (.page selectors ds) (.page selectors ds')
  | fontFace {ds ds' : List Declaration} (h : R ds ds') :
      Corresponds R (.fontFace ds) (.fontFace ds')
  | keyframes (vendor : Option Text) (name : Text) {frames frames' : List Keyframe}
      (h : List.Forall₂ (fun frame frame' => frame'.selectors = frame.selectors ∧
        R frame.declarations frame'.declarations) frames frames') :
      Corresponds R (.keyframes vendor name frames) (.keyframes vendor name frames')
  | group (kind : GroupKind) (header : Text) {rules rules' : List Rule}
      (h : List.Forall₂ (Corresponds R) rules rules') :
      Corresponds R (.group kind header rules) (.group kind header rules')
  | customMedia (name media : Text) :
      Corresponds R (.customMedia name media) (.customMedia name media)
  | statement (kind : StatementKind) (value : Text) :
      Corresponds R (.statement kind value) (.statement kind value)
  | comment (text : Text) : Corresponds R (.comment text) (.comment text)

section Corresponds

variable {R : List Declaration → List Declaration → Prop}
  {f : List Declaration → List Declaration}

theorem mapBlocks_eq_map (f : List Declaration → List Declaration) (rules : List Rule) :
    mapBlocks f rules = rules.map (Rule.mapBlocks f) := by
  induction rules with
  | nil => rfl
  | cons rule rules ih => rw [mapBlocks, ih, List.map_cons]

mutual

theorem Rule.corresponds_mapBlocks (h : ∀ ds, R ds (f ds)) (rule : Rule) :
    rule.Corresponds R (rule.mapBlocks f) := by
  cases rule with
  | style selectors ds => exact .style selectors (h ds)
  | page selectors ds => exact .page selectors (h ds)
  | fontFace ds => exact .fontFace (h ds)
  | keyframes vendor name frames =>
      refine .keyframes vendor name (List.forall₂_map_right_iff.2 ?_)
      exact List.forall₂_same.2 fun frame _ => ⟨rfl, h frame.declarations⟩
  | group kind header rules =>
      exact .group kind header (CssInliner.corresponds_mapBlocks h rules)
  | customMedia name media => exact .customMedia name media
  | statement kind value => exact .statement kind value
  | comment text => exact .comment text

theorem corresponds_mapBlocks (h : ∀ ds, R ds (f ds)) (rules : List Rule) :
    List.Forall₂ (Rule.Corresponds R) rules (mapBlocks f rules) := by
  cases rules with
  | nil => exact .nil
  | cons rule rules =>
      exact .cons (rule.corresponds_mapBlocks h) (corresponds_mapBlocks h rules)

end

end Corresponds

/-- Declarations that are replaced one by one correspond to what replaces them. -/
theorem forall₂_flatMap {R : Declaration → Declaration → Prop}
    {f : Declaration → List Declaration} (h : ∀ d, ∃ d', f d = [d'] ∧ R d d')
    (ds : List Declaration) : List.Forall₂ R ds (ds.flatMap f) := by
  induction ds with
  | nil => exact .nil
  | cons d ds ih =>
      obtain ⟨d', hd', hR⟩ := h d
      rw [List.flatMap_cons, hd']
      exact .cons hR ih

end CssInliner
