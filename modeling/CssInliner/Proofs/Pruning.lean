import CssInliner.Proofs.Filter
import CssInliner.Proofs.Tree

/-!
What is left of a tree when only variables are kept: a pruned tree in which there is
something to keep each rule for. Of such a tree nothing more is dropped, and so the
declarations that have to do with variables are kept once and for all.
-/

namespace CssInliner

/-- Rules that go only with the group they are in. -/
def Rule.isLasting : Rule → Bool
  | .customMedia _ _ | .statement _ _ | .comment _ => true
  | _ => false

/-- Left of the rules when some of them are dropped and the order stays. Of a style or
page rule declarations may be gone, of a group rules in the same way; headers never
change, and no more do all other rules. -/
inductive Pruned : List Rule → List Rule → Prop
  | nil : Pruned [] []
  | drop {rule : Rule} (hrule : rule.isLasting = false) {kept rules : List Rule}
      (hrest : Pruned kept rules) : Pruned kept (rule :: rules)
  | whole (rule : Rule) {kept rules : List Rule} (hrest : Pruned kept rules) :
      Pruned (rule :: kept) (rule :: rules)
  | style (selectors : List Text) {ds ds' : List Declaration} (hds : ds'.Sublist ds)
      {kept rules : List Rule} (hrest : Pruned kept rules) :
      Pruned (.style selectors ds' :: kept) (.style selectors ds :: rules)
  | page (selectors : List Text) {ds ds' : List Declaration} (hds : ds'.Sublist ds)
      {kept rules : List Rule} (hrest : Pruned kept rules) :
      Pruned (.page selectors ds' :: kept) (.page selectors ds :: rules)
  | group (kind : GroupKind) (header : Text) {inside inside' kept rules : List Rule}
      (hinside : Pruned inside' inside) (hrest : Pruned kept rules) :
      Pruned (.group kind header inside' :: kept) (.group kind header inside :: rules)

/-- There is something in the rule to keep it for, and in a style or page rule nothing
else. -/
def Rule.Involved : Rule → Prop
  | .style _ ds | .page _ ds => ds ≠ [] ∧ ∀ d ∈ ds, d.involvesVariables = true
  | .fontFace ds => ∃ d ∈ ds, d.involvesVariables = true
  | .keyframes _ _ frames =>
      ∃ frame ∈ frames, ∃ d ∈ frame.declarations, d.involvesVariables = true
  | .group _ _ rules => ∃ rule ∈ rules, rule.isComment = false
  | .customMedia _ _ | .statement _ _ | .comment _ => True

mutual

/-- What is kept of the first rule stands in front of what is kept of the others. -/
theorem Rule.pruned_keepVariables (rule : Rule) {kept rules : List Rule}
    (hrest : Pruned kept rules) : Pruned (rule.keepVariables.toList ++ kept) (rule :: rules) := by
  cases rule with
  | style selectors ds =>
      rw [Rule.keepVariables]
      split
      · exact .drop rfl hrest
      · exact .style selectors List.filter_sublist hrest
  | page selectors ds =>
      rw [Rule.keepVariables]
      split
      · exact .drop rfl hrest
      · exact .page selectors List.filter_sublist hrest
  | fontFace ds | keyframes vendor name frames =>
      rw [Rule.keepVariables]
      split
      · exact .whole _ hrest
      · exact .drop rfl hrest
  | group kind header rules =>
      rw [Rule.keepVariables]
      split
      · exact .drop rfl hrest
      · exact .group kind header (CssInliner.pruned_keepVariables rules) hrest
  | customMedia name media | statement kind value | comment text => exact .whole _ hrest

theorem pruned_keepVariables (rules : List Rule) : Pruned (keepVariables rules) rules := by
  cases rules with
  | nil => exact .nil
  | cons rule rules => exact rule.pruned_keepVariables (pruned_keepVariables rules)

end

mutual

theorem Rule.involved_keepVariables (rule : Rule) :
    RulesThroughout Rule.Involved rule.keepVariables.toList := by
  cases rule with
  | style selectors ds | page selectors ds =>
      rw [Rule.keepVariables]
      split
      · trivial
      · next hne => exact ⟨⟨by simpa using hne, fun d hd => (List.mem_filter.1 hd).2⟩, trivial⟩
  | fontFace ds =>
      rw [Rule.keepVariables]
      split
      · next hany => exact ⟨List.any_eq_true.1 hany, trivial⟩
      · trivial
  | keyframes vendor name frames =>
      rw [Rule.keepVariables]
      split
      · next hany => exact ⟨by simpa [Rule.Throughout, Rule.Involved] using hany, trivial⟩
      · trivial
  | group kind header rules =>
      rw [Rule.keepVariables]
      split
      · trivial
      · next hcomments =>
          refine ⟨⟨?_, CssInliner.involved_keepVariables rules⟩, trivial⟩
          simpa [Rule.Involved] using hcomments
  | customMedia name media | statement kind value | comment text => exact ⟨trivial, trivial⟩

theorem involved_keepVariables (rules : List Rule) :
    RulesThroughout Rule.Involved (keepVariables rules) := by
  cases rules with
  | nil => trivial
  | cons rule rules =>
      rw [keepVariables, rulesThroughout_iff]
      intro kept hkept
      rcases List.mem_append.1 hkept with hkept | hkept
      · exact rulesThroughout_iff.1 rule.involved_keepVariables kept hkept
      · exact rulesThroughout_iff.1 (involved_keepVariables rules) kept hkept

end

mutual

theorem Rule.keepVariables_of_involved {rule : Rule} (h : rule.Throughout Rule.Involved) :
    rule.keepVariables = some rule := by
  cases rule with
  | style selectors ds | page selectors ds =>
      obtain ⟨hne, hds⟩ := h
      rw [Rule.keepVariables, List.filter_eq_self.2 hds]
      exact if_neg (by simpa using hne)
  | fontFace ds => exact if_pos (List.any_eq_true.2 h)
  | keyframes vendor name frames =>
      refine if_pos ?_
      simpa [Rule.Throughout, Rule.Involved] using h
  | group kind header rules =>
      obtain ⟨hrule, hrules⟩ := h
      rw [Rule.keepVariables, CssInliner.keepVariables_of_involved hrules]
      exact if_neg (by simpa [Rule.Involved] using hrule)
  | customMedia name media | statement kind value | comment text => rfl

theorem keepVariables_of_involved {rules : List Rule}
    (h : RulesThroughout Rule.Involved rules) : keepVariables rules = rules := by
  cases rules with
  | nil => rfl
  | cons rule rules =>
      rw [keepVariables, rule.keepVariables_of_involved h.1, keepVariables_of_involved h.2]
      rfl

end

/-- Keeping only variables loses no declaration that defines or mentions one. The tree is
pruned down to rules that there is something to keep for, and a second time it stays as
it is. -/
theorem keepVariables_prunes (rules : List Rule) :
    (declarations (keepVariables rules)).filter Declaration.involvesVariables =
        (declarations rules).filter Declaration.involvesVariables ∧
      RulesThroughout Rule.Involved (keepVariables rules) ∧
        Pruned (keepVariables rules) rules ∧
          keepVariables (keepVariables rules) = keepVariables rules :=
  ⟨(cutFrom_keepVariables rules).filter_eq, involved_keepVariables rules,
    pruned_keepVariables rules, keepVariables_of_involved (involved_keepVariables rules)⟩

end CssInliner
