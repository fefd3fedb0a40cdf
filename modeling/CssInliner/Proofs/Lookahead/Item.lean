import CssInliner.Proofs.Lookahead.AtRule
import CssInliner.Proofs.Selectors
import CssInliner.Proofs.Tree

/-!
Whatever may stand in a list of rules. What begins with an at sign and is no
known at rule is a style rule with such a selector; all other items are settled
before the text that follows them comes into play.
-/

namespace CssInliner.Grammar

open CssInliner.Parser

theorem untilBlock_at (t : Text) :
    untilBlock ('@' :: t) = ('@' :: (untilBlock t).1, (untilBlock t).2) := by
  have hstep : selectorLexis.step ('@' :: t) = some (.char '@', t) :=
    Lexis.step_char rfl (by decide) rfl (by decide) t
  unfold untilBlock
  rw [Lexis.cut_eq, hstep]
  rfl

def uncommented : Piece → Text
  | .comment _ => []
  | p => p.text

theorem stripComments_of_step {t rest : Text} {p : Piece}
    (h : commentLexis.step t = some (p, rest)) :
    stripComments t = uncommented p ++ stripComments rest := by
  unfold stripComments
  rw [Lexis.pieces_eq, h]
  cases p <;> rfl

/-- A character that begins no comment and no quoted string stays. -/
theorem stripComments_cons_of_bare {c : Char} (hquote : Text.isQuote c = false) {t : Text}
    (hbare : ¬ commentOpen <+: c :: t) : stripComments (c :: t) = c :: stripComments t := by
  have hstep : commentLexis.step (c :: t) = some (.char c, t) := by
    simp [Lexis.step, commentLexis, hquote, Text.dropLead?_eq_none_iff.2 hbare]
  exact stripComments_of_step hstep

theorem stripComments_cons {c : Char} (hquote : Text.isQuote c = false) (hslash : c ≠ '/')
    (t : Text) : stripComments (c :: t) = c :: stripComments t := by
  refine stripComments_cons_of_bare hquote fun hopen => ?_
  exact hslash (List.cons_prefix_cons.1 hopen).1.symm

theorem stripComments_comment (body : Text) :
    stripComments (commentOpen ++ body) = stripComments (throughComment body).2 := by
  have hstep : commentLexis.step (commentOpen ++ body) =
      some (.comment (commentOpen ++ (throughComment body).1), (throughComment body).2) := rfl
  exact stripComments_of_step hstep

theorem ledByAt_of_selectorList {t blank m r : Text} {selectors : List Text}
    (hblank : layout t = .matched blank m) (hm : m.head? = some '@')
    (h : selectorList t = .matched selectors r) : ledByAt selectors = true := by
  obtain ⟨blank', m', hblank', -, hsel, -⟩ := selectorList_eq_matched.1 h
  rw [hblank] at hblank'
  obtain ⟨rfl, rfl⟩ := Outcome.matched.inj hblank'
  obtain ⟨m, rfl⟩ := List.head?_eq_some_iff.1 hm
  rw [untilBlock_at, Text.trim_cons rfl,
    stripComments_cons rfl (by decide)] at hsel
  obtain ⟨s, ss, hss⟩ := splitSelectors_at (stripComments (untilBlock m).1.trimEnd)
  rw [← hsel, hss]
  rfl

theorem settled_of_item {t r : Text} {i : Item} (h : item t = .matched i r)
    (hr : ∀ kind header, i = .groupHeader kind header → r.Bounded)
    (hi : ∀ rule, i = .rule rule → rule.KeepsOffAt) :
    t.Bounded ∧ ∀ u, item (t ++ u) = .matched i (r ++ u) := by
  rcases orElse_eq_matched.1 h with hat | ⟨hat, hwhole⟩
  · obtain ⟨ht, happ⟩ := settlesItems_atItem hat hr
    exact ⟨ht, fun u => orElse_eq_matched.2 (.inl (happ u))⟩
  obtain ⟨rule, rfl, hstyle⟩ := whole_eq_matched.1 hwhole
  have ht : t.Bounded := closes_styleRule.bounded hstyle
  refine ⟨ht, fun u => orElse_eq_matched.2 (.inr ⟨?_, ?_⟩)⟩
  · obtain ⟨selectors, m, ds, hsel, -, -, rfl⟩ := styleRule_eq_matched.1 hstyle
    obtain ⟨blank, m, hblank, -, -, -⟩ := selectorList_eq_matched.1 hsel
    have hm : m.Bounded := sparesBounds_layout hblank ht
    -- a known at rule could be found in the longer text only behind an at sign
    have hhead : m.head? ≠ some '@' := by
      intro hhead
      have hled := ledByAt_of_selectorList hblank hhead hsel
      have hkeeps : ledByAt selectors = false := hi _ rfl
      rw [hled] at hkeeps
      contradiction
    refine bind_eq_mismatch.2 (.inr ⟨blank, m ++ u, steadyInside_layout.append hblank hm u, ?_⟩)
    apply knownAtItem_eq_mismatch
    rwa [head?_append_of_ne_nil hm.ne_nil]
  · exact whole_eq_matched.2 ⟨rule, rfl, closes_styleRule.append hstyle u⟩

end CssInliner.Grammar
