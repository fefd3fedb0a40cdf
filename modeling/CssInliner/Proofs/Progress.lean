import CssInliner.Proofs.Concatenation

/-!
Reading goes forward. What a parser leaves is always an end of its input, in a report as well
as behind a match, and a match of anything larger than white space takes at least a character.
So every loop ends: it takes no more turns than its text has characters, up to a text where
nothing matches or a defect is found.
-/

namespace CssInliner

/-- So many turns lead from one text to another. -/
inductive TakesTurns (turn : Text → Text → Prop) : Nat → Text → Text → Prop
  | nil (t : Text) : TakesTurns turn 0 t t
  | cons {n : Nat} {t m r : Text} (h : turn t m) (hs : TakesTurns turn n m r) :
      TakesTurns turn (n + 1) t r

/-- Turns that take at least a character each are no more than the characters they take. -/
theorem TakesTurns.length_le {turn : Text → Text → Prop}
    (hturn : ∀ {t m}, turn t m → m.length < t.length) {n : Nat} {t r : Text}
    (h : TakesTurns turn n t r) : n + r.length ≤ t.length := by
  induction h with
  | nil t => omega
  | cons h _ ih =>
      have := hturn h
      omega

namespace Parser

variable {α : Type} {p : Parser α}

def Turn (p : Parser α) (t m : Text) : Prop := ∃ a, p t = .matched a m

theorem Advances.length_lt_of_turn (hp : p.Advances) {t m : Text} (h : p.Turn t m) :
    m.length < t.length := by
  obtain ⟨a, ha⟩ := h
  have := hp t
  rw [ha] at this
  exact this.2

/-- Where a loop over the parser ends after so many turns, and with what. -/
inductive LoopEnd (p : Parser α) : Nat → Text → Outcome (List α) → Prop
  | mismatch {as : List α} {m : Text} (h : p m = .mismatch) :
      LoopEnd p as.length m (.matched as m)
  | failure {n : Nat} {m r : Text} {d : Defect} (h : p m = .failure d r) :
      LoopEnd p n m (.failure d r)

/-- The loop over the parser ends on every text, after no more turns than there are
characters. -/
def LoopEnds (p : Parser α) (hp : p.Advances) : Prop :=
  ∀ t, ∃ n m, TakesTurns p.Turn n t m ∧ n + m.length ≤ t.length ∧ p.LoopEnd n m (many p hp t)

theorem exists_turns_many (hp : p.Advances) (t : Text) :
    ∃ n m, TakesTurns p.Turn n t m ∧ p.LoopEnd n m (many p hp t) := by
  fun_induction many p hp t with
  | case1 t h => exact ⟨([] : List α).length, t, .nil t, .mismatch h⟩
  | case2 t d r h => exact ⟨0, t, .nil t, .failure h⟩
  | case3 t a m h _ as r hmany ih =>
      obtain ⟨n, m', hturns, hend⟩ := ih
      rw [hmany] at hend
      cases hend with
      | mismatch hm => exact ⟨(a :: as).length, r, .cons ⟨a, h⟩ hturns, .mismatch hm⟩
  | case4 t a m h _ hmany ih =>
      exact absurd hmany (insists_many hp m)
  | case5 t a m h _ d r hmany ih =>
      obtain ⟨n, m', hturns, hend⟩ := ih
      rw [hmany] at hend
      cases hend with
      | failure hm => exact ⟨n + 1, m', .cons ⟨a, h⟩ hturns, .failure hm⟩

theorem Advances.loopEnds (hp : p.Advances) : p.LoopEnds hp := by
  intro t
  obtain ⟨n, m, hturns, hend⟩ := exists_turns_many hp t
  exact ⟨n, m, hturns, hturns.length_le hp.length_lt_of_turn, hend⟩

end Parser

namespace Grammar

open CssInliner.Parser

/-- A turn of the reading of rules closes a group or reads an item, with the comments behind
it. -/
def RulesTurn (t m : Text) : Prop := closeBlock.Turn t m ∨ itemWithComments.Turn t m

theorem RulesTurn.length_lt {t m : Text} (h : RulesTurn t m) : m.length < t.length :=
  h.elim advances_closeBlock.length_lt_of_turn advances_itemWithComments.length_lt_of_turn

/-- Where the reading of rules ends, and with what. -/
inductive RulesEnd : Text → Outcome (List Rule) → Prop
  | text (rules : List Rule) : RulesEnd [] (.matched rules [])
  | brace (rules : List Rule) (r : Text) : RulesEnd ('\x7d' :: r) (.matched rules r)
  | unclosed : RulesEnd [] (.failure .missingCloseBrace [])
  | defect {m r : Text} {d : Defect}
      (h : closeBlock m = .failure d r ∨ itemWithComments m = .failure d r) :
      RulesEnd m (.failure d r)

theorem exists_turns_readRules (bare : Bool) (groups : List OpenGroup) (rules : List Rule)
    (t : Text) :
    ∃ n m, TakesTurns RulesTurn n t m ∧ RulesEnd m (readRules bare groups rules t) := by
  have hinsists := insists_readRules bare groups rules t
  fun_induction readRules bare groups rules t with
  | case1 => exact ⟨0, [], .nil [], .text _⟩
  | case2 => exact ⟨0, [], .nil [], .unclosed⟩
  | case3 rules c t hbrace =>
      obtain ⟨rfl, -⟩ : c = '\x7d' ∧ bare = false := by simpa using hbrace
      exact ⟨0, _, .nil _, .brace _ t⟩
  | case4 _ c t g _ found r hclose _ _ ih =>
      obtain ⟨n, m, hturns, hend⟩ := ih hinsists
      exact ⟨n + 1, m, .cons (.inl ⟨found, hclose⟩) hturns, hend⟩
  | case6 _ c t _ _ d r hclose _ => exact ⟨0, _, .nil _, .defect (.inl hclose)⟩
  | case7 _ _ c t found r rule hitem _ _ _ ih =>
      obtain ⟨n, m, hturns, hend⟩ := ih hinsists
      exact ⟨n + 1, m, .cons (.inr ⟨_, hitem⟩) hturns, hend⟩
  | case8 _ _ c t found r kind header hitem _ _ _ ih =>
      obtain ⟨n, m, hturns, hend⟩ := ih hinsists
      exact ⟨n + 1, m, .cons (.inr ⟨_, hitem⟩) hturns, hend⟩
  | case10 _ _ c t d r hitem _ => exact ⟨0, _, .nil _, .defect (.inr hitem)⟩
  | _ => contradiction

/-- The reading of rules ends on every text, whatever groups are open, after no more turns than
there are characters. -/
theorem readRules_ends (bare : Bool) (groups : List OpenGroup) (rules : List Rule) (t : Text) :
    ∃ n m, TakesTurns RulesTurn n t m ∧ n + m.length ≤ t.length ∧
      RulesEnd m (readRules bare groups rules t) := by
  obtain ⟨n, m, hturns, hend⟩ := exists_turns_readRules bare groups rules t
  exact ⟨n, m, hturns, hturns.length_le RulesTurn.length_lt, hend⟩

theorem byteLength_le_of_failure {source r : Text} {d : Defect}
    (h : ruleList true source = .failure d r) : r.byteLength ≤ source.byteLength := by
  have hsuffix := walks_ruleList true source
  rw [h] at hsuffix
  obtain ⟨read, rfl⟩ := hsuffix
  rw [Text.byteLength_append]
  omega

/-- All parsers walk forward in their input, and those of whole rules, blocks, declarations and
comments by a character at least; a list of rules without braces is read to the end of the text.
So all loops end: those over comments, fillers, declarations, the selectors of a frame, frames,
and rules and groups. And a defect in a source is never noticed before its start. -/
theorem parsers_walk_forward :
    ((∀ bare, (ruleList bare).Walks) ∧ selectorList.Walks ∧ comments.Walks ∧
        styleRule.Advances ∧ atRule.Advances ∧ declarationBlock.Advances ∧
          declaration.Advances ∧ comment.Advances) ∧
      (∀ t rules r, ruleList true t = .matched rules r → r = []) ∧
        (commentRule.LoopEnds advances_commentRule ∧ fillerPart.LoopEnds advances_fillerPart ∧
          declarationItem.LoopEnds advances_declarationItem ∧
            keyframeSelectorItem.LoopEnds advances_keyframeSelectorItem ∧
              keyframeItem.LoopEnds advances_keyframeItem ∧
                ∀ bare groups rules t, ∃ n m, TakesTurns RulesTurn n t m ∧
                  n + m.length ≤ t.length ∧ RulesEnd m (readRules bare groups rules t)) ∧
          ∀ source, ruleList true source ≠ .mismatch ∧
            ∀ d r, ruleList true source = .failure d r → r.byteLength ≤ source.byteLength := by
  refine ⟨⟨walks_ruleList, walks_selectorList, walks_comments, advances_styleRule,
      advances_atRule, advances_declarationBlock, advances_declaration, advances_comment⟩,
    fun t rules r h => ?_,
    ⟨advances_commentRule.loopEnds, advances_fillerPart.loopEnds, advances_declarationItem.loopEnds,
      advances_keyframeSelectorItem.loopEnds, advances_keyframeItem.loopEnds, readRules_ends⟩,
    fun source => ⟨insists_ruleList_bare source, fun d r h => byteLength_le_of_failure h⟩⟩
  rw [ruleList_bare] at h
  exact eq_nil_of_readOn h

/-- A sheet with a comment at its end, and a sheet that ends in a declaration. -/
theorem parsers_walk_forward_sample :
    ruleList true "a\x7bb:c\x7d/**/".toList =
        .matched [.style ["a".toList] [⟨"b".toList, "c".toList⟩], .comment []] [] ∧
      ruleList true "é\x7bb c".toList = .failure .missingColon ['c'] ∧
        Text.byteLength ['c'] ≤ Text.byteLength "é\x7bb c".toList := by
  have hfailure : ruleList true "é\x7bb c".toList = .failure .missingColon ['c'] := by
    decide +kernel
  exact ⟨by decide +kernel, hfailure, (parsers_walk_forward.2.2.2 _).2 _ _ hfailure⟩

end Grammar

end CssInliner
