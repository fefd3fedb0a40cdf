import CssInliner.Grammar.Keyframes
import CssInliner.Grammar.Selector
import CssInliner.Proofs.Lookahead.Parser

/-!
Comments, selector lists, declarations and frames as parsers that do not mind
what is appended. A block of declarations ends with a brace of its own, so
nothing behind it matters.
-/

namespace CssInliner.Grammar

open CssInliner.Parser

theorem steadyInside_layout : layout.SteadyInside := steadyInside_takeWhile _

theorem insists_layout : layout.Insists := insists_takeWhile _

theorem sparesBounds_layout : layout.SparesBounds := by
  refine sparesBounds_takeWhile fun c hc => ?_
  simp only [isBound, Bool.or_eq_true, decide_eq_true_eq] at hc
  rcases hc with (rfl | rfl) | rfl <;> rfl

theorem comment_eq_matched {t text r : Text} :
    comment t = .matched text r ↔ ∃ body, t = commentOpen ++ body ∧
      Text.splitFirst? commentClose body = some (text, r) := by
  unfold comment
  cases hlead : Text.dropLead? commentOpen t with
  | none =>
      simp only [reduceCtorEq, false_iff, not_exists, not_and]
      rintro body rfl
      rw [Text.dropLead?_append] at hlead
      contradiction
  | some body =>
      obtain rfl := Text.eq_append_of_dropLead? hlead
      cases hsplit : Text.splitFirst? commentClose body with
      | none => simp [hsplit]
      | some found =>
          obtain ⟨inside, after⟩ := found
          simp [hsplit]

theorem comment_eq_mismatch {t : Text} : comment t = .mismatch ↔ ¬ commentOpen <+: t := by
  unfold comment
  rw [← Text.dropLead?_eq_none_iff]
  cases Text.dropLead? commentOpen t with
  | none => simp
  | some body => cases hsplit : Text.splitFirst? commentClose body <;> simp [hsplit]

theorem steady_comment : comment.Steady := by
  refine ⟨advances_comment.walks, ?_⟩
  intro t text r h u
  obtain ⟨body, rfl, hsplit⟩ := comment_eq_matched.1 h
  obtain rfl := Text.eq_append_of_splitFirst? hsplit
  refine comment_eq_matched.2 ⟨text ++ commentClose ++ (r ++ u), by simp, ?_⟩
  exact Text.splitFirst?_behind hsplit (r ++ u)

theorem refusesSteadily_comment : comment.RefusesSteadily := by
  intro t h ht u
  rw [comment_eq_mismatch] at h ⊢
  obtain ⟨c, t, rfl⟩ := List.exists_cons_of_ne_nil ht.ne_nil
  cases t with
  | cons d t => simpa [commentOpen] using h
  | nil =>
      obtain ⟨b, hb, hbound⟩ := ht
      obtain rfl := List.mem_singleton.1 hb
      have hne : b ≠ '/' := by
        rintro rfl
        contradiction
      simp [commentOpen, hne.symm]

theorem steadyInside_commentRule : commentRule.SteadyInside :=
  steadyInside_layout.bind fun _ => (steady_comment.bind fun _ => steady_pure _).inside

theorem refusesSteadily_commentRule : commentRule.RefusesSteadily :=
  insists_layout.refusesSteadily.bind steadyInside_layout sparesBounds_layout fun _ =>
    refusesSteadily_comment.bind_insists fun _ => insists_pure _

theorem steadyInside_comments : comments.SteadyInside :=
  (steadyInside_commentRule.many refusesSteadily_commentRule _).bind fun _ =>
    steadyInside_layout.bind fun _ => (steady_pure _).inside

theorem insists_comments : comments.Insists :=
  (insists_many _).bind fun _ => insists_layout.bind fun _ => insists_pure _

theorem steadyInside_filler : filler.SteadyInside :=
  ((steadyInside_takeWhile1 _).orElse (refusesSteadily_takeWhile1 _) steady_comment.inside).many
    ((refusesSteadily_takeWhile1 _).orElse refusesSteadily_comment) _

theorem insists_filler : filler.Insists := insists_many _

theorem steadyInside_openBrace : openBrace.SteadyInside :=
  (steady_literal _).inside.bind fun _ =>
    steadyInside_layout.bind fun _ => (steady_pure _).inside

theorem closes_closeBrace : closeBrace.Closes := closes_char rfl

theorem untilBlock_append (t : Text) : (untilBlock t).1 ++ (untilBlock t).2 = t :=
  Lexis.cut_append ..

theorem endsAtBounds_untilBlock :
    Lexis.EndsAtBounds fun (_ : Unit) p => if p = .char '\x7b' then none else some () := by
  intro s p h
  by_cases hp : p = .char '\x7b'
  · exact ⟨_, hp, rfl⟩
  · simp [hp] at h

theorem selectorList_eq_matched {t r : Text} {selectors : List Text} :
    selectorList t = .matched selectors r ↔
      ∃ blank m, layout t = .matched blank m ∧ m.head? ≠ some '\x7d' ∧
        splitSelectors (stripComments (untilBlock m).1.trim) = selectors ∧
        (untilBlock m).2 = r := by
  refine bind_eq_matched.trans ?_
  refine exists_congr fun blank => exists_congr fun m => and_congr_right fun _ => ?_
  by_cases hm : m.head? = some '\x7d' <;> simp [hm]

theorem steadyInside_selectorList : selectorList.SteadyInside := by
  refine ⟨walks_selectorList, ?_⟩
  intro t selectors r h hr u
  obtain ⟨blank, m, hblank, hhead, hsel, hrest⟩ := selectorList_eq_matched.1 h
  have hne : (untilBlock m).2 ≠ [] := by
    rw [hrest]
    exact hr.ne_nil
  have hm : m.Bounded := by
    refine hr.of_suffix ⟨(untilBlock m).1, ?_⟩
    rw [← hrest]
    exact untilBlock_append m
  have hcut : untilBlock (m ++ u) = ((untilBlock m).1, (untilBlock m).2 ++ u) :=
    Lexis.cut_append_of_ne_nil rfl endsAtBounds_untilBlock hne u
  refine selectorList_eq_matched.2
    ⟨blank, m ++ u, steadyInside_layout.append hblank hm u, ?_, ?_, ?_⟩
  · rwa [head?_append_of_ne_nil hm.ne_nil]
  · rw [hcut, hsel]
  · rw [hcut, hrest]

theorem insists_selectorList : selectorList.Insists := by
  refine insists_layout.bind fun _ t => ?_
  split <;> simp

/-- Tests of a single character that no bound passes. -/
theorem sparesBounds_takeWhile1_of {test : Char → Bool}
    (hopen : test '\x7b' = false) (hclose : test '\x7d' = false) (hsemi : test ';' = false) :
    (takeWhile1 test).SparesBounds := by
  refine sparesBounds_takeWhile1 fun c hc => ?_
  simp only [isBound, Bool.or_eq_true, decide_eq_true_eq] at hc
  rcases hc with (rfl | rfl) | rfl <;> assumption

theorem steadyInside_propertySuffix : propertySuffix.SteadyInside :=
  (steady_literal _).inside.bind fun _ => (steadyInside_takeWhile1 _).bind fun _ =>
    ((steady_literal _).bind fun _ => steady_pure _).inside

theorem refusesSteadily_propertySuffix : propertySuffix.RefusesSteadily :=
  (refusesSteadily_char rfl).bind (steady_literal _).inside (sparesBounds_char rfl) fun _ =>
    (refusesSteadily_takeWhile1 _).bind (steadyInside_takeWhile1 _)
      (sparesBounds_takeWhile1_of rfl rfl rfl) fun _ =>
        (refusesSteadily_char rfl).bind_insists fun _ => insists_pure _

theorem steadyInside_propertyName : propertyName.SteadyInside :=
  (steadyInside_takeWhile1 _).bind fun _ =>
    (steadyInside_propertySuffix.optional refusesSteadily_propertySuffix).bind fun _ =>
      (steady_pure _).inside

theorem refusesSteadily_propertyName : propertyName.RefusesSteadily :=
  (refusesSteadily_takeWhile1 _).bind_insists fun _ =>
    (insists_optional _).bind fun _ => insists_pure _

theorem endsAtBounds_withinValue : Lexis.EndsAtBounds withinValue := by
  intro depth p h
  unfold withinValue at h
  split at h
  · contradiction
  · contradiction
  · exact ⟨';', rfl, rfl⟩
  · exact ⟨'\x7d', rfl, rfl⟩
  · contradiction

theorem append_of_splitValue {t value r : Text} (h : splitValue t = (value, r)) :
    value ++ r = t := by
  have happend := Lexis.cut_append valueLexis withinValue 0 t
  rwa [show valueLexis.cut withinValue 0 t = (value, r) from h] at happend

theorem stop_of_splitValue {t value u : Text} {stop : Char}
    (h : splitValue t = (value, stop :: u)) : stop = ';' ∨ stop = '\x7d' := by
  have hcut : valueLexis.cut withinValue 0 (value ++ stop :: u) = (value, stop :: u) := by
    rw [append_of_splitValue h]
    exact h
  obtain ⟨c, v, depth, hcons, hc, hends, -⟩ :=
    Lexis.exists_state_of_cut_bound rfl endsAtBounds_withinValue (List.cons_ne_nil stop u) hcut
  obtain ⟨rfl, -⟩ := List.cons.inj hcons
  simp only [isBound, Bool.or_eq_true, decide_eq_true_eq] at hc
  rcases hc with (rfl | rfl) | rfl
  · contradiction
  · exact .inr rfl
  · exact .inl rfl

theorem rawValue_eq_matched {t value r : Text} :
    rawValue t = .matched value r ↔ splitValue t = (value, r) := by
  unfold rawValue
  obtain ⟨v, rest⟩ := splitValue t
  simp

theorem steadyInside_rawValue : rawValue.SteadyInside := by
  refine ⟨walks_rawValue, ?_⟩
  intro t value r h hr u
  rw [rawValue_eq_matched] at h ⊢
  have hne : (splitValue t).2 ≠ [] := by
    rw [h]
    exact hr.ne_nil
  have hcut : splitValue (t ++ u) = ((splitValue t).1, (splitValue t).2 ++ u) :=
    Lexis.cut_append_of_ne_nil rfl endsAtBounds_withinValue hne u
  rw [hcut, h]

theorem insists_rawValue : rawValue.Insists := fun t => by simp [rawValue]

theorem steadyInside_declaration : declaration.SteadyInside :=
  steadyInside_propertyName.bind fun _ => steadyInside_layout.bind fun _ =>
    ((steady_literal _).inside.require _).bind fun _ => steadyInside_layout.bind fun _ =>
      steadyInside_rawValue.bind fun _ => (steadyInside_takeWhile _).bind fun _ =>
        (steady_pure _).inside

theorem refusesSteadily_declaration : declaration.RefusesSteadily :=
  refusesSteadily_propertyName.bind_insists fun _ => insists_layout.bind fun _ =>
    (insists_require _ _).bind fun _ => insists_layout.bind fun _ =>
      insists_rawValue.bind fun _ => (insists_takeWhile _).bind fun _ => insists_pure _

theorem steadyInside_declarationItem : declarationItem.SteadyInside :=
  steadyInside_declaration.bind fun _ => steadyInside_filler.bind fun _ =>
    (steady_pure _).inside

theorem refusesSteadily_declarationItem : declarationItem.RefusesSteadily :=
  refusesSteadily_declaration.bind_insists fun _ => insists_filler.bind fun _ =>
    insists_pure _

theorem closes_declarationBlock : declarationBlock.Closes :=
  (steadyInside_openBrace.require _).bind_closes fun _ =>
    steadyInside_filler.bind_closes fun _ =>
      (steadyInside_declarationItem.many refusesSteadily_declarationItem _).bind_closes fun _ =>
        (closes_closeBrace.require _).bind fun _ => steady_pure _

theorem insists_declarationBlock : declarationBlock.Insists :=
  (insists_require _ _).bind fun _ => insists_filler.bind fun _ =>
    (insists_many _).bind fun _ => (insists_require _ _).bind fun _ => insists_pure _

section frames

theorem steadyInside_digits : digits.SteadyInside := steadyInside_takeWhile1 _

theorem refusesSteadily_digits : digits.RefusesSteadily := refusesSteadily_takeWhile1 _

theorem sparesBounds_digits : digits.SparesBounds := sparesBounds_takeWhile1_of rfl rfl rfl

theorem steadyInside_fraction : fraction.SteadyInside :=
  (steady_literal _).inside.bind fun _ => steadyInside_digits.bind fun _ =>
    (steady_pure _).inside

theorem refusesSteadily_fraction : fraction.RefusesSteadily :=
  (refusesSteadily_char rfl).bind (steady_literal _).inside (sparesBounds_char rfl) fun _ =>
    refusesSteadily_digits.bind_insists fun _ => insists_pure _

theorem sparesBounds_fraction : fraction.SparesBounds :=
  (sparesBounds_char rfl).bind fun _ => sparesBounds_digits.bind fun _ => sparesBounds_pure _

theorem steadyInside_decimal : decimal.SteadyInside :=
  steadyInside_digits.bind fun _ => steadyInside_fraction.bind fun _ => (steady_pure _).inside

theorem refusesSteadily_decimal : decimal.RefusesSteadily :=
  refusesSteadily_digits.bind steadyInside_digits sparesBounds_digits fun _ =>
    refusesSteadily_fraction.bind_insists fun _ => insists_pure _

theorem sparesBounds_decimal : decimal.SparesBounds :=
  sparesBounds_digits.bind fun _ => sparesBounds_fraction.bind fun _ => sparesBounds_pure _

theorem steadyInside_percentage : percentage.SteadyInside :=
  (steadyInside_decimal.orElse refusesSteadily_decimal <|
    steadyInside_fraction.orElse refusesSteadily_fraction steadyInside_digits).bind fun _ =>
      ((steady_literal _).inside.optional (refusesSteadily_char rfl)).bind fun _ =>
        (steady_pure _).inside

theorem refusesSteadily_percentage : percentage.RefusesSteadily :=
  (refusesSteadily_decimal.orElse <|
    refusesSteadily_fraction.orElse refusesSteadily_digits).bind_insists fun _ =>
      (insists_optional _).bind fun _ => insists_pure _

theorem sparesBounds_percentage : percentage.SparesBounds :=
  (sparesBounds_decimal.orElse <| sparesBounds_fraction.orElse sparesBounds_digits).bind
    fun _ => (sparesBounds_char rfl).optional.bind fun _ => sparesBounds_pure _

theorem steadyInside_keyframeSelector : keyframeSelector.SteadyInside :=
  steadyInside_percentage.orElse refusesSteadily_percentage (steadyInside_takeWhile1 _)

theorem steadyInside_keyframeSelectorItem : keyframeSelectorItem.SteadyInside :=
  steadyInside_keyframeSelector.bind fun _ => steadyInside_layout.bind fun _ =>
    (((steady_literal _).inside.bind fun _ => steadyInside_layout.bind fun _ =>
      (steady_pure _).inside).optional
        ((refusesSteadily_char rfl).bind_insists fun _ => insists_layout.bind fun _ =>
          insists_pure _)).bind fun _ => (steady_pure _).inside

theorem refusesSteadily_keyframeSelectorItem : keyframeSelectorItem.RefusesSteadily :=
  (refusesSteadily_percentage.orElse (refusesSteadily_takeWhile1 _)).bind_insists fun _ =>
    insists_layout.bind fun _ => (insists_optional _).bind fun _ => insists_pure _

theorem sparesBounds_keyframeSelectorItem : keyframeSelectorItem.SparesBounds :=
  (sparesBounds_percentage.orElse (sparesBounds_takeWhile1_of rfl rfl rfl)).bind fun _ =>
    sparesBounds_layout.bind fun _ =>
      ((sparesBounds_char rfl).bind fun _ => sparesBounds_layout.bind fun _ =>
        sparesBounds_pure _).optional.bind fun _ => sparesBounds_pure _

theorem closes_keyframe : keyframe.Closes := by
  refine steadyInside_layout.bind_closes fun _ =>
    (steadyInside_keyframeSelectorItem.many
      refusesSteadily_keyframeSelectorItem _).bind_closes fun selectors => ?_
  cases selectors.isEmpty with
  | true => exact closes_mismatch
  | false => exact closes_declarationBlock.bind fun _ => steady_pure _

theorem refusesSteadily_keyframe : keyframe.RefusesSteadily := by
  refine insists_layout.refusesSteadily.bind steadyInside_layout sparesBounds_layout fun _ =>
    (insists_many _).refusesSteadily.bind
      (steadyInside_keyframeSelectorItem.many refusesSteadily_keyframeSelectorItem _)
      (sparesBounds_keyframeSelectorItem.many _) fun selectors => ?_
  cases selectors.isEmpty with
  | true => exact refusesSteadily_mismatch
  | false => exact (insists_declarationBlock.bind fun _ => insists_pure _).refusesSteadily

theorem steadyInside_keyframeItem : keyframeItem.SteadyInside :=
  closes_keyframe.inside.bind fun _ => steadyInside_comments.bind fun _ =>
    (steady_pure _).inside

theorem refusesSteadily_keyframeItem : keyframeItem.RefusesSteadily :=
  refusesSteadily_keyframe.bind_insists fun _ => insists_comments.bind fun _ => insists_pure _

end frames

end CssInliner.Grammar
