import CssInliner.Proofs.Printing.Item
import CssInliner.Proofs.Printing.ReadsBack

/-!
Parsing undoes printing. Every rule that is printed of a printable tree reads
back wherever it stands, so the printed part of the tree is read back as a whole.
-/

namespace CssInliner

namespace Grammar

open CssInliner.Parser

section items

variable {u : Text}

theorem readsBack_of_at {i : Item} {t : Text} (htext : i.print ++ (i.brace ++ u) = '@' :: t)
    (h : item ('@' :: t) = .matched i (i.brace ++ u)) : i.ReadsBack u := by
  rw [Item.ReadsBack, htext]
  exact ⟨(plain_cons rfl (by decide) t).comments_eq, h⟩

theorem readsBack_groupHeader {kind : GroupKind} {header : Text} (h : kind.Printable header) :
    (Item.groupHeader kind header).ReadsBack u := by
  cases kind with
  | media =>
      have hitem := item_media (captured_of_printable h) u
      rw [h.trimmed] at hitem
      exact readsBack_of_at rfl hitem
  | supports =>
      have hitem := item_supports (captured_of_printable h) u
      rw [h.trimmed] at hitem
      exact readsBack_of_at rfl hitem
  | host =>
      obtain rfl : header = [] := h
      exact readsBack_of_at rfl (item_host u)
  | document vendor =>
      have htext : (GroupKind.document vendor).render header ++ ('\x7b' :: u) =
          '@' :: (vendor.getD [] ++ "document".toList ++ ' ' :: (header ++ '\x7b' :: u)) := by
        simp only [GroupKind.render_document, List.append_assoc, List.cons_append,
          List.nil_append]
      exact readsBack_of_at htext (item_document h.1 h.2 u)

theorem readsBack_style {selectors : List Text} {ds : List Declaration}
    (h : (Rule.style selectors ds).PrintableHead) (hds : ds.isEmpty = false) :
    (Item.rule (.style selectors ds)).ReadsBack u := by
  obtain ⟨hselectors, hled, hblock⟩ := h
  have htext : (Rule.style selectors ds).render [] ++ u =
      Text.join [','] selectors ++ (renderBlock ds ++ u) := by
    simp [Rule.render_style, hds]
  show comments ((Rule.style selectors ds).render [] ++ u) =
      .matched [] ((Rule.style selectors ds).render [] ++ u) ∧
    item ((Rule.style selectors ds).render [] ++ u) = .matched (.rule (.style selectors ds)) u
  rw [htext]
  exact ⟨(plain_selectors hselectors _).comments_eq, item_style hselectors hled hblock u⟩

theorem readsBack_page {selectors : List Text} {ds : List Declaration}
    (h : (Rule.page selectors ds).PrintableHead) (hds : ds.isEmpty = false) :
    (Item.rule (.page selectors ds)).ReadsBack u := by
  have htext : (Rule.page selectors ds).render [] ++ u =
      '@' :: ("page".toList ++ (renderPageSelectors selectors ++ (renderBlock ds ++ u))) := by
    simp only [Rule.render_page, hds, Bool.false_eq_true, if_false, List.append_assoc,
      List.cons_append, List.nil_append]
  exact readsBack_of_at htext (item_page h.1 h.2 u)

theorem readsBack_keyframes {vendor : Option Text} {name : Text} {frames : List Keyframe}
    (h : (Rule.keyframes vendor name frames).PrintableHead) :
    (Item.rule (.keyframes vendor name frames)).ReadsBack u := by
  obtain ⟨hvendor, hname, hframes⟩ := h
  have htext : (Rule.keyframes vendor name frames).render [] ++ u =
      '@' :: (vendor.getD [] ++ "keyframes".toList ++
        ' ' :: (name ++ '\x7b' :: (frames.flatMap Keyframe.render ++ '\x7d' :: u))) := by
    simp only [Rule.render_keyframes, List.append_assoc, List.cons_append, List.nil_append]
  exact readsBack_of_at htext (item_keyframes hvendor hname hframes u)

theorem readsBack_customMedia {name media : Text}
    (h : (Rule.customMedia name media).PrintableHead) :
    (Item.rule (.customMedia name media)).ReadsBack u := by
  have htext : (Rule.customMedia name media).render [] ++ u =
      '@' :: ("custom-media".toList ++ ' ' :: (name ++ ' ' :: (media ++ ';' :: u))) := by
    simp only [Rule.render_customMedia, List.append_assoc, List.cons_append, List.nil_append]
  exact readsBack_of_at htext (item_customMedia h.1 h.2 u)

theorem readsBack_statement {kind : StatementKind} {value : Text}
    (h : (Rule.statement kind value).PrintableHead) :
    (Item.rule (.statement kind value)).ReadsBack u := by
  have htext : (Rule.statement kind value).render [] ++ u =
      '@' :: (kind.keyword ++ ' ' :: (value ++ ';' :: u)) := by
    simp only [Rule.render_statement, List.append_assoc, List.cons_append, List.nil_append]
  have hitem := item_statement kind (captured_of_printable h) u
  rw [h.trimmed] at hitem
  exact readsBack_of_at htext hitem

theorem readsBack_fontFace {ds : List Declaration} (h : (Rule.fontFace ds).PrintableHead) :
    (Item.rule (.fontFace ds)).ReadsBack u := by
  have htext : (Rule.fontFace ds).render [] ++ u =
      '@' :: ("font-face".toList ++ (renderBlock ds ++ u)) := by
    simp only [Rule.render_fontFace, List.append_assoc, List.cons_append]
  exact readsBack_of_at htext (item_fontFace h u)

end items

end Grammar

section written

mutual

/-- Nothing is lost in print when only the printed part of a tree is kept. -/
theorem Rule.renderRules_written (delimiter : Text) (rule : Rule) :
    renderRules delimiter rule.written = rule.render delimiter := by
  match rule with
  | .style selectors ds =>
      cases hds : ds.isEmpty <;>
        simp [Rule.written, hds, renderRules, Rule.render_style]
  | .page selectors ds =>
      cases hds : ds.isEmpty <;>
        simp [Rule.written, hds, renderRules, Rule.render_page]
  | .group kind header rules =>
      rw [Rule.written, renderRules, Rule.render_group, Rule.render_group,
        renderRules_writtenRules delimiter rules, renderRules, List.append_nil]
  | .fontFace ds => exact List.append_nil _
  | .keyframes vendor name frames => exact List.append_nil _
  | .customMedia name media => exact List.append_nil _
  | .statement kind value => exact List.append_nil _
  | .comment text => rfl

theorem renderRules_writtenRules (delimiter : Text) (rules : List Rule) :
    renderRules delimiter (writtenRules rules) = renderRules delimiter rules := by
  match rules with
  | [] => rfl
  | rule :: rules =>
      rw [writtenRules, renderRules_append, Rule.renderRules_written delimiter rule,
        renderRules_writtenRules delimiter rules, renderRules]

end

theorem rulesReadBack_singleton {delimiter u : Text} {rule : Rule} :
    RulesReadBack delimiter u [rule] ↔ rule.ReadsBack delimiter u := by
  simp [RulesReadBack, renderRules]

mutual

/-- What is printed of a rule that can be read back is read back wherever it stands. -/
theorem Rule.readsBack_written (delimiter : Text) (rule : Rule)
    (h : rule.Throughout Rule.PrintableHead) (u : Text) :
    RulesReadBack delimiter u rule.written := by
  match rule with
  | .style selectors ds =>
      cases hds : ds.isEmpty with
      | true => simp [Rule.written, hds, RulesReadBack]
      | false =>
          simp only [Rule.written, hds, Bool.false_eq_true, if_false]
          exact rulesReadBack_singleton.2 (Grammar.readsBack_style h hds)
  | .page selectors ds =>
      cases hds : ds.isEmpty with
      | true => simp [Rule.written, hds, RulesReadBack]
      | false =>
          simp only [Rule.written, hds, Bool.false_eq_true, if_false]
          exact rulesReadBack_singleton.2 (Grammar.readsBack_page h hds)
  | .fontFace ds => exact rulesReadBack_singleton.2 (Grammar.readsBack_fontFace h)
  | .keyframes vendor name frames =>
      exact rulesReadBack_singleton.2 (Grammar.readsBack_keyframes h)
  | .customMedia name media => exact rulesReadBack_singleton.2 (Grammar.readsBack_customMedia h)
  | .statement kind value => exact rulesReadBack_singleton.2 (Grammar.readsBack_statement h)
  | .comment text => trivial
  | .group kind header rules =>
      exact rulesReadBack_singleton.2 ⟨Grammar.readsBack_groupHeader h.1,
        rulesReadBack_writtenRules delimiter rules h.2 _⟩

theorem rulesReadBack_writtenRules (delimiter : Text) (rules : List Rule)
    (h : RulesThroughout Rule.PrintableHead rules) (u : Text) :
    RulesReadBack delimiter u (writtenRules rules) := by
  match rules with
  | [] => trivial
  | rule :: rules =>
      exact rulesReadBack_append.2 ⟨Rule.readsBack_written delimiter rule h.1 _,
        rulesReadBack_writtenRules delimiter rules h.2 u⟩

end

end written

namespace Stylesheet

open CssInliner.Grammar

theorem Printable.readsBack_written {sheet : Stylesheet} (h : sheet.Printable) (delimiter : Text) :
    sheet.written.ReadsBack delimiter := rulesReadBack_writtenRules delimiter sheet h []

theorem render_written (delimiter : Text) (sheet : Stylesheet) :
    sheet.written.render delimiter = sheet.render delimiter :=
  renderRules_writtenRules delimiter sheet

/-- A printable stylesheet is read back from its text, with or without layout
behind its rules, as the part of it that is printed. -/
theorem parse_render (delimiter : Text) (hdelimiter : ∀ c ∈ delimiter, Text.isLayout c = true)
    {sheet : Stylesheet} (h : sheet.Printable) :
    parse (sheet.render delimiter) = .ok sheet.written := by
  rw [← render_written]
  exact parse_render_of_readsBack hdelimiter (h.readsBack_written delimiter)

/-- A tree with a comment and an empty rule in it, which are not printed. -/
theorem parse_render_sample :
    parse "@media print\x7ba,b\x7bc:d(;)\x7d\n\x7d@-x-keyframes k\x7bto\x7b\x7d\x7d@import e;".toList
      = .ok [.group .media "print".toList
          [.style ["a".toList, "b".toList] [⟨"c".toList, "d(;)".toList⟩]],
        .keyframes (some "-x-".toList) "k".toList [⟨["to".toList], []⟩],
        .statement .importSheet "e".toList] := by
  have hselectors : SelectorsPrintable [','] ["a".toList, "b".toList] :=
    ⟨by decide, by decide +kernel⟩
  have hempty : SelectorsPrintable [','] ["f".toList] := ⟨by decide, by decide +kernel⟩
  have hblock : BlockPrintable [⟨"c".toList, "d(;)".toList⟩] := by
    intro d hd
    obtain rfl := List.mem_singleton.1 hd
    exact ⟨by decide +kernel, by decide +kernel, by decide +kernel, by decide +kernel,
      by decide +kernel⟩
  have hframe : Keyframe.Printable ⟨["to".toList], []⟩ :=
    ⟨by decide, by simp; decide, by simp [BlockPrintable]⟩
  have hsheet : Printable
      [.group .media "print".toList
          [.style ["a".toList, "b".toList] [⟨"c".toList, "d(;)".toList⟩], .comment "g".toList],
        .style ["f".toList] [],
        .keyframes (some "-x-".toList) "k".toList [⟨["to".toList], []⟩],
        .statement .importSheet "e".toList] := by
    refine ⟨⟨?_, ⟨hselectors, rfl, hblock⟩, trivial, trivial⟩,
      ⟨hempty, rfl, by simp [BlockPrintable]⟩, ⟨?_, ⟨by decide, List.all_eq_true.1 rfl⟩, ?_⟩, ?_,
        trivial⟩
    · exact ⟨by decide, by decide +kernel, List.forall_mem_singleton.2 (by decide)⟩
    · rintro v ⟨⟩
      exact ⟨rfl, List.all_eq_true.1 rfl⟩
    · exact List.forall_mem_singleton.2 hframe
    · exact ⟨by decide, by decide +kernel, List.forall_mem_singleton.2 (by decide)⟩
  exact parse_render "\n".toList (List.all_eq_true.1 rfl) hsheet

end Stylesheet

end CssInliner
