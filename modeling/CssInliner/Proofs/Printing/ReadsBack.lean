import CssInliner.Proofs.Concatenation
import CssInliner.Proofs.Printing.Block

/-!
Trees whose rules are read back one by one. A rule reads back in front of a text
if, printed there, it is what the grammar finds, with that text behind it. This
is about a rule where it stands, since what follows can change what is read. A
tree of which every rule reads back in its place is read back as a whole.
-/

namespace CssInliner

namespace Grammar

/-- The text of an item, up to the brace of the block if it is a header. -/
def Item.print : Item → Text
  | .rule r => r.render []
  | .groupHeader kind header => kind.render header

def Item.brace : Item → Text
  | .rule _ => []
  | .groupHeader _ _ => ['\x7b']

/-- Printed in front of `u`, the item is what is read, with no comment before it. -/
def Item.ReadsBack (u : Text) (i : Item) : Prop :=
  comments (i.print ++ (i.brace ++ u)) = .matched [] (i.print ++ (i.brace ++ u)) ∧
    item (i.print ++ (i.brace ++ u)) = .matched i (i.brace ++ u)

end Grammar

open CssInliner.Grammar

mutual

/-- The rule reads back in front of `u`, and in its place so does every rule inside it. -/
def Rule.ReadsBack (delimiter u : Text) : Rule → Prop
  | .group kind header rules =>
      (Item.groupHeader kind header).ReadsBack (renderRules delimiter rules ++ '\x7d' :: u) ∧
        RulesReadBack delimiter ('\x7d' :: u) rules
  | .style selectors ds => (Item.rule (.style selectors ds)).ReadsBack (delimiter ++ u)
  | .page selectors ds => (Item.rule (.page selectors ds)).ReadsBack (delimiter ++ u)
  | rule => (Item.rule rule).ReadsBack u

def RulesReadBack (delimiter u : Text) : List Rule → Prop
  | [] => True
  | rule :: rules =>
      rule.ReadsBack delimiter (renderRules delimiter rules ++ u) ∧
        RulesReadBack delimiter u rules

end

theorem rulesReadBack_append {delimiter u : Text} {rules more : List Rule} :
    RulesReadBack delimiter u (rules ++ more) ↔
      RulesReadBack delimiter (renderRules delimiter more ++ u) rules ∧
        RulesReadBack delimiter u more := by
  induction rules with
  | nil => simp [RulesReadBack]
  | cons rule rules ih =>
      simp only [List.cons_append, RulesReadBack, ih, renderRules_append, List.append_assoc,
        and_assoc]

def Stylesheet.ReadsBack (delimiter : Text) (sheet : Stylesheet) : Prop :=
  RulesReadBack delimiter [] sheet

namespace Grammar

open CssInliner.Parser

section turns

variable {bare : Bool} {groups : List OpenGroup} {rules : List Rule} {t m u : Text}

theorem head_ne_closeBrace_of_item {i : Item} (h : item t = .matched i m) :
    t.head? ≠ some '\x7d' := by
  intro hhead
  obtain ⟨t, rfl⟩ := List.head?_eq_some_iff.1 hhead
  have hlayout : layout ('\x7d' :: t) = .matched [] ('\x7d' :: t) := rfl
  rcases orElse_eq_matched.1 h with hat | ⟨-, hwhole⟩
  · obtain ⟨blank, n, hblank, hknown⟩ := bind_eq_matched.1 hat
    rw [hlayout] at hblank
    obtain ⟨-, rfl⟩ := Outcome.matched.inj hblank
    rw [knownAtItem_eq_mismatch (by simp)] at hknown
    contradiction
  · obtain ⟨rule, -, hstyle⟩ := whole_eq_matched.1 hwhole
    obtain ⟨selectors, n, ds, hselectors, -⟩ := styleRule_eq_matched.1 hstyle
    obtain ⟨blank, n, hblank, hhead, -⟩ := selectorList_eq_matched.1 hselectors
    rw [hlayout] at hblank
    obtain ⟨-, rfl⟩ := Outcome.matched.inj hblank
    exact hhead rfl

theorem readOn_of_comments_nil (h : comments t = .matched [] t) :
    readOn bare groups rules t = readRules bare groups rules t := by
  rw [readOn_apply, h]
  rfl

/-- An at sign begins neither a comment nor the end of a group. -/
theorem readOn_at (t : Text) :
    readOn bare groups rules ('@' :: t) = readRules bare groups rules ('@' :: t) :=
  readOn_of_comments_nil (plain_cons rfl (by decide) t).comments_eq

theorem readOn_of_rule {rule : Rule} (h : (Item.rule rule).ReadsBack u) :
    readOn bare groups rules (rule.render [] ++ u) = readOn bare groups (rule :: rules) u := by
  have hcomments : comments (rule.render [] ++ u) = .matched [] (rule.render [] ++ u) := h.1
  have hitem : item (rule.render [] ++ u) = .matched (.rule rule) u := h.2
  rw [readOn_of_comments_nil hcomments]
  exact readRules_of_rule hitem fun hhead => absurd hhead (head_ne_closeBrace_of_item hitem)

theorem readOn_of_header {kind : GroupKind} {header : Text}
    (h : (Item.groupHeader kind header).ReadsBack u) :
    readOn bare groups rules (kind.render header ++ '\x7b' :: u) =
      readOn bare (⟨kind, header, rules⟩ :: groups) [] u := by
  have hcomments : comments (kind.render header ++ '\x7b' :: u) =
      .matched [] (kind.render header ++ '\x7b' :: u) := h.1
  have hitem : item (kind.render header ++ '\x7b' :: u) =
      .matched (.groupHeader kind header) ('\x7b' :: u) := h.2
  rw [readOn_of_comments_nil hcomments]
  exact readRules_of_header hitem fun hhead => absurd hhead (head_ne_closeBrace_of_item hitem)

theorem readOn_close (g : OpenGroup) (u : Text) :
    readOn bare (g :: groups) rules ('\x7d' :: u) =
      readOn bare groups (g.close rules :: g.before) u := by
  rw [readOn_of_comments_nil (crisp_closeBrace u).comments_eq, readRules_close]

theorem readOn_layout {blank : Text} (hblank : ∀ c ∈ blank, Text.isLayout c = true) (u : Text) :
    readOn bare groups rules (blank ++ u) = readOn bare groups rules u := by
  rw [readOn_apply, readOn_apply, comments_append hblank]

theorem Item.ReadsBack.print_ne_nil {rule : Rule} (h : (Item.rule rule).ReadsBack u) :
    rule.render [] ≠ [] := by
  intro hnil
  have hadvance := advances_item ((Item.rule rule).print ++ ((Item.rule rule).brace ++ u))
  rw [h.2] at hadvance
  have hlt := hadvance.2
  simp only [Item.print, Item.brace, hnil, List.nil_append] at hlt
  exact absurd hlt (Nat.lt_irrefl _)

end turns

section run

variable {delimiter : Text}

/-- The delimiter stands behind the style and page rules that are printed. -/
theorem render_style_append {selectors : List Text} {ds : List Declaration}
    (h : (Rule.style selectors ds).render [] ≠ []) (delimiter u : Text) :
    (Rule.style selectors ds).render delimiter ++ u =
      (Rule.style selectors ds).render [] ++ (delimiter ++ u) := by
  rw [Rule.render_style] at h ⊢
  rw [Rule.render_style]
  split at h
  · exact absurd rfl h
  · next hds => simp [hds]

theorem render_page_append {selectors : List Text} {ds : List Declaration}
    (h : (Rule.page selectors ds).render [] ≠ []) (delimiter u : Text) :
    (Rule.page selectors ds).render delimiter ++ u =
      (Rule.page selectors ds).render [] ++ (delimiter ++ u) := by
  rw [Rule.render_page] at h ⊢
  rw [Rule.render_page]
  split at h
  · exact absurd rfl h
  · next hds => simp only [hds, Bool.false_eq_true, if_false, List.append_assoc, List.nil_append]

mutual

/-- A printed rule that reads back goes to the rules read before it. -/
theorem readOn_render (hdelimiter : ∀ c ∈ delimiter, Text.isLayout c = true) (bare : Bool)
    (groups : List OpenGroup) (before : List Rule) (rule : Rule) (u : Text)
    (h : rule.ReadsBack delimiter u) :
    readOn bare groups before (rule.render delimiter ++ u) =
      readOn bare groups (rule :: before) u := by
  match rule with
  | .style selectors ds =>
      have hrule : (Item.rule (.style selectors ds)).ReadsBack (delimiter ++ u) := h
      rw [render_style_append hrule.print_ne_nil, readOn_of_rule hrule, readOn_layout hdelimiter]
  | .page selectors ds =>
      have hrule : (Item.rule (.page selectors ds)).ReadsBack (delimiter ++ u) := h
      rw [render_page_append hrule.print_ne_nil, readOn_of_rule hrule, readOn_layout hdelimiter]
  | .fontFace ds => exact readOn_of_rule h
  | .keyframes vendor name frames => exact readOn_of_rule h
  | .customMedia name media => exact readOn_of_rule h
  | .statement kind value => exact readOn_of_rule h
  | .comment text => exact readOn_of_rule h
  | .group kind header rules =>
      have htext : (Rule.group kind header rules).render delimiter ++ u =
          kind.render header ++ '\x7b' :: (renderRules delimiter rules ++ '\x7d' :: u) := by
        simp only [Rule.render_group, List.append_assoc, List.cons_append, List.nil_append]
      rw [htext, readOn_of_header h.1,
        readOn_renderRules hdelimiter bare _ [] rules ('\x7d' :: u) h.2, readOn_close,
        OpenGroup.close, List.append_nil, List.reverse_reverse]

theorem readOn_renderRules (hdelimiter : ∀ c ∈ delimiter, Text.isLayout c = true) (bare : Bool)
    (groups : List OpenGroup) (before : List Rule) (rules : List Rule) (u : Text)
    (h : RulesReadBack delimiter u rules) :
    readOn bare groups before (renderRules delimiter rules ++ u) =
      readOn bare groups (rules.reverse ++ before) u := by
  match rules with
  | [] => rfl
  | rule :: rules =>
      rw [renderRules, List.append_assoc,
        readOn_render hdelimiter bare groups before rule _ h.1,
        readOn_renderRules hdelimiter bare groups _ rules u h.2, List.reverse_cons,
        List.append_assoc]
      rfl

end

end run

end Grammar

namespace Stylesheet

/-- A stylesheet of which every rule reads back in its place is read back. -/
theorem parse_render_of_readsBack {delimiter : Text}
    (hdelimiter : ∀ c ∈ delimiter, Text.isLayout c = true) {sheet : Stylesheet}
    (h : sheet.ReadsBack delimiter) : parse (sheet.render delimiter) = .ok sheet := by
  have hread := readOn_renderRules hdelimiter true [] [] sheet [] h
  have hcomments : comments [] = .matched [] [] := by
    rw [comments_eq, Parser.many_eq]
    rfl
  have hend : readOn true [] sheet.reverse [] = .matched sheet [] := by
    rw [readOn_of_comments_nil hcomments, readRules_eq]
    simp
  rw [List.append_nil, List.append_nil, hend, ← ruleList_bare] at hread
  exact parse_of_matched hread

end Stylesheet

end CssInliner
