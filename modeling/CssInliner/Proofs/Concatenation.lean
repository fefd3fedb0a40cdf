import CssInliner.Proofs.Reading
import CssInliner.Stylesheet.Equality

/-!
Stylesheets one after another. A stylesheet that was read to its end is read the
same way in front of more text, and what follows it is read as if it stood alone.
The one construct that can reach beyond the end is an at rule that is none and
was taken for a style rule.
-/

namespace CssInliner

namespace Grammar

open CssInliner.Parser

theorem throughout_of_readOn {P : Rule → Prop} {groups : List OpenGroup}
    {rules result : List Rule} {t r : Text}
    (h : readOn true groups rules t = .matched result r) (hresult : RulesThroughout P result) :
    RulesThroughout P rules ∧ ∀ g ∈ groups, RulesThroughout P g.before := by
  rw [rulesThroughout_iff] at hresult
  simp only [rulesThroughout_iff]
  induction h using readOn_induction with
  | finish rules t found h hfound hend hr =>
      refine ⟨fun rule hrule => hresult rule ?_, by simp⟩
      rw [hend]
      simp [hrule]
  | close g outer rules t found m h hnext hfound ih =>
      obtain ⟨hrules, houter⟩ := ih
      have hgroup : RulesThroughout P (found.reverse ++ rules).reverse :=
        (hrules _ List.mem_cons_self).2
      rw [rulesThroughout_iff] at hgroup
      refine ⟨fun rule hrule => hgroup rule (by simp [hrule]), ?_⟩
      intro g' hg'
      rcases List.mem_cons.1 hg' with rfl | hg'
      · exact fun rule hrule => hrules rule (List.mem_cons_of_mem _ hrule)
      · exact houter g' hg'
  | rule groups rules t found m rule n h hnext hfound hallowed hitem ih =>
      exact ⟨fun rule hrule => ih.1 rule (by simp [hrule]), ih.2⟩
  | header groups rules t found m kind header n h hnext hfound hallowed hitem ih =>
      refine ⟨fun rule hrule => ?_, fun g hg => ih.2 g (List.mem_cons_of_mem _ hg)⟩
      exact ih.2 _ List.mem_cons_self rule (List.mem_append_right _ hrule)

theorem ItemsAllowed.append {groups : List OpenGroup} {t : Text}
    (h : ItemsAllowed true groups t) (ht : t.Bounded) (u : Text) :
    ItemsAllowed true groups (t ++ u) := by
  intro hhead
  rw [head?_append_of_ne_nil ht.ne_nil] at hhead
  exact h hhead

/-- A bare list that was read to the end of the text goes on with the text that
follows, outside all groups. -/
theorem readOn_append {groups : List OpenGroup} {rules result : List Rule} {t : Text}
    (h : readOn true groups rules t = .matched result [])
    (hresult : RulesThroughout Rule.KeepsOffAt result) (u : Text) :
    readOn true groups rules (t ++ u) = readOn true [] result.reverse u := by
  -- the comments end where the next item or brace begins, which has a bound in it
  have hcomments : ∀ {groups rules t found m}, comments t = .matched found m → m.Bounded →
      readOn true groups rules (t ++ u) =
        readRules true groups (found.reverse ++ rules) (m ++ u) := by
    intro groups rules t found m hfound hbounded
    rw [readOn_apply, steadyInside_comments.append hfound hbounded u]
  induction h using readOn_induction with
  | finish rules t found h hfound hend hr =>
      rw [readOn_apply, readOn_apply, comments_append_of_nil hfound u, hend, List.reverse_reverse]
      cases comments u with
      | matched more r => simp [Outcome.map]
      | mismatch => rfl
      | failure d r => rfl
  | close g outer rules t found m h hnext hfound ih =>
      rw [hcomments hfound (.cons_bound rfl m), List.cons_append, readRules_close, ih]
  | rule groups rules t found m rule n h hnext hfound hallowed hitem ih =>
      have hkeeps : rule.KeepsOffAt := (throughout_of_readOn hnext hresult).1.1.self
      obtain ⟨hbounded, happ⟩ := settled_of_item hitem (by simp) (by simpa using hkeeps)
      rw [hcomments hfound hbounded, readRules_of_rule (happ u) (hallowed.append hbounded u), ih]
  | header groups rules t found m kind header n h hnext hfound hallowed hitem ih =>
      obtain ⟨hbounded, happ⟩ :=
        settled_of_item hitem (fun _ _ _ => .cons_bound rfl n) (by simp)
      rw [hcomments hfound hbounded]
      exact (readRules_of_header (happ u) (hallowed.append hbounded u)).trans ih

section onto

variable (base : List Rule)

/-- The rules read in the innermost list when `base` was read before all else. -/
def rulesOnto (groups : List OpenGroup) (rules : List Rule) : List Rule :=
  if groups.isEmpty then rules ++ base else rules

/-- The open groups when `base` was read before all else. -/
def groupsOnto : List OpenGroup → List OpenGroup
  | [] => []
  | g :: groups => ⟨g.kind, g.header, rulesOnto base groups g.before⟩ :: groupsOnto groups

theorem rulesOnto_append (groups : List OpenGroup) (more rules : List Rule) :
    more ++ rulesOnto base groups rules = rulesOnto base groups (more ++ rules) := by
  cases groups <;> simp [rulesOnto]

theorem rulesOnto_cons (groups : List OpenGroup) (rule : Rule) (rules : List Rule) :
    rule :: rulesOnto base groups rules = rulesOnto base groups (rule :: rules) :=
  rulesOnto_append base groups [rule] rules

theorem ItemsAllowed.onto {groups : List OpenGroup} {t : Text}
    (h : ItemsAllowed true groups t) : ItemsAllowed true (groupsOnto base groups) t := by
  intro hhead
  obtain ⟨-, rfl⟩ := h hhead
  exact ⟨rfl, rfl⟩

/-- What was read before all else stands in front of the result and changes
nothing otherwise. -/
theorem readRules_onto (groups : List OpenGroup) (rules : List Rule) (t : Text) :
    readRules true (groupsOnto base groups) (rulesOnto base groups rules) t =
      (readRules true groups rules t).map (base.reverse ++ ·) := by
  -- by recursion on the text: every turn does the same in both runs, and `base` stays below
  by_cases hclose : ∃ g outer m, t = '\x7d' :: m ∧ groups = g :: outer
  · obtain ⟨g, outer, m, rfl, rfl⟩ := hclose
    rw [groupsOnto, readRules_close, readRules_close, readOn_apply, readOn_apply]
    cases hfound : comments m with
    | mismatch => rfl
    | failure d r => rfl
    | matched found r =>
        have hr : r.length < ('\x7d' :: m).length :=
          Nat.lt_succ_of_le (suffix_of_matched walks_comments hfound).length_le
        dsimp only
        rw [rulesOnto_cons, rulesOnto_append]
        exact readRules_onto outer _ r
  have hallowed : ItemsAllowed true groups t := itemsAllowed_of_not_close hclose
  by_cases hnil : t = []
  · subst hnil
    rw [readRules_eq, readRules_eq]
    cases groups with
    | nil => simp [groupsOnto, rulesOnto, Outcome.map]
    | cons g outer => rfl
  rw [readRules_of_allowed hnil (hallowed.onto base), readRules_of_allowed hnil hallowed]
  cases hitem : itemWithComments t with
  | mismatch => rfl
  | failure d r => rfl
  | matched both r =>
      have hr : r.length < t.length := by
        have := advances_itemWithComments t
        rw [hitem] at this
        exact this.2
      obtain ⟨i, found⟩ := both
      cases i with
      | rule rule =>
          dsimp only
          rw [rulesOnto_cons, rulesOnto_append]
          exact readRules_onto groups _ r
      | groupHeader kind header =>
          exact readRules_onto (⟨kind, header, rules⟩ :: groups) _ r
termination_by t.length

end onto

theorem readOn_onto (base : List Rule) (t : Text) :
    readOn true [] base t = (ruleList true t).map (base.reverse ++ ·) := by
  rw [ruleList_bare, readOn_apply, readOn_apply]
  cases comments t with
  | mismatch => rfl
  | failure d r => rfl
  | matched found r =>
      have := readRules_onto base [] found.reverse r
      simpa [rulesOnto, groupsOnto] using this

theorem insists_styleRule : styleRule.Insists := by
  intro t h
  rcases bind_eq_mismatch.1 h with hsel | ⟨selectors, m, -, hblock⟩
  · exact insists_selectorList t hsel
  · cases selectors with
    | nil => contradiction
    | cons s ss => exact (insists_declarationBlock.bind fun _ => insists_pure _) m hblock

theorem insists_item : item.Insists := by
  intro t h
  exact insists_styleRule t (whole_eq_mismatch.1 (orElse_eq_mismatch.1 h).2)

theorem insists_itemWithComments : itemWithComments.Insists := by
  refine insists_item.bind fun i => ?_
  cases i with
  | rule rule => exact insists_comments.bind fun _ => insists_pure _
  | groupHeader kind header =>
      exact ((insists_require _ _).bind fun _ => insists_comments).bind fun _ => insists_pure _

/-- A list of rules is read, or there is a defect in it. -/
theorem insists_readRules (bare : Bool) (groups : List OpenGroup) (rules : List Rule) :
    Insists (readRules bare groups rules) := by
  intro t
  fun_induction readRules bare groups rules t with
  | case4 _ _ _ _ _ _ _ _ _ _ ih => exact ih
  | case5 rules c t g groups h hbrace =>
      obtain ⟨rfl, -⟩ : c = '\x7d' ∧ (bare && (g :: groups).isEmpty) = false := by
        simpa using hbrace
      exact absurd h (insists_comments t)
  | case7 _ _ _ _ _ _ _ _ _ _ _ ih => exact ih
  | case8 _ _ _ _ _ _ _ _ _ _ _ _ ih => exact ih
  | case9 _ _ c t h _ => exact absurd h (insists_itemWithComments (c :: t))
  | _ => simp

theorem insists_ruleList_bare : (ruleList true).Insists :=
  insists_comments.bind fun found => insists_readRules true [] found.reverse

theorem eq_nil_of_readOn {groups : List OpenGroup} {rules result : List Rule} {t r : Text}
    (h : readOn true groups rules t = .matched result r) : r = [] := by
  induction h using readOn_induction with
  | finish rules t found h hfound hend hr => exact hr
  | close g outer rules t found m h hnext hfound ih => exact ih
  | rule groups rules t found m rule n h hnext hfound hallowed hitem ih => exact ih
  | header groups rules t found m kind header n h hnext hfound hallowed hitem ih => exact ih

end Grammar

namespace Stylesheet

open CssInliner.Grammar

theorem ruleList_of_parse_eq_ok {source : Text} {sheet : Stylesheet}
    (h : parse source = .ok sheet) : ruleList true source = .matched sheet [] := by
  unfold parse at h
  cases hlist : ruleList true source with
  | mismatch =>
      rw [hlist] at h
      contradiction
  | failure d r =>
      rw [hlist] at h
      contradiction
  | matched rules r =>
      rw [hlist] at h
      obtain rfl : rules = sheet := Except.ok.inj h
      rw [ruleList_bare] at hlist
      rw [eq_nil_of_readOn hlist]

theorem parse_of_matched {source r : Text} {sheet : Stylesheet}
    (h : ruleList true source = .matched sheet r) : parse source = .ok sheet := by
  rw [parse, h]

theorem parse_of_failure {read unread : Text} {d : Defect}
    (h : ruleList true (read ++ unread) = .failure d unread) :
    parse (read ++ unread) = .error (.atOffset d (read ++ unread) read.byteLength) := by
  rw [parse, h]
  simp

theorem ruleList_of_parse_eq_error {source : Text} {e : SyntaxError}
    (h : parse source = .error e) :
    ∃ read unread, source = read ++ unread ∧
      ruleList true source = .failure e.defect unread ∧
        e = .atOffset e.defect source read.byteLength := by
  cases hlist : ruleList true source with
  | mismatch => exact absurd hlist (insists_ruleList_bare source)
  | matched rules r =>
      rw [parse_of_matched hlist] at h
      contradiction
  | failure d unread =>
      have hsuffix := walks_ruleList true source
      rw [hlist] at hsuffix
      obtain ⟨read, rfl⟩ := hsuffix
      rw [parse_of_failure hlist] at h
      obtain rfl := Except.error.inj h
      exact ⟨read, unread, rfl, rfl, rfl⟩

/-- Sources one after another give their rules one after another, and the first
defect of a later one is reported at its place in the whole. -/
theorem parse_append {a b : Text} {sheet : Stylesheet} (ha : parse a = .ok sheet)
    (hsheet : RulesThroughout Rule.KeepsOffAt sheet) :
    (∀ more, parse b = .ok more → parse (a ++ b) = .ok (sheet ++ more)) ∧
      ∀ e, parse b = .error e → ∃ read unread, b = read ++ unread ∧
        ruleList true b = .failure e.defect unread ∧
          e = .atOffset e.defect b read.byteLength ∧
            parse (a ++ b) =
              .error (.atOffset e.defect (a ++ b) (a.byteLength + read.byteLength)) := by
  have hlist : ruleList true (a ++ b) = (ruleList true b).map (sheet ++ ·) := by
    have hread := ruleList_of_parse_eq_ok ha
    rw [ruleList_bare] at hread
    rw [ruleList_bare, readOn_append hread hsheet b, readOn_onto, List.reverse_reverse,
      ruleList_bare]
  constructor
  · intro more hb
    rw [ruleList_of_parse_eq_ok hb] at hlist
    exact parse_of_matched hlist
  · intro e hb
    obtain ⟨read, unread, rfl, hfail, he⟩ := ruleList_of_parse_eq_error hb
    refine ⟨read, unread, rfl, hfail, he, ?_⟩
    rw [hfail, ← List.append_assoc] at hlist
    have := parse_of_failure hlist
    rwa [List.append_assoc, Text.byteLength_append] at this

/-- A source behind another, once without and once with a defect in it. -/
theorem parse_append_sample :
    parse "a\x7bb:c\x7d/**/d\x7b\x7d".toList =
        .ok [.style ["a".toList] [⟨"b".toList, "c".toList⟩], .comment [], .style ["d".toList] []] ∧
      parse "a\x7bb:c\x7d\n\x7d".toList =
        .error ⟨.extraClosingBrace, ⟨2, 1⟩⟩ := by
  have ha : parse "a\x7bb:c\x7d".toList =
      .ok [.style ["a".toList] [⟨"b".toList, "c".toList⟩]] := by
    decide +kernel
  have hsheet : RulesThroughout Rule.KeepsOffAt
      [.style ["a".toList] [⟨"b".toList, "c".toList⟩]] := ⟨rfl, trivial⟩
  constructor
  · have hb : parse "/**/d\x7b\x7d".toList = .ok [.comment [], .style ["d".toList] []] := by
      decide +kernel
    exact (parse_append ha hsheet).1 _ hb
  · have hb : parse "\n\x7d".toList = .error ⟨.extraClosingBrace, ⟨2, 1⟩⟩ := by decide +kernel
    obtain ⟨read, unread, hread, hfail, -, hwhole⟩ := (parse_append ha hsheet).2 _ hb
    have hoffset : ruleList true "\n\x7d".toList = .failure .extraClosingBrace "\x7d".toList := by
      decide +kernel
    rw [hoffset] at hfail
    obtain ⟨-, rfl⟩ := Outcome.failure.inj hfail
    obtain rfl : read = "\n".toList := List.append_cancel_right hread.symm
    exact hwhole.trans (by decide +kernel)

end Stylesheet

end CssInliner
