import CssInliner.Proofs.Printing.Extent
import CssInliner.Proofs.Printing.Stylesheet
import CssInliner.Proofs.Printing.Weight

/-!
When printed text prints as itself. If a text is read as a tree that prints as
this very text, then the print of what has been read so far is, turn by turn, the
text that has been taken: what is still to be printed weighs no more than what is
left to be read, so neither can get ahead of the other. Hence nothing was skipped
and every rule reads back where it stands.
-/

namespace CssInliner

namespace Text

/-- Behind characters of weight, two ends of one text that weigh the same are the same. -/
theorem eq_of_weight_eq {t x y : Text} {c d : Char} (hx : c :: x <:+ t) (hy : d :: y <:+ t)
    (hc : weighs c = true) (hd : weighs d = true) (h : x.weight = y.weight) : x = y := by
  have hheavier : ∀ {e : Char} {z w : Text}, weighs e = true → e :: z <:+ w →
      z.weight < w.weight := by
    intro e z w he hz
    have := weight_le_of_suffix hz
    rw [weight_cons, he, if_pos rfl] at this
    omega
  rcases List.suffix_or_suffix_of_suffix hx hy with hin | hin
  · rcases List.suffix_cons_iff.1 hin with heq | hin
    · exact (List.cons.inj heq).2
    · exact absurd h (Nat.ne_of_lt (hheavier hc hin))
  · rcases List.suffix_cons_iff.1 hin with heq | hin
    · exact (List.cons.inj heq).2.symm
    · exact absurd h.symm (Nat.ne_of_lt (hheavier hd hin))

end Text

namespace Grammar

open CssInliner.Parser

section turn

theorem comments_eq_nil {t m : Text} (h : comments t = .matched [] m)
    (ht : ∀ c, t.head? = some c → Text.isBlank c = false) : m = t := by
  rw [comments_eq] at h
  cases hmany : many commentRule advances_commentRule t with
  | mismatch =>
      rw [hmany] at h
      contradiction
  | failure d r =>
      rw [hmany] at h
      contradiction
  | matched found r =>
      rw [hmany] at h
      obtain ⟨rfl, rfl⟩ := Outcome.matched.inj h
      rcases many_eq_matched.1 hmany with ⟨-, rfl, -⟩ | ⟨_, _, _, hnil, -⟩
      · cases r with
        | nil => rfl
        | cons c r => simp [Text.isLayout_eq_false (ht c rfl)]
      · contradiction

theorem Item.Proper.head_print_brace {i : Item} (h : i.Proper) (hne : i.print ++ i.brace ≠ [])
    (x : Text) :
    ∀ c, (i.print ++ (i.brace ++ x)).head? = some c → Text.isBlank c = false := by
  intro c hc
  cases hprint : i.print with
  | cons d s =>
      rw [hprint] at hc
      exact h.head c (by rw [hprint]; exact hc)
  | nil =>
      cases i with
      | rule rule => exact absurd (by rw [hprint]; rfl) hne
      | groupHeader kind header =>
          rw [hprint] at hc
          obtain rfl : '\x7b' = c := by simpa [Item.brace] using hc
          rfl

/-- An item that was read from its own print, with no more to print behind it
than there was to read, reads back. -/
theorem readsBack_of_turn {m n x : Text} {i : Item} {found : List Rule}
    (hfound : comments (i.print ++ (i.brace ++ x)) = .matched found m)
    (hitem : item m = .matched i (i.brace ++ n)) (hx : x.weight ≤ n.weight) :
    found = [] ∧ x = n ∧ i.ReadsBack n := by
  have hprinted : Text.weight (i.print ++ (i.brace ++ x)) =
      i.print.weight + (i.brace.weight + x.weight) := by
    rw [Text.weight_append, Text.weight_append]
  have hskipped : found.length + m.weight ≤ Text.weight (i.print ++ (i.brace ++ x)) + 0 :=
    covers_comments hfound
  have hread : i.print.weight + Text.weight (i.brace ++ n) ≤ m.weight + 0 := covers_item hitem
  rw [Text.weight_append] at hread
  -- what was read weighs what is printed, so no comment was among it
  have hweight : x.weight = n.weight := by omega
  obtain rfl : found = [] := List.length_eq_zero_iff.1 (by omega)
  obtain ⟨s, c, hm, hc⟩ := closesItems_item hitem
  have htaken : c :: n <:+ i.print ++ (i.brace ++ x) :=
    List.IsSuffix.trans ⟨s, hm.symm⟩ (suffix_of_matched walks_comments hfound)
  rcases i.print_brace_ends with hnil | ⟨z, d, hends, hd⟩
  · -- an item without print would have been read from nothing
    have hlight : Text.weight (c :: n) ≤ x.weight := by
      have := Text.weight_le_of_suffix htaken
      rwa [← List.append_assoc, hnil, List.nil_append] at this
    rw [Text.weight_cons, Text.weighs_of_bound hc, if_pos rfl] at hlight
    omega
  have hrest : d :: x <:+ i.print ++ (i.brace ++ x) := by
    rw [← List.append_assoc, hends]
    exact ⟨z, by simp⟩
  obtain rfl : x = n := Text.eq_of_weight_eq hrest htaken (Text.weighs_of_bound hd)
    (Text.weighs_of_bound hc) hweight
  have hne : i.print ++ i.brace ≠ [] := by
    rw [hends]
    simp
  obtain rfl : m = i.print ++ (i.brace ++ x) :=
    comments_eq_nil hfound ((proper_item hitem).head_print_brace hne x)
  exact ⟨rfl, rfl, hfound, hitem⟩

end turn

section state

/-- The print of what a run has read: of the rules before each open group, of its
header, and of the rules in the innermost list. -/
def printSoFar : List OpenGroup → List Rule → Text
  | [], rules => renderRules [] rules.reverse
  | g :: groups, rules =>
      printSoFar groups g.before ++ g.kind.render g.header ++
        '\x7b' :: renderRules [] rules.reverse

theorem printSoFar_append (groups : List OpenGroup) (more rules : List Rule) :
    printSoFar groups (more ++ rules) = printSoFar groups rules ++ renderRules [] more.reverse := by
  cases groups with
  | nil => rw [printSoFar, printSoFar, List.reverse_append, renderRules_append]
  | cons g groups =>
      rw [printSoFar, printSoFar, List.reverse_append, renderRules_append, List.append_assoc _ _
        (renderRules _ _), List.cons_append]

theorem printSoFar_cons (groups : List OpenGroup) (rule : Rule) (rules : List Rule) :
    printSoFar groups (rule :: rules) = printSoFar groups rules ++ rule.render [] := by
  have hone : renderRules [] [rule] = rule.render [] := List.append_nil _
  rw [← List.singleton_append, printSoFar_append, List.reverse_singleton, hone]

theorem printSoFar_close (g : OpenGroup) (groups : List OpenGroup) (rules : List Rule) :
    printSoFar groups (g.close rules :: g.before) = printSoFar (g :: groups) rules ++ ['\x7d'] := by
  rw [printSoFar_cons, printSoFar, OpenGroup.close, Rule.render_group]
  simp only [List.append_assoc, List.cons_append]

theorem printSoFar_header (kind : GroupKind) (header : Text) (groups : List OpenGroup)
    (rules : List Rule) :
    printSoFar (⟨kind, header, rules⟩ :: groups) [] =
      printSoFar groups rules ++ (kind.render header ++ ['\x7b']) := by
  rw [printSoFar, List.append_assoc]
  rfl

theorem renderRules_of_comments {t m : Text} {found : List Rule}
    (h : comments t = .matched found m) : renderRules [] found = [] := by
  have hcomments : comments.Yields fun found => ∀ rule ∈ found, rule.render [] = [] := by
    refine (Yields.many _ ?_).bind fun found hfound => yields_of_next fun _ => yields_pure hfound
    exact yields_of_next fun _ => yields_of_next fun _ => yields_pure rfl
  have hfound := hcomments h
  clear h
  induction found with
  | nil => rfl
  | cons rule found ih =>
      rw [renderRules, hfound rule List.mem_cons_self,
        ih fun rule' hrule' => hfound rule' (List.mem_cons_of_mem rule hrule')]
      rfl

theorem printSoFar_comments {t m : Text} {found : List Rule}
    (h : comments t = .matched found m) (groups : List OpenGroup) (rules : List Rule) :
    printSoFar groups (found.reverse ++ rules) = printSoFar groups rules := by
  rw [printSoFar_append, List.reverse_reverse, renderRules_of_comments h, List.append_nil]

/-- The final print goes on from the print so far, and what is added to it weighs
no more than the text it is read from. -/
theorem exists_print_of_readOn {groups : List OpenGroup} {rules result : List Rule} {t r : Text}
    (h : readOn true groups rules t = .matched result r) :
    ∃ x, renderRules [] result = printSoFar groups rules ++ x ∧ Text.weight x ≤ t.weight := by
  induction h using readOn_induction with
  | finish rules t found h hfound hend hr =>
      refine ⟨[], ?_, Nat.zero_le _⟩
      rw [hend, List.append_nil, ← printSoFar_comments hfound [] rules, printSoFar]
  | close g outer rules t found m h hnext hfound ih =>
      obtain ⟨x, hprint, hx⟩ := ih
      have hread : found.length + Text.weight ('\x7d' :: m) ≤ t.weight + 0 :=
        covers_comments hfound
      refine ⟨'\x7d' :: x, ?_, ?_⟩
      · rw [hprint, printSoFar_close, printSoFar_comments hfound, List.append_assoc]
        rfl
      · rw [Text.weight_cons] at hread ⊢
        omega
  | rule groups rules t found m rule n h hnext hfound hallowed hitem ih =>
      obtain ⟨x, hprint, hx⟩ := ih
      have hskipped : found.length + m.weight ≤ t.weight + 0 := covers_comments hfound
      have hread : Text.weight (rule.render []) + n.weight ≤ m.weight + 0 := covers_item hitem
      refine ⟨rule.render [] ++ x, ?_, ?_⟩
      · rw [hprint, printSoFar_cons, printSoFar_comments hfound, List.append_assoc]
      · rw [Text.weight_append]
        omega
  | header groups rules t found m kind header n h hnext hfound hallowed hitem ih =>
      obtain ⟨x, hprint, hx⟩ := ih
      have hskipped : found.length + m.weight ≤ t.weight + 0 := covers_comments hfound
      have hread : Text.weight (kind.render header) + Text.weight ('\x7b' :: n) ≤ m.weight + 0 :=
        covers_item hitem
      refine ⟨kind.render header ++ ['\x7b'] ++ x, ?_, ?_⟩
      · rw [hprint, printSoFar_header, printSoFar_comments hfound, List.append_assoc]
      · rw [Text.weight_cons] at hread
        simp only [Text.weight_append, Text.weight_cons, Text.weight_nil]
        omega

/-- Everything read so far reads back where it was read, in front of the rest `u`. -/
def ReadBackSoFar : List OpenGroup → List Rule → Text → Prop
  | [], rules, u => RulesReadBack [] u rules.reverse
  | g :: groups, rules, u =>
      RulesReadBack [] u rules.reverse ∧
        (Item.groupHeader g.kind g.header).ReadsBack (renderRules [] rules.reverse ++ u) ∧
          ReadBackSoFar groups g.before
            (g.kind.render g.header ++ '\x7b' :: (renderRules [] rules.reverse ++ u))

theorem render_reverse_cons (rule : Rule) (rules : List Rule) (u : Text) :
    renderRules [] (rule :: rules).reverse ++ u =
      renderRules [] rules.reverse ++ (rule.render [] ++ u) := by
  rw [List.reverse_cons, renderRules_append, List.append_assoc, renderRules, renderRules,
    List.append_nil]

theorem rulesReadBack_reverse_cons {rule : Rule} {rules : List Rule} {u : Text}
    (h : RulesReadBack [] (rule.render [] ++ u) rules.reverse) (hrule : rule.ReadsBack [] u) :
    RulesReadBack [] u (rule :: rules).reverse := by
  rw [List.reverse_cons, rulesReadBack_append, renderRules, renderRules, List.append_nil]
  exact ⟨h, rulesReadBack_singleton.2 hrule⟩

theorem ReadBackSoFar.rule {groups : List OpenGroup} {rules : List Rule} {rule : Rule} {u : Text}
    (h : ReadBackSoFar groups rules (rule.render [] ++ u)) (hrule : rule.ReadsBack [] u) :
    ReadBackSoFar groups (rule :: rules) u := by
  cases groups with
  | nil => exact rulesReadBack_reverse_cons h hrule
  | cons g groups =>
      obtain ⟨hrules, hheader, houter⟩ := h
      rw [← render_reverse_cons] at hheader houter
      exact ⟨rulesReadBack_reverse_cons hrules hrule, hheader, houter⟩

theorem ReadBackSoFar.header {groups : List OpenGroup} {rules : List Rule} {kind : GroupKind}
    {header u : Text} (h : ReadBackSoFar groups rules (kind.render header ++ '\x7b' :: u))
    (hheader : (Item.groupHeader kind header).ReadsBack u) :
    ReadBackSoFar (⟨kind, header, rules⟩ :: groups) [] u :=
  ⟨trivial, hheader, h⟩

theorem ReadBackSoFar.close {g : OpenGroup} {groups : List OpenGroup} {rules : List Rule}
    {u : Text} (h : ReadBackSoFar (g :: groups) rules ('\x7d' :: u)) :
    ReadBackSoFar groups (g.close rules :: g.before) u := by
  obtain ⟨hrules, hheader, houter⟩ := h
  have htext : (g.close rules).render [] ++ u =
      g.kind.render g.header ++ '\x7b' :: (renderRules [] rules.reverse ++ '\x7d' :: u) := by
    rw [OpenGroup.close, Rule.render_group]
    simp only [List.append_assoc, List.cons_append, List.nil_append]
  rw [← htext] at houter
  exact houter.rule ⟨hheader, hrules⟩

theorem Item.ReadsBack.rule {rule : Rule} {u : Text} (h : (Item.rule rule).ReadsBack u)
    (hproper : (Item.rule rule).Proper) : rule.ReadsBack [] u := by
  cases rule with
  | group kind header rules => exact absurd hproper.not_group (by simp [Item.isGroup])
  | _ => exact h

end state

/-- A text that is read as a tree with this print reads back rule by rule. -/
theorem rulesReadBack_of_readOn {groups : List OpenGroup} {rules result : List Rule} {t r : Text}
    (h : readOn true groups rules t = .matched result r) (hstate : ReadBackSoFar groups rules t)
    (hprint : renderRules [] result = printSoFar groups rules ++ t) :
    RulesReadBack [] [] result := by
  induction h using readOn_induction with
  | finish rules t found h hfound hend hr =>
      have hresult : renderRules [] result = printSoFar [] rules ++ [] := by
        rw [hend, List.append_nil, ← printSoFar_comments hfound [] rules, printSoFar]
      -- all has been printed, so there was nothing left to read
      obtain rfl : t = [] := List.append_cancel_left (hprint.symm.trans hresult)
      have hread : found.length + Text.weight [] ≤ Text.weight [] + 0 := covers_comments hfound
      obtain rfl : found = [] := List.length_eq_zero_iff.1 (Nat.le_zero.1 hread)
      rw [hend]
      exact hstate
  | close g outer rules t found m h hnext hfound ih =>
      obtain ⟨x, hrest, -⟩ := exists_print_of_readOn hnext
      rw [printSoFar_close, printSoFar_comments hfound, List.append_assoc] at hrest
      obtain rfl : t = '\x7d' :: x := List.append_cancel_left (hprint.symm.trans hrest)
      rw [(crisp_closeBrace x).comments_eq] at hfound
      obtain ⟨rfl, hm⟩ := Outcome.matched.inj hfound
      obtain rfl := (List.cons.inj hm).2
      refine ih hstate.close ?_
      rw [hprint, printSoFar_close, List.append_assoc]
      rfl
  | rule groups rules t found m rule n h hnext hfound hallowed hitem ih =>
      obtain ⟨x, hrest, hx⟩ := exists_print_of_readOn hnext
      rw [printSoFar_cons, printSoFar_comments hfound, List.append_assoc] at hrest
      -- the rest of the text is this rule in print and what is printed behind it
      obtain rfl : t = rule.render [] ++ x := List.append_cancel_left (hprint.symm.trans hrest)
      obtain ⟨rfl, rfl, hback⟩ := readsBack_of_turn (i := .rule rule) hfound hitem hx
      refine ih (hstate.rule (hback.rule (proper_item hitem))) ?_
      rw [hprint, List.reverse_nil, List.nil_append, printSoFar_cons, List.append_assoc]
  | header groups rules t found m kind header n h hnext hfound hallowed hitem ih =>
      obtain ⟨x, hrest, hx⟩ := exists_print_of_readOn hnext
      rw [printSoFar_header, printSoFar_comments hfound, List.append_assoc,
        List.append_assoc] at hrest
      obtain rfl : t = kind.render header ++ '\x7b' :: x :=
        List.append_cancel_left (hprint.symm.trans hrest)
      obtain ⟨rfl, rfl, hback⟩ := readsBack_of_turn (i := .groupHeader kind header) hfound hitem hx
      refine ih (hstate.header hback) ?_
      rw [hprint, List.reverse_nil, List.nil_append, printSoFar_header, List.append_assoc,
        List.append_assoc]
      rfl

end Grammar

namespace Stylesheet

open CssInliner.Grammar

/-- A tree is read back from its print if and only if every rule reads back where
it is printed. -/
theorem parse_render_eq_ok_iff {sheet : Stylesheet} :
    parse (sheet.render []) = .ok sheet ↔ sheet.ReadsBack [] := by
  constructor
  · intro h
    have hread := ruleList_of_parse_eq_ok h
    rw [ruleList_bare] at hread
    exact rulesReadBack_of_readOn hread trivial rfl
  · exact parse_render_of_readsBack (by simp)

/-- The print of a tree is read and printed as it is if and only if it is the
print of a tree of which every rule reads back where it is printed. -/
theorem render_stable_iff (sheet : Stylesheet) :
    (∃ again, parse (sheet.render []) = .ok again ∧ again.render [] = sheet.render []) ↔
      ∃ again : Stylesheet, again.render [] = sheet.render [] ∧ again.ReadsBack [] := by
  constructor
  · rintro ⟨again, hparse, hrender⟩
    rw [← hrender] at hparse
    exact ⟨again, hrender, parse_render_eq_ok_iff.1 hparse⟩
  · rintro ⟨again, hrender, hback⟩
    refine ⟨again, ?_, hrender⟩
    rw [← hrender]
    exact parse_render_eq_ok_iff.2 hback

/-- A blank behind a backslash is trimmed off a value. The backslash then escapes
the brace behind it in print, so the block has no end. -/
theorem render_unstable_sample :
    parse "a\x7bb:c\\ \x7d".toList = .ok [.style ["a".toList] [⟨"b".toList, "c\\".toList⟩]] ∧
      render [] [.style ["a".toList] [⟨"b".toList, "c\\".toList⟩]] = "a\x7bb:c\\\x7d".toList ∧
        parse "a\x7bb:c\\\x7d".toList = .error ⟨.missingCloseBrace, ⟨1, 8⟩⟩ := by
  refine ⟨?_, ?_, ?_⟩
  all_goals decide +kernel

end Stylesheet

end CssInliner
