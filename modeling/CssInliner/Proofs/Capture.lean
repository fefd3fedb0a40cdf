import CssInliner.Proofs.Printing.Stylesheet

/-!
Raw text in at rules. A statement goes to its first semicolon and the header of a group to
its first brace, whether these stand in a string or not. So an at rule is read as it is
written exactly if its text is free of what ends it.
-/

namespace CssInliner

namespace Grammar

open CssInliner.Parser

section turns

variable {bare : Bool} {groups : List OpenGroup} {rules : List Rule} {t m : Text}

theorem readOn_at_rule {rule : Rule} (h : item ('@' :: t) = .matched (.rule rule) m) :
    readOn bare groups rules ('@' :: t) = readOn bare groups (rule :: rules) m := by
  rw [readOn_at]
  exact readRules_of_rule h (by simp [ItemsAllowed])

theorem readOn_at_header {kind : GroupKind} {header : Text}
    (h : item ('@' :: t) = .matched (.groupHeader kind header) ('\x7b' :: m)) :
    readOn bare groups rules ('@' :: t) = readOn bare (⟨kind, header, rules⟩ :: groups) [] m := by
  rw [readOn_at]
  exact readRules_of_header h (by simp [ItemsAllowed])

end turns

/-- Every open group is in the tree in the end, with the header it was opened with. -/
theorem exists_group_of_readOn {P : Rule → Prop} {groups : List OpenGroup}
    {rules result : List Rule} {t r : Text}
    (h : readOn true groups rules t = .matched result r) (hresult : RulesThroughout P result) :
    ∀ g ∈ groups, ∃ inside, P (.group g.kind g.header inside) := by
  induction h using readOn_induction with
  | finish rules t found h hfound hend hr => simp
  | close g outer rules t found m h hnext hfound ih =>
      intro g' hg'
      rcases List.mem_cons.1 hg' with rfl | hg'
      · exact ⟨_, (throughout_of_readOn hnext hresult).1.1.self⟩
      · exact ih g' hg'
  | rule groups rules t found m rule n h hnext hfound hallowed hitem ih => exact ih
  | header groups rules t found m kind header n h hnext hfound hallowed hitem ih =>
      exact fun g hg => ih g (List.mem_cons_of_mem _ hg)

/-- What stands before the first of the characters that end a captured text is captured
without the rest. -/
theorem exists_captured_of_mem {stop : Char} {t : Text} (htrim : t.trim = t)
    (hhead : t.head? ≠ some stop) (hmem : stop ∈ t) :
    ∃ a b, t = a ++ stop :: b ∧ Captured [stop] a ∧ a.trim ≠ t := by
  obtain ⟨a, b, rfl, hfree⟩ := List.eq_append_cons_of_mem hmem
  refine ⟨a, b, rfl, ⟨?_, List.forall_mem_singleton.2 hfree⟩, fun heq => ?_⟩
  · cases a with
    | nil => exact absurd rfl hhead
    | cons c a => exact ⟨c, a, rfl, Text.isBlank_of_trim_eq_cons htrim⟩
  · have hle := Text.length_trim_le a
    rw [heq] at hle
    simp only [List.length_append, List.length_cons] at hle
    omega

end Grammar

namespace Stylesheet

open CssInliner.Grammar

section whole

variable {value header : Text}

/-- A statement is read as it is written exactly if there is no semicolon in it. -/
theorem parse_statement_iff (kind : StatementKind) (hne : value ≠ [])
    (htrim : value.trim = value) (hhead : value.head? ≠ some ';') :
    parse ('@' :: (kind.keyword ++ ' ' :: (value ++ [';']))) = .ok [.statement kind value] ↔
      ';' ∉ value := by
  constructor
  · intro hparse hmem
    obtain ⟨a, b, hvalue, ha, hshort⟩ := exists_captured_of_mem htrim hhead hmem
    have hread := ruleList_of_parse_eq_ok hparse
    have htext : value ++ [';'] = a ++ ';' :: (b ++ [';']) := by simp [hvalue]
    rw [htext, ruleList_bare, readOn_at_rule (item_statement kind ha _)] at hread
    -- the shorter statement is in the tree, where there is none but the whole one
    have hrules := throughout_of_readOn (P := (· = .statement kind value)) hread ⟨rfl, trivial⟩
    exact hshort (Rule.statement.inj hrules.1.1).2
  · intro hfree
    have hback : ReadsBack [] [.statement kind value] :=
      ⟨readsBack_statement ⟨hne, htrim, List.forall_mem_singleton.2 hfree⟩, trivial⟩
    have htext : render [] [.statement kind value] =
        '@' :: (kind.keyword ++ ' ' :: (value ++ [';'])) := by
      simp [render, renderRules, Rule.render_statement]
    rw [← htext]
    exact parse_render_of_readsBack (by simp) hback

/-- A group without rules is read as it is written exactly if there is no brace in its
header. -/
theorem parse_group_iff {mark : Text} {kind : GroupKind}
    (hitem : ∀ t u, Captured ['\x7b'] t →
      item ('@' :: (mark ++ ' ' :: (t ++ '\x7b' :: u))) =
        .matched (.groupHeader kind t.trim) ('\x7b' :: u))
    (hrender : kind.render header = '@' :: (mark ++ ' ' :: header))
    (hprintable : CapturePrintable ['\x7b'] header → kind.Printable header)
    (hne : header ≠ []) (htrim : header.trim = header) (hhead : header.head? ≠ some '\x7b') :
    parse ('@' :: (mark ++ ' ' :: (header ++ "\x7b\x7d".toList))) =
        .ok [.group kind header []] ↔
      '\x7b' ∉ header := by
  constructor
  · intro hparse hmem
    obtain ⟨a, b, hheader, ha, hshort⟩ := exists_captured_of_mem htrim hhead hmem
    have hread := ruleList_of_parse_eq_ok hparse
    have htext : header ++ "\x7b\x7d".toList = a ++ '\x7b' :: (b ++ "\x7b\x7d".toList) := by
      simp [hheader]
    rw [htext, ruleList_bare, readOn_at_header (hitem a _ ha)] at hread
    -- a group with the shorter header is in the tree, where there is none but the whole one
    obtain ⟨inside, hinside⟩ := exists_group_of_readOn (P := (· = .group kind header [])) hread
      ⟨⟨rfl, trivial⟩, trivial⟩ _ List.mem_cons_self
    exact hshort (Rule.group.inj hinside).2.1
  · intro hfree
    have hback : ReadsBack [] [.group kind header []] :=
      ⟨⟨readsBack_groupHeader (hprintable ⟨hne, htrim, List.forall_mem_singleton.2 hfree⟩),
        trivial⟩, trivial⟩
    have htext : render [] [.group kind header []] =
        '@' :: (mark ++ ' ' :: (header ++ "\x7b\x7d".toList)) := by
      simp [render, renderRules, Rule.render_group, hrender]
    rw [← htext]
    exact parse_render_of_readsBack (by simp) hback

end whole

theorem trim_call (name q : Text) (hname : ∃ c r, name = c :: r ∧ Text.isBlank c = false) :
    (name ++ q ++ ")".toList).trim = name ++ q ++ ")".toList := by
  obtain ⟨c, r, rfl, hc⟩ := hname
  rw [List.cons_append, List.cons_append, Text.trim_cons hc]
  exact congrArg _ (Text.trimEnd_concat _ rfl)

/-- Strings mean nothing to the at rules that take raw text. With any text at all in
parentheses, in quotes or not, a statement is read as it is written exactly if there is no
semicolon in that text, and a condition exactly if there is no brace in it. -/
theorem parse_raw_iff (q : Text) :
    (∀ kind : StatementKind,
      parse ('@' :: kind.keyword ++ " url(".toList ++ q ++ ");".toList) =
          .ok [.statement kind ("url(".toList ++ q ++ ")".toList)] ↔ ';' ∉ q) ∧
      (parse ("@supports (content: ".toList ++ q ++ ")\x7b\x7d".toList) =
          .ok [.group .supports ("(content: ".toList ++ q ++ ")".toList) []] ↔ '\x7b' ∉ q) ∧
        (parse ("@media (content: ".toList ++ q ++ ")\x7b\x7d".toList) =
          .ok [.group .media ("(content: ".toList ++ q ++ ")".toList) []] ↔ '\x7b' ∉ q) := by
  have hurl := trim_call "url(".toList q ⟨_, _, rfl, rfl⟩
  have hcontent := trim_call "(content: ".toList q ⟨_, _, rfl, rfl⟩
  refine ⟨fun kind => ?_, ?_, ?_⟩
  · have hread := parse_statement_iff kind (by simp) hurl (by simp)
    simpa using hread
  · have hread := parse_group_iff (fun t u h => item_supports h u) rfl id (by simp) hcontent
      (by simp)
    simpa using hread
  · have hread := parse_group_iff (fun t u h => item_media h u) rfl id (by simp) hcontent
      (by simp)
    simpa using hread

/-- A semicolon in a string ends an import, and what follows it is no rule. -/
theorem parse_raw_sample :
    parse "@import url(\"a;b\");".toList = .error ⟨.missingOpenBrace, ⟨1, 20⟩⟩ ∧
      parse "@supports (content: \"\x7b\")\x7b\x7d".toList ≠
        .ok [.group .supports "(content: \"\x7b\")".toList []] := by
  decide +kernel

end Stylesheet

end CssInliner
