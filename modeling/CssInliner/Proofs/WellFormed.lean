import CssInliner.Proofs.Concatenation
import CssInliner.Proofs.Printing.Block

/-!
What all parsed trees have in common. Whatever is captured is trimmed and free of what ends it,
and names are runs of their characters. A property is the one thing that could be lost: it is made
of characters that make comments as well. But no declaration is read where a comment begins, so
the first character of a property stays.
-/

namespace CssInliner

open CssInliner.Grammar CssInliner.Parser

def Text.IsRun (test : Char → Bool) (t : Text) : Prop := t ≠ [] ∧ ∀ c ∈ t, test c = true

/-- A text with no blanks at its ends and none of the given characters in it. -/
structure Text.TrimmedWithout (ends : List Char) (t : Text) : Prop where
  trimmed : t.trim = t
  free : ∀ c ∈ ends, c ∉ t

/-- A property without blanks and a trimmed value. -/
structure Declaration.WellFormed (d : Declaration) : Prop where
  property_ne_nil : d.property ≠ []
  property_bare : ∀ c ∈ d.property, Text.isBlank c = false
  value_trimmed : d.value.trim = d.value

def BlockWellFormed (ds : List Declaration) : Prop := ∀ d ∈ ds, d.WellFormed

def SelectorsWellFormed (selectors : List Text) : Prop := ∀ s ∈ selectors, s ≠ [] ∧ s.trim = s

/-- Digits, digits behind a point, or both. -/
inductive IsNumber : Text → Prop
  | digits {ds : Text} (h : ds.IsRun Text.isDigit) : IsNumber ds
  | fraction {ds : Text} (h : ds.IsRun Text.isDigit) : IsNumber ('.' :: ds)
  | decimal {whole ds : Text} (hwhole : whole.IsRun Text.isDigit) (h : ds.IsRun Text.isDigit) :
      IsNumber (whole ++ '.' :: ds)

/-- A number with or without a percent sign, or a lowercase word. -/
def IsFrameSelector (s : Text) : Prop :=
  (∃ number, IsNumber number ∧ (s = number ∨ s = number ++ ['%'])) ∨ s.IsRun Text.isLowercase

structure Keyframe.WellFormed (frame : Keyframe) : Prop where
  selectors_ne_nil : frame.selectors ≠ []
  selectors_read : ∀ s ∈ frame.selectors, IsFrameSelector s ∧ keyframeSelector s = .matched s []
  block : BlockWellFormed frame.declarations

/-- A vendor mark is a run of identifier characters where there is one. -/
def VendorWellFormed (vendor : Option Text) : Prop := ∀ v ∈ vendor, v.IsRun Text.isIdentifierChar

def GroupKind.WellFormed (header : Text) : GroupKind → Prop
  | media | supports => header.TrimmedWithout ['\x7b']
  | host => header = []
  | document vendor => VendorWellFormed vendor ∧ header.TrimmedWithout ['\x7b']

/-- What holds of every rule that is read, apart from the rules inside it. -/
def Rule.WellFormedHead : Rule → Prop
  | .style selectors ds => selectors ≠ [] ∧ SelectorsWellFormed selectors ∧ BlockWellFormed ds
  | .page selectors ds => SelectorsWellFormed selectors ∧ BlockWellFormed ds
  | .fontFace ds => BlockWellFormed ds
  | .keyframes vendor name frames =>
      VendorWellFormed vendor ∧ name.IsRun Text.isIdentifierChar ∧
        ∀ frame ∈ frames, frame.WellFormed
  | .group kind header _ => kind.WellFormed header
  | .customMedia name media =>
      (∃ s, name = "--".toList ++ s ∧ s.IsRun fun c => !Text.isBlank c) ∧
        media.TrimmedWithout ['\x7b', ';']
  | .statement _ value => value.TrimmedWithout [';']
  | .comment text => ¬ commentClose <:+: text

/-- The rule is well formed, and so is every rule inside it, however deep. -/
def Rule.WellFormed (rule : Rule) : Prop := rule.Throughout Rule.WellFormedHead

def Stylesheet.WellFormed (sheet : Stylesheet) : Prop :=
  RulesThroughout Rule.WellFormedHead sheet

namespace Grammar

section captures

theorem trimmedWithout_trim {ends : List Char} {t : Text} (h : ∀ c ∈ ends, c ∉ t) :
    t.trim.TrimmedWithout ends :=
  ⟨Text.trim_trim t, fun c hc hmem => h c hc (Text.mem_of_mem_trim hmem)⟩

theorem yields_takeWhile1 (test : Char → Bool) : (takeWhile1 test).Yields (Text.IsRun test) := by
  intro t s r h
  obtain ⟨hne, h⟩ := takeWhile1_eq_matched.1 h
  exact ⟨hne, (takeWhile_eq_matched.1 h).2.1⟩

theorem yields_until {test : Char → Bool} {ends : List Char}
    (hends : ∀ c ∈ ends, test c = false) :
    (takeWhile1 test).Yields fun t => t.trim.TrimmedWithout ends := by
  intro t s r h
  refine trimmedWithout_trim fun c hc hmem => ?_
  have hin := (yields_takeWhile1 test h).2 c hmem
  rw [hends c hc] at hin
  contradiction

theorem yields_blockHeader : blockHeader.Yields (Text.TrimmedWithout ['\x7b']) :=
  yields_of_next fun _ => (yields_until (by simp)).bind fun _ hheader => yields_pure hheader

theorem yields_vendored (base : Text) : (vendored base).Yields VendorWellFormed := by
  intro t vendor r h v hv
  obtain ⟨keyword, lead, hkeyword, hlead, rfl⟩ := vendored_eq_matched.1 h
  obtain ⟨-, hin, -⟩ := atKeyword_eq_matched.1 hkeyword
  obtain rfl := Text.dropTail?_eq_some_iff.1 hlead
  obtain ⟨hne, rfl⟩ : lead ≠ [] ∧ lead = v := by simpa [Text.nonempty?] using hv
  exact ⟨hne, fun c hc => hin c (List.mem_append_left base hc)⟩

theorem yields_selectorList : selectorList.Yields SelectorsWellFormed := by
  intro t selectors r h s hs
  obtain ⟨blank, m, -, -, rfl, -⟩ := selectorList_eq_matched.1 h
  exact of_mem_splitSelectors hs

theorem yields_comments : comments.Yields fun found => ∀ rule ∈ found, rule.WellFormed := by
  refine (Yields.many _ ?_).bind fun found hfound => yields_of_next fun _ => yields_pure hfound
  refine yields_of_next fun _ => Yields.bind ?_ fun _ htext => yields_pure htext
  intro t text r h
  obtain ⟨body, -, hsplit⟩ := comment_eq_matched.1 h
  exact Text.not_infix_of_splitFirst? (by simp [commentClose]) hsplit

end captures

section declarations

/-- Filler goes up to something that begins no comment. -/
theorem not_comment_of_filler {t r : Text} {found : List Text} (h : filler t = .matched found r) :
    ¬ commentOpen <+: r :=
  comment_eq_mismatch.1 (orElse_eq_mismatch.1 (mismatch_of_many h)).2

/-- A declaration that does not begin with a comment has a property left. -/
theorem wellFormed_of_declaration {t r : Text} {d : Declaration} (ht : ¬ commentOpen <+: t)
    (h : declaration t = .matched d r) : d.WellFormed := by
  obtain ⟨property, m, hproperty, h⟩ := bind_eq_matched.1 h
  obtain ⟨_, _, -, h⟩ := bind_eq_matched.1 h
  obtain ⟨_, _, -, h⟩ := bind_eq_matched.1 h
  obtain ⟨_, _, -, h⟩ := bind_eq_matched.1 h
  obtain ⟨value, _, -, h⟩ := bind_eq_matched.1 h
  obtain ⟨_, _, -, h⟩ := bind_eq_matched.1 h
  obtain ⟨rfl, -⟩ := Outcome.matched.inj h
  obtain ⟨rfl, ⟨c, s, rfl, hc⟩, hblank⟩ := of_propertyName hproperty
  have hbare : ∀ d ∈ stripComments (c :: s), Text.isBlank d = false :=
    fun d hd => hblank d ((stripComments_sublist _).subset hd)
  have hstrip : stripComments (c :: s) = c :: stripComments s :=
    stripComments_cons_of_bare (isQuote_of_isPropertyChar hc)
      fun hopen => ht (hopen.trans (List.prefix_append _ m))
  refine ⟨?_, ?_, Text.trim_trim _⟩
  · rw [Text.trim_eq_self hbare, hstrip]
    exact List.cons_ne_nil c _
  · rwa [Text.trim_eq_self hbare]

/-- In front of every declaration there was filler, that of the block or of the declaration
before it. -/
theorem blockWellFormed_of_many {t r : Text} {ds : List Declaration} (ht : ¬ commentOpen <+: t)
    (h : many declarationItem advances_declarationItem t = .matched ds r) : BlockWellFormed ds := by
  induction h using many_induction with
  | nil => exact List.forall_mem_nil _
  | cons t d m ds r h hnext hitem ih =>
      obtain ⟨e, k, hdeclaration, hitem⟩ := bind_eq_matched.1 hitem
      obtain ⟨found, k', hfiller, hitem⟩ := bind_eq_matched.1 hitem
      obtain ⟨rfl, rfl⟩ := Outcome.matched.inj hitem
      exact List.forall_mem_cons.2
        ⟨wellFormed_of_declaration ht hdeclaration, ih (not_comment_of_filler hfiller)⟩

theorem yields_declarationBlock : declarationBlock.Yields BlockWellFormed := by
  refine yields_of_next fun _ t ds r h => ?_
  obtain ⟨found, m, hfiller, h⟩ := bind_eq_matched.1 h
  obtain ⟨ds, n, hmany, h⟩ := bind_eq_matched.1 h
  obtain ⟨_, _, -, h⟩ := bind_eq_matched.1 h
  obtain ⟨rfl, -⟩ := Outcome.matched.inj h
  exact blockWellFormed_of_many (not_comment_of_filler hfiller) hmany

end declarations

section frames

theorem yields_fraction :
    fraction.Yields fun s => ∃ ds : Text, s = '.' :: ds ∧ ds.IsRun Text.isDigit :=
  yields_of_next fun _ => (yields_takeWhile1 _).bind fun ds hds => yields_pure ⟨ds, rfl, hds⟩

theorem yields_keyframeSelector : keyframeSelector.Yields IsFrameSelector := by
  have hdigits : digits.Yields IsNumber := fun _ _ _ h => .digits (yields_takeWhile1 _ h)
  have hfraction : fraction.Yields IsNumber := by
    intro t s r h
    obtain ⟨ds, rfl, hds⟩ := yields_fraction h
    exact .fraction hds
  have hdecimal : decimal.Yields IsNumber := by
    refine (yields_takeWhile1 _).bind fun whole hwhole => yields_fraction.bind fun s hs => ?_
    obtain ⟨ds, rfl, hds⟩ := hs
    exact yields_pure (.decimal hwhole hds)
  refine Yields.orElse ?_ fun _ _ _ h => .inr (yields_takeWhile1 _ h)
  refine (hdecimal.orElse (hfraction.orElse hdigits)).bind fun number hnumber =>
    yields_of_next fun sign => yields_pure (.inl ⟨number, hnumber, ?_⟩)
  cases sign with
  | none => exact .inl (List.append_nil number)
  | some _ => exact .inr rfl

section reading

variable {ds u : Text}

theorem digits_append (h : ds.IsRun Text.isDigit)
    (hu : ∀ c, u.head? = some c → Text.isDigit c = false) : digits (ds ++ u) = .matched ds u :=
  takeWhile1_eq_matched.2 ⟨h.1, takeWhile_eq_matched.2 ⟨rfl, h.2, hu⟩⟩

theorem fraction_append (h : ds.IsRun Text.isDigit)
    (hu : ∀ c, u.head? = some c → Text.isDigit c = false) :
    fraction ('.' :: ds ++ u) = .matched ('.' :: ds) u :=
  bind_eq_matched.2 ⟨(), ds ++ u, literal_eq_matched.2 rfl,
    bind_eq_matched.2 ⟨ds, u, digits_append h hu, rfl⟩⟩

theorem number_append {number : Text} (h : IsNumber number)
    (hu : ∀ c, u.head? = some c → Text.isDigit c = false) (hpoint : u.head? ≠ some '.') :
    (decimal.orElse (fraction.orElse digits)) (number ++ u) = .matched number u := by
  cases h with
  | digits h =>
      have hlead : (number ++ u).head? ≠ some '.' := by
        obtain ⟨c, s, rfl⟩ := List.exists_cons_of_ne_nil h.1
        intro hc
        obtain rfl : c = '.' := by simpa using hc
        exact absurd (h.2 _ List.mem_cons_self) (by decide)
      have hdecimal : decimal (number ++ u) = .mismatch :=
        bind_eq_mismatch.2 (.inr ⟨number, u, digits_append h hu,
          bind_eq_mismatch.2 (.inl (fraction_eq_mismatch hpoint))⟩)
      rw [orElse_of_mismatch hdecimal, orElse_of_mismatch (fraction_eq_mismatch hlead)]
      exact digits_append h hu
  | @fraction ds h =>
      have hdigits : digits ('.' :: ds ++ u) = .mismatch :=
        takeWhile1_eq_mismatch.2 (by simp; decide)
      have hdecimal : decimal ('.' :: ds ++ u) = .mismatch := bind_eq_mismatch.2 (.inl hdigits)
      rw [orElse_of_mismatch hdecimal]
      exact orElse_eq_matched.2 (.inl (fraction_append h hu))
  | @decimal whole ds hwhole h =>
      refine orElse_eq_matched.2 (.inl ?_)
      rw [List.append_assoc]
      exact bind_eq_matched.2 ⟨whole, '.' :: ds ++ u, digits_append hwhole (by simp; decide),
        bind_eq_matched.2 ⟨'.' :: ds, u, fraction_append h hu, rfl⟩⟩

end reading

theorem plain_of_isLowercase {c : Char} (h : Text.isLowercase c = true) :
    Text.isDigit c = false ∧ c ≠ '.' := by
  simp only [Text.isLowercase, Text.isDigit, Bool.and_eq_true, decide_eq_true_eq,
    Bool.and_eq_false_iff, decide_eq_false_iff_not] at h ⊢
  refine ⟨.inr fun hdigit => absurd (Char.le_trans h.1 hdigit) (by decide), ?_⟩
  rintro rfl
  exact absurd h.1 (by decide)

theorem keyframeSelector_self {s : Text} (h : IsFrameSelector s) :
    keyframeSelector s = .matched s [] := by
  rcases h with ⟨number, hnumber, rfl | rfl⟩ | hword
  · refine orElse_eq_matched.2 (.inl (bind_eq_matched.2 ⟨s, [], ?_, ?_⟩))
    · simpa using number_append (u := []) hnumber (by simp) (by simp)
    · exact bind_eq_matched.2 ⟨none, [], rfl, by simp⟩
  · refine orElse_eq_matched.2 (.inl (bind_eq_matched.2 ⟨number, ['%'], ?_, ?_⟩))
    · exact number_append hnumber (by simp; decide) (by simp)
    · exact bind_eq_matched.2 ⟨some (), [], rfl, rfl⟩
  · have hpercentage : percentage s = .mismatch := by
      refine percentage_eq_mismatch fun c hc => ?_
      exact plain_of_isLowercase (hword.2 c (List.mem_of_mem_head? hc))
    refine orElse_eq_matched.2 (.inr ⟨hpercentage, takeWhile1_eq_matched.2 ⟨hword.1, ?_⟩⟩)
    exact takeWhile_eq_matched.2 ⟨(List.append_nil s).symm, hword.2, by simp⟩

theorem yields_keyframe : keyframe.Yields Keyframe.WellFormed := by
  have hselector : keyframeSelectorItem.Yields fun s =>
      IsFrameSelector s ∧ keyframeSelector s = .matched s [] :=
    yields_keyframeSelector.bind fun _ hs => yields_of_next fun _ => yields_of_next fun _ =>
      yields_pure ⟨hs, keyframeSelector_self hs⟩
  refine yields_of_next fun _ => (Yields.many _ hselector).bind fun selectors hselectors => ?_
  cases selectors with
  | nil => exact yields_mismatch
  | cons s ss =>
      exact yields_declarationBlock.bind fun _ hds =>
        yields_pure ⟨List.cons_ne_nil s ss, hselectors, hds⟩

end frames

section items

/-- A rule has the property throughout; a header makes groups that have it, whatever rules come
to stand in them. -/
def Item.Satisfies (P : Rule → Prop) : Item → Prop
  | .rule read => read.Throughout P
  | .groupHeader kind header => ∀ rules, P (.group kind header rules)

def YieldsWellFormed (p : Parser Item) : Prop := p.Yields (Item.Satisfies Rule.WellFormedHead)

theorem yieldsWellFormed_whole {p : Parser Rule} (hp : p.Yields Rule.WellFormed) :
    YieldsWellFormed (whole p) :=
  Yields.bind hp fun _ hrule => yields_pure hrule

theorem yields_keyframes : keyframes.Yields Rule.WellFormed := by
  have hframe : keyframeItem.Yields Keyframe.WellFormed :=
    yields_keyframe.bind fun _ hframe => yields_of_next fun _ => yields_pure hframe
  exact (yields_vendored _).bind fun _ hvendor => yields_of_next fun _ =>
    ((yields_takeWhile1 _).require _).bind fun _ hname => yields_of_next fun _ =>
      yields_of_next fun _ => yields_of_next fun _ => (Yields.many _ hframe).bind fun _ hframes =>
        yields_of_next fun _ => yields_pure ⟨hvendor, hname, hframes⟩

theorem yields_customMedia : customMedia.Yields Rule.WellFormed := by
  have hname : customMediaName.Yields fun name =>
      ∃ s, name = "--".toList ++ s ∧ s.IsRun fun c => !Text.isBlank c :=
    yields_of_next fun _ => (yields_takeWhile1 _).bind fun s hs => yields_pure ⟨s, rfl, hs⟩
  exact yields_of_next fun _ => yields_of_next fun _ => hname.bind fun _ hname =>
    yields_of_next fun _ => (yields_until (by simp)).bind fun _ hmedia =>
      yields_of_next fun _ => yields_pure ⟨hname, hmedia⟩

theorem yields_page : page.Yields Rule.WellFormed :=
  yields_of_next fun _ => yields_of_next fun _ => yields_selectorList.bind fun _ hselectors =>
    yields_declarationBlock.bind fun _ hds => yields_pure ⟨hselectors, hds⟩

theorem yields_fontFace : fontFace.Yields Rule.WellFormed :=
  yields_of_next fun _ => yields_of_next fun _ =>
    yields_declarationBlock.bind fun _ hds => yields_pure hds

theorem yields_statement : statement.Yields Rule.WellFormed := by
  refine yields_of_next fun keyword => ?_
  cases StatementKind.ofKeyword? keyword with
  | none => exact yields_mismatch
  | some kind =>
      exact yields_of_next fun _ => (yields_until (by simp)).bind fun _ hvalue =>
        yields_of_next fun _ => yields_pure hvalue

theorem yields_styleRule : styleRule.Yields Rule.WellFormed := by
  intro t rule r h
  obtain ⟨selectors, m, ds, hselectors, hne, hds, rfl⟩ := styleRule_eq_matched.1 h
  exact ⟨hne, yields_selectorList hselectors, yields_declarationBlock hds⟩

theorem yieldsWellFormed_supportsHeader : YieldsWellFormed supportsHeader :=
  yields_of_next fun _ => yields_blockHeader.bind fun _ hheader => yields_pure fun _ => hheader

theorem yieldsWellFormed_hostHeader : YieldsWellFormed hostHeader :=
  yields_of_next fun _ => yields_of_next fun _ => yields_pure fun _ => rfl

theorem yieldsWellFormed_mediaHeader : YieldsWellFormed mediaHeader :=
  yields_of_next fun _ => yields_blockHeader.bind fun _ hheader => yields_pure fun _ => hheader

theorem yieldsWellFormed_documentHeader : YieldsWellFormed documentHeader :=
  (yields_vendored _).bind fun _ hvendor => yields_blockHeader.bind fun _ hheader =>
    yields_pure fun _ => ⟨hvendor, hheader⟩

theorem yieldsWellFormed_item : YieldsWellFormed item := by
  have hknown : YieldsWellFormed knownAtItem :=
    (yieldsWellFormed_whole yields_keyframes).orElse <|
      yieldsWellFormed_supportsHeader.orElse <| yieldsWellFormed_hostHeader.orElse <|
        yieldsWellFormed_mediaHeader.orElse <|
          (yieldsWellFormed_whole yields_customMedia).orElse <|
            (yieldsWellFormed_whole yields_page).orElse <|
              yieldsWellFormed_documentHeader.orElse <|
                (yieldsWellFormed_whole yields_fontFace).orElse <|
                  yieldsWellFormed_whole yields_statement
  exact Yields.orElse (yields_of_next fun _ => hknown) (yieldsWellFormed_whole yields_styleRule)

end items

section run

variable {P : Rule → Prop}

/-- What holds of everything that is read at one turn holds of everything that has been read in
the end. -/
theorem rulesThroughout_of_readOn (hitem : item.Yields (Item.Satisfies P))
    (hcomments : comments.Yields fun found => ∀ rule ∈ found, rule.Throughout P)
    {groups : List OpenGroup} {rules result : List Rule} {t r : Text}
    (h : readOn true groups rules t = .matched result r)
    (hrules : ∀ rule ∈ rules, rule.Throughout P)
    (hgroups : ∀ g ∈ groups, (∀ rule ∈ g.before, rule.Throughout P) ∧
      ∀ inside, P (.group g.kind g.header inside)) : RulesThroughout P result := by
  have hjoin : ∀ {rules t found m}, comments t = .matched found m →
      (∀ rule ∈ rules, rule.Throughout P) → ∀ rule ∈ found.reverse ++ rules, rule.Throughout P :=
    fun hfound hrules => List.forall_mem_append.2
      ⟨fun rule hrule => hcomments hfound rule (List.mem_reverse.1 hrule), hrules⟩
  induction h using readOn_induction with
  | finish rules t found h hfound hend hr =>
      rw [hend, rulesThroughout_iff]
      exact fun rule hrule => hjoin hfound hrules rule (List.mem_reverse.1 hrule)
  | close g outer rules t found m h hnext hfound ih =>
      obtain ⟨⟨hbefore, hheader⟩, houter⟩ := List.forall_mem_cons.1 hgroups
      have hinside : RulesThroughout P (found.reverse ++ rules).reverse :=
        rulesThroughout_iff.2 fun rule hrule =>
          hjoin hfound hrules rule (List.mem_reverse.1 hrule)
      exact ih (List.forall_mem_cons.2 ⟨⟨hheader _, hinside⟩, hbefore⟩) houter
  | rule groups rules t found m rule n h hnext hfound hallowed hread ih =>
      exact ih (List.forall_mem_cons.2 ⟨hitem hread, hjoin hfound hrules⟩) hgroups
  | header groups rules t found m kind header n h hnext hfound hallowed hread ih =>
      exact ih (List.forall_mem_nil _)
        (List.forall_mem_cons.2 ⟨⟨hjoin hfound hrules, hitem hread⟩, hgroups⟩)

end run

end Grammar

namespace Stylesheet

/-- Every parsed tree is well formed, at any depth. -/
theorem wellFormed_of_parse {source : Text} {sheet : Stylesheet} (h : parse source = .ok sheet) :
    sheet.WellFormed := by
  have hread := ruleList_of_parse_eq_ok h
  rw [ruleList_bare] at hread
  exact rulesThroughout_of_readOn yieldsWellFormed_item yields_comments hread
    (List.forall_mem_nil _) (List.forall_mem_nil _)

/-- A property with a comment before it and one in it, inside a group; a frame with a percentage
that a word follows at once. -/
theorem wellFormed_of_parse_sample :
    parse "@media x \x7ba\x7b/**/c/**/[d]: e\x7d\x7d@-f-keyframes g\x7b.5%to\x7b\x7d\x7d".toList =
        .ok [.group .media "x".toList [.style ["a".toList] [⟨"c[d]".toList, "e".toList⟩]],
          .keyframes (some "-f-".toList) "g".toList [⟨[".5%".toList, "to".toList], []⟩]] ∧
      WellFormed [.group .media "x".toList [.style ["a".toList] [⟨"c[d]".toList, "e".toList⟩]],
        .keyframes (some "-f-".toList) "g".toList [⟨[".5%".toList, "to".toList], []⟩]] := by
  have h : parse
      "@media x \x7ba\x7b/**/c/**/[d]: e\x7d\x7d@-f-keyframes g\x7b.5%to\x7b\x7d\x7d".toList =
      .ok [.group .media "x".toList [.style ["a".toList] [⟨"c[d]".toList, "e".toList⟩]],
        .keyframes (some "-f-".toList) "g".toList [⟨[".5%".toList, "to".toList], []⟩]] := by
    decide +kernel
  exact ⟨h, wellFormed_of_parse h⟩

end Stylesheet

end CssInliner
