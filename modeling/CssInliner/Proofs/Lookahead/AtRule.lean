import CssInliner.Grammar.AtRule
import CssInliner.Proofs.Lookahead.Declaration

/-!
Rules and the headers of groups do not mind what is appended, with one exception:
`@custom-media` takes a name up to a blank, over braces and semicolons. Where it
does so in vain, no other at rule is found either, and what is read is a style
rule whose first selector begins with an at sign.
-/

namespace CssInliner.Grammar

open CssInliner.Parser

theorem not_bound_of_identifierChar {c : Char} (hc : isBound c = true) :
    Text.isIdentifierChar c = false := by
  simp only [isBound, Bool.or_eq_true, decide_eq_true_eq] at hc
  rcases hc with (rfl | rfl) | rfl <;> decide

theorem not_identifierChar_of_layout {c : Char} (hc : Text.isLayout c = true) :
    Text.isIdentifierChar c = false := by
  simp only [Text.isLayout, Bool.or_eq_true, decide_eq_true_eq] at hc
  rcases hc with ((rfl | rfl) | rfl) | rfl <;> decide

section keyword

theorem atKeyword_eq_matched {t keyword r : Text} :
    atKeyword t = .matched keyword r ↔
      t = '@' :: (keyword ++ r) ∧ (∀ c ∈ keyword, Text.isIdentifierChar c = true) ∧
        ∀ c, r.head? = some c → Text.isIdentifierChar c = false := by
  refine bind_eq_matched.trans ?_
  constructor
  · rintro ⟨a, m, hat, hkeyword⟩
    obtain rfl := literal_eq_matched.1 hat
    obtain ⟨rfl, hin, hout⟩ := takeWhile_eq_matched.1 hkeyword
    exact ⟨rfl, hin, hout⟩
  · rintro ⟨rfl, hin, hout⟩
    exact ⟨(), keyword ++ r, literal_eq_matched.2 rfl,
      takeWhile_eq_matched.2 ⟨rfl, hin, hout⟩⟩

theorem steadyInside_atKeyword : atKeyword.SteadyInside :=
  (steady_literal _).inside.bind fun _ => steadyInside_takeWhile _

theorem refusesSteadily_atKeyword : atKeyword.RefusesSteadily :=
  (refusesSteadily_char rfl).bind_insists fun _ => insists_takeWhile _

theorem sparesBounds_atKeyword : atKeyword.SparesBounds :=
  (sparesBounds_char rfl).bind fun _ =>
    sparesBounds_takeWhile fun _ => not_bound_of_identifierChar

theorem vendored_eq_matched {base t r : Text} {vendor : Option Text} :
    vendored base t = .matched vendor r ↔
      ∃ keyword lead, atKeyword t = .matched keyword r ∧
        Text.dropTail? base keyword = some lead ∧ lead.nonempty? = vendor := by
  refine bind_eq_matched.trans ?_
  constructor
  · rintro ⟨keyword, m, hkeyword, h⟩
    cases hlead : Text.dropTail? base keyword with
    | none => simp [hlead, Parser.mismatch] at h
    | some lead =>
        simp only [hlead] at h
        obtain ⟨rfl, rfl⟩ := Outcome.matched.inj h
        exact ⟨keyword, lead, hkeyword, hlead, rfl⟩
  · rintro ⟨keyword, lead, hkeyword, hlead, rfl⟩
    exact ⟨keyword, r, hkeyword, by simp [hlead]⟩

theorem vendored_eq_mismatch {base t keyword r : Text}
    (hkeyword : atKeyword t = .matched keyword r) (h : Text.dropTail? base keyword = none) :
    vendored base t = .mismatch := by
  refine bind_eq_mismatch.2 (.inr ⟨keyword, r, hkeyword, ?_⟩)
  rw [h]
  rfl

theorem steadyInside_vendored (base : Text) : (vendored base).SteadyInside := by
  refine steadyInside_atKeyword.bind fun keyword => ?_
  cases Text.dropTail? base keyword with
  | none => exact steady_mismatch.inside
  | some lead => exact (steady_pure _).inside

theorem refusesSteadily_vendored (base : Text) : (vendored base).RefusesSteadily := by
  refine refusesSteadily_atKeyword.bind steadyInside_atKeyword sparesBounds_atKeyword
    fun keyword => ?_
  cases Text.dropTail? base keyword with
  | none => exact refusesSteadily_mismatch
  | some lead => exact (insists_pure _).refusesSteadily

theorem sparesBounds_vendored (base : Text) : (vendored base).SparesBounds := by
  intro t vendor r h ht
  obtain ⟨keyword, lead, hkeyword, -, -⟩ := vendored_eq_matched.1 h
  exact sparesBounds_atKeyword hkeyword ht

end keyword

theorem closes_keyframes : keyframes.Closes :=
  (steadyInside_vendored _).bind_closes fun _ => steadyInside_layout.bind_closes fun _ =>
    ((steadyInside_takeWhile1 _).require _).bind_closes fun _ =>
      steadyInside_layout.bind_closes fun _ =>
        (steadyInside_openBrace.require _).bind_closes fun _ =>
          steadyInside_comments.bind_closes fun _ =>
            (steadyInside_keyframeItem.many refusesSteadily_keyframeItem _).bind_closes fun _ =>
              (closes_closeBrace.require _).bind fun _ => steady_pure _

theorem refusesSteadily_keyframes : keyframes.RefusesSteadily :=
  (refusesSteadily_vendored _).bind_insists fun _ => insists_layout.bind fun _ =>
    (insists_require _ _).bind fun _ => insists_layout.bind fun _ =>
      (insists_require _ _).bind fun _ => insists_comments.bind fun _ =>
        (insists_many _).bind fun _ => (insists_require _ _).bind fun _ => insists_pure _

section groups

theorem steadyInside_blockHeader : blockHeader.SteadyInside :=
  (steadyInside_takeWhile _).bind fun _ => (steadyInside_takeWhile1 _).bind fun _ =>
    (steady_pure _).inside

theorem refusesSteadily_blockHeader : blockHeader.RefusesSteadily := by
  refine (insists_takeWhile _).refusesSteadily.bind (steadyInside_takeWhile _)
    (sparesBounds_takeWhile fun c hc => ?_) fun _ =>
      (refusesSteadily_takeWhile1 _).bind_insists fun _ => insists_pure _
  refine decide_eq_false ?_
  rintro rfl
  contradiction

theorem steadyInside_supportsHeader : supportsHeader.SteadyInside :=
  (steady_literal _).inside.bind fun _ => steadyInside_blockHeader.bind fun _ =>
    (steady_pure _).inside

theorem refusesSteadily_supportsHeader : supportsHeader.RefusesSteadily :=
  (refusesSteadily_literal rfl).bind (steady_literal _).inside
    (sparesBounds_literal rfl) fun _ =>
      refusesSteadily_blockHeader.bind_insists fun _ => insists_pure _

theorem steadyInside_hostHeader : hostHeader.SteadyInside :=
  (steady_literal _).inside.bind fun _ => steadyInside_layout.bind fun _ =>
    (steady_pure _).inside

theorem refusesSteadily_hostHeader : hostHeader.RefusesSteadily :=
  (refusesSteadily_literal rfl).bind_insists fun _ => insists_layout.bind fun _ =>
    insists_pure _

theorem steadyInside_mediaHeader : mediaHeader.SteadyInside :=
  (steady_literal _).inside.bind fun _ => steadyInside_blockHeader.bind fun _ =>
    (steady_pure _).inside

theorem refusesSteadily_mediaHeader : mediaHeader.RefusesSteadily :=
  (refusesSteadily_literal rfl).bind (steady_literal _).inside
    (sparesBounds_literal rfl) fun _ =>
      refusesSteadily_blockHeader.bind_insists fun _ => insists_pure _

theorem steadyInside_documentHeader : documentHeader.SteadyInside :=
  (steadyInside_vendored _).bind fun _ => steadyInside_blockHeader.bind fun _ =>
    (steady_pure _).inside

theorem refusesSteadily_documentHeader : documentHeader.RefusesSteadily :=
  (refusesSteadily_vendored _).bind (steadyInside_vendored _) (sparesBounds_vendored _)
    fun _ => refusesSteadily_blockHeader.bind_insists fun _ => insists_pure _

end groups

theorem closes_customMedia : customMedia.Closes :=
  (steady_literal _).inside.bind_closes fun _ => (steadyInside_takeWhile1 _).bind_closes fun _ =>
    ((steady_literal _).inside.bind fun _ => (steadyInside_takeWhile1 _).bind fun _ =>
      (steady_pure _).inside).bind_closes fun _ => steadyInside_layout.bind_closes fun _ =>
        (steadyInside_takeWhile1 _).bind_closes fun _ =>
          (closes_char rfl).bind fun _ => steady_pure _

theorem closes_page : page.Closes :=
  (steady_literal _).inside.bind_closes fun _ => (steadyInside_takeWhile _).bind_closes fun _ =>
    steadyInside_selectorList.bind_closes fun _ =>
      closes_declarationBlock.bind fun _ => steady_pure _

theorem refusesSteadily_page : page.RefusesSteadily :=
  (refusesSteadily_literal rfl).bind_insists fun _ => (insists_takeWhile _).bind fun _ =>
    insists_selectorList.bind fun _ => insists_declarationBlock.bind fun _ => insists_pure _

theorem closes_fontFace : fontFace.Closes :=
  (steady_literal _).inside.bind_closes fun _ => steadyInside_layout.bind_closes fun _ =>
    closes_declarationBlock.bind fun _ => steady_pure _

theorem refusesSteadily_fontFace : fontFace.RefusesSteadily :=
  (refusesSteadily_literal rfl).bind_insists fun _ => insists_layout.bind fun _ =>
    insists_declarationBlock.bind fun _ => insists_pure _

theorem closes_statement : statement.Closes := by
  refine steadyInside_atKeyword.bind_closes fun keyword => ?_
  cases StatementKind.ofKeyword? keyword with
  | none => exact closes_mismatch
  | some kind =>
      exact steadyInside_layout.bind_closes fun _ => (steadyInside_takeWhile1 _).bind_closes
        fun _ => (closes_char rfl).bind fun _ => steady_pure _

section keyword

variable {t keyword r : Text}

/-- A mark of name characters is read off the keyword alone. -/
theorem literal_eq_mismatch_of_keyword (hkeyword : atKeyword t = .matched keyword r)
    {mark : Text} (hmark : mark.all Text.isIdentifierChar = true)
    (h : mark.isPrefixOf keyword = false) : literal ('@' :: mark) t = .mismatch := by
  rw [Bool.eq_false_iff, Ne, List.isPrefixOf_iff_prefix] at h
  obtain ⟨rfl, -, hout⟩ := atKeyword_eq_matched.1 hkeyword
  rw [literal_eq_mismatch]
  intro hlead
  have hlead : mark <+: keyword ++ r := (List.cons_prefix_cons.1 hlead).2
  rcases List.prefix_or_prefix_of_prefix hlead (List.prefix_append keyword r) with hin | ⟨x, rfl⟩
  · exact h hin
  · -- the rest of the mark stands behind the keyword, where no name character is
    rw [List.prefix_append_right_inj] at hlead
    cases x with
    | nil => exact h (by simp)
    | cons c x =>
        obtain ⟨y, rfl⟩ := hlead
        have := hout c rfl
        rw [List.all_eq_true.1 hmark c (by simp)] at this
        contradiction

theorem keyframes_eq_mismatch (hkeyword : atKeyword t = .matched keyword r)
    (h : Text.dropTail? "keyframes".toList keyword = none) : keyframes t = .mismatch :=
  bind_eq_mismatch.2 (.inl (vendored_eq_mismatch hkeyword h))

theorem supportsHeader_eq_mismatch (hkeyword : atKeyword t = .matched keyword r)
    (h : "supports".toList.isPrefixOf keyword = false) : supportsHeader t = .mismatch :=
  bind_eq_mismatch.2 (.inl (literal_eq_mismatch_of_keyword hkeyword rfl h))

theorem hostHeader_eq_mismatch (hkeyword : atKeyword t = .matched keyword r)
    (h : "host".toList.isPrefixOf keyword = false) : hostHeader t = .mismatch :=
  bind_eq_mismatch.2 (.inl (literal_eq_mismatch_of_keyword hkeyword rfl h))

theorem mediaHeader_eq_mismatch (hkeyword : atKeyword t = .matched keyword r)
    (h : "media".toList.isPrefixOf keyword = false) : mediaHeader t = .mismatch :=
  bind_eq_mismatch.2 (.inl (literal_eq_mismatch_of_keyword hkeyword rfl h))

theorem customMedia_eq_mismatch (hkeyword : atKeyword t = .matched keyword r)
    (h : "custom-media".toList.isPrefixOf keyword = false) : customMedia t = .mismatch :=
  bind_eq_mismatch.2 (.inl (literal_eq_mismatch_of_keyword hkeyword rfl h))

theorem page_eq_mismatch (hkeyword : atKeyword t = .matched keyword r)
    (h : "page".toList.isPrefixOf keyword = false) : page t = .mismatch :=
  bind_eq_mismatch.2 (.inl (literal_eq_mismatch_of_keyword hkeyword rfl h))

theorem documentHeader_eq_mismatch (hkeyword : atKeyword t = .matched keyword r)
    (h : Text.dropTail? "document".toList keyword = none) : documentHeader t = .mismatch :=
  bind_eq_mismatch.2 (.inl (vendored_eq_mismatch hkeyword h))

theorem fontFace_eq_mismatch (hkeyword : atKeyword t = .matched keyword r)
    (h : "font-face".toList.isPrefixOf keyword = false) : fontFace t = .mismatch :=
  bind_eq_mismatch.2 (.inl (literal_eq_mismatch_of_keyword hkeyword rfl h))

theorem statement_eq_mismatch (hkeyword : atKeyword t = .matched keyword r)
    (h : StatementKind.ofKeyword? keyword = none) : statement t = .mismatch := by
  refine bind_eq_mismatch.2 (.inr ⟨keyword, r, hkeyword, ?_⟩)
  rw [h]
  rfl

end keyword

/-- The at rules that are tried behind `@custom-media`. -/
def laterAtItem : Parser Item :=
  (whole page).orElse <| documentHeader.orElse <| (whole fontFace).orElse <| whole statement

/-- The keyword of none of the at rules that are tried up to `@custom-media`. -/
structure KeywordPasses (keyword : Text) : Prop where
  keyframes : Text.dropTail? "keyframes".toList keyword = none
  supports : "supports".toList.isPrefixOf keyword = false
  host : "host".toList.isPrefixOf keyword = false
  media : "media".toList.isPrefixOf keyword = false
  customMedia : "custom-media".toList.isPrefixOf keyword = false

theorem whole_eq_mismatch {p : Parser Rule} {t : Text} :
    whole p t = .mismatch ↔ p t = .mismatch := by
  refine bind_eq_mismatch.trans ?_
  simp

theorem whole_eq_matched {p : Parser Rule} {t r : Text} {i : Item} :
    whole p t = .matched i r ↔ ∃ rule, i = .rule rule ∧ p t = .matched rule r := by
  refine bind_eq_matched.trans ?_
  constructor
  · rintro ⟨rule, m, hp, h⟩
    obtain ⟨rfl, rfl⟩ := Outcome.matched.inj h
    exact ⟨rule, rfl, hp⟩
  · rintro ⟨rule, rfl, hp⟩
    exact ⟨rule, r, hp, rfl⟩

theorem knownAtItem_eq_laterAtItem {t keyword r : Text}
    (hkeyword : atKeyword t = .matched keyword r) (h : KeywordPasses keyword) :
    knownAtItem t = laterAtItem t := by
  unfold knownAtItem laterAtItem
  rw [orElse_of_mismatch (whole_eq_mismatch.2 (keyframes_eq_mismatch hkeyword h.keyframes)),
    orElse_of_mismatch (supportsHeader_eq_mismatch hkeyword h.supports),
    orElse_of_mismatch (hostHeader_eq_mismatch hkeyword h.host),
    orElse_of_mismatch (mediaHeader_eq_mismatch hkeyword h.media),
    orElse_of_mismatch (whole_eq_mismatch.2 (customMedia_eq_mismatch hkeyword h.customMedia))]

/-- Where `@custom-media` is given up because of what is behind it, it is the
whole keyword. -/
theorem customMedia_eq_mismatch_append {t : Text} (h : customMedia t = .mismatch)
    (ht : t.Bounded) :
    (∀ u, customMedia (t ++ u) = .mismatch) ∨
      ∃ r, atKeyword t = .matched "custom-media".toList r := by
  rcases bind_eq_mismatch.1 h with hmark | ⟨a, m, hmark, h⟩
  · left
    intro u
    exact bind_eq_mismatch.2 (.inl (refusesSteadily_literal rfl hmark ht u))
  rcases bind_eq_mismatch.1 h with hblank | ⟨blank, n, hblank, h⟩
  · left
    intro u
    have hm := sparesBounds_literal rfl hmark ht
    refine bind_eq_mismatch.2 (.inr ⟨a, m ++ u, (steady_literal _).append hmark u, ?_⟩)
    exact bind_eq_mismatch.2 (.inl (refusesSteadily_takeWhile1 _ hblank hm u))
  · right
    obtain rfl := literal_eq_matched.1 hmark
    obtain ⟨hne, hblank⟩ := takeWhile1_eq_matched.1 hblank
    obtain ⟨rfl, hin, -⟩ := takeWhile_eq_matched.1 hblank
    obtain ⟨c, blank, rfl⟩ := List.exists_cons_of_ne_nil hne
    refine ⟨_, atKeyword_eq_matched.2 ⟨rfl, List.all_eq_true.1 rfl, ?_⟩⟩
    intro d hd
    obtain rfl : c = d := by simpa using hd
    exact not_identifierChar_of_layout (hin c List.mem_cons_self)

theorem laterAtItem_eq_mismatch {t r : Text}
    (hkeyword : atKeyword t = .matched "custom-media".toList r) : laterAtItem t = .mismatch := by
  have hpage := page_eq_mismatch hkeyword rfl
  have hdocument := documentHeader_eq_mismatch hkeyword rfl
  have hfontFace := fontFace_eq_mismatch hkeyword rfl
  have hstatement := statement_eq_mismatch hkeyword rfl
  refine orElse_eq_mismatch.2 ⟨whole_eq_mismatch.2 hpage, ?_⟩
  refine orElse_eq_mismatch.2 ⟨hdocument, ?_⟩
  exact orElse_eq_mismatch.2 ⟨whole_eq_mismatch.2 hfontFace, whole_eq_mismatch.2 hstatement⟩

/-- An item is settled with its own text if it is a rule, and otherwise with the
text up to the next bound. -/
def SettlesItems (p : Parser Item) : Prop :=
  ∀ ⦃t i r⦄, p t = .matched i r → (∀ kind header, i = .groupHeader kind header → r.Bounded) →
    t.Bounded ∧ ∀ u, p (t ++ u) = .matched i (r ++ u)

theorem settlesItems_whole {p : Parser Rule} (hp : p.Closes) : SettlesItems (whole p) := by
  intro t i r h hr
  obtain ⟨rule, rfl, hrule⟩ := whole_eq_matched.1 h
  refine ⟨hp.bounded hrule, fun u => ?_⟩
  exact whole_eq_matched.2 ⟨rule, rfl, hp.append hrule u⟩

theorem settlesItems_header {p : Parser Item} (hp : p.SteadyInside)
    (hheader : p.Yields fun i => ∃ kind header, i = .groupHeader kind header) :
    SettlesItems p := by
  intro t i r h hr
  obtain ⟨kind, header, rfl⟩ := hheader h
  have hrest : r.Bounded := hr kind header rfl
  exact ⟨hrest.of_suffix (suffix_of_matched hp.walks h), hp.append h hrest⟩

theorem SettlesItems.orElse {p q : Parser Item} (hp : SettlesItems p)
    (hrefuse : p.RefusesSteadily) (hq : SettlesItems q) : SettlesItems (p.orElse q) := by
  intro t i r h hr
  rcases orElse_eq_matched.1 h with hpt | ⟨hpt, hqt⟩
  · obtain ⟨ht, happ⟩ := hp hpt hr
    exact ⟨ht, fun u => orElse_eq_matched.2 (.inl (happ u))⟩
  · obtain ⟨ht, happ⟩ := hq hqt hr
    exact ⟨ht, fun u => orElse_eq_matched.2 (.inr ⟨hrefuse hpt ht u, happ u⟩)⟩

theorem yields_supportsHeader :
    supportsHeader.Yields fun i => ∃ kind header, i = .groupHeader kind header :=
  yields_of_next fun _ => yields_of_next fun _ => yields_pure ⟨_, _, rfl⟩

theorem yields_hostHeader :
    hostHeader.Yields fun i => ∃ kind header, i = .groupHeader kind header :=
  yields_of_next fun _ => yields_of_next fun _ => yields_pure ⟨_, _, rfl⟩

theorem yields_mediaHeader :
    mediaHeader.Yields fun i => ∃ kind header, i = .groupHeader kind header :=
  yields_of_next fun _ => yields_of_next fun _ => yields_pure ⟨_, _, rfl⟩

theorem yields_documentHeader :
    documentHeader.Yields fun i => ∃ kind header, i = .groupHeader kind header :=
  yields_of_next fun _ => yields_of_next fun _ => yields_pure ⟨_, _, rfl⟩

theorem settlesItems_supportsHeader : SettlesItems supportsHeader :=
  settlesItems_header steadyInside_supportsHeader yields_supportsHeader

theorem settlesItems_hostHeader : SettlesItems hostHeader :=
  settlesItems_header steadyInside_hostHeader yields_hostHeader

theorem settlesItems_mediaHeader : SettlesItems mediaHeader :=
  settlesItems_header steadyInside_mediaHeader yields_mediaHeader

theorem settlesItems_documentHeader : SettlesItems documentHeader :=
  settlesItems_header steadyInside_documentHeader yields_documentHeader

theorem refusesSteadily_whole {p : Parser Rule} (hp : p.RefusesSteadily) :
    (whole p).RefusesSteadily :=
  hp.bind_insists fun _ => insists_pure _

theorem settlesItems_laterAtItem : SettlesItems laterAtItem :=
  (settlesItems_whole closes_page).orElse (refusesSteadily_whole refusesSteadily_page) <|
    settlesItems_documentHeader.orElse refusesSteadily_documentHeader <|
      (settlesItems_whole closes_fontFace).orElse (refusesSteadily_whole refusesSteadily_fontFace)
        (settlesItems_whole closes_statement)

theorem settlesItems_customMedia_orElse :
    SettlesItems ((whole customMedia).orElse laterAtItem) := by
  intro t i r h hr
  rcases orElse_eq_matched.1 h with hfirst | ⟨hfirst, hlater⟩
  · obtain ⟨ht, happ⟩ := settlesItems_whole closes_customMedia hfirst hr
    exact ⟨ht, fun u => orElse_eq_matched.2 (.inl (happ u))⟩
  · obtain ⟨ht, happ⟩ := settlesItems_laterAtItem hlater hr
    -- where more text could make it match, no later at rule has this keyword
    rcases customMedia_eq_mismatch_append (whole_eq_mismatch.1 hfirst) ht with hrefuse | ⟨m, hkey⟩
    · exact ⟨ht, fun u => orElse_eq_matched.2 (.inr ⟨whole_eq_mismatch.2 (hrefuse u), happ u⟩)⟩
    · rw [laterAtItem_eq_mismatch hkey] at hlater
      contradiction

theorem settlesItems_knownAtItem : SettlesItems knownAtItem :=
  (settlesItems_whole closes_keyframes).orElse (refusesSteadily_whole refusesSteadily_keyframes) <|
    settlesItems_supportsHeader.orElse refusesSteadily_supportsHeader <|
      settlesItems_hostHeader.orElse refusesSteadily_hostHeader <|
        settlesItems_mediaHeader.orElse refusesSteadily_mediaHeader
          settlesItems_customMedia_orElse

theorem settlesItems_atItem : SettlesItems atItem := by
  intro t i r h hr
  obtain ⟨blank, m, hblank, hitem⟩ := bind_eq_matched.1 h
  obtain ⟨hm, happ⟩ := settlesItems_knownAtItem hitem hr
  refine ⟨hm.of_suffix (suffix_of_matched walks_layout hblank), fun u => ?_⟩
  exact bind_eq_matched.2 ⟨blank, m ++ u, steadyInside_layout.append hblank hm u, happ u⟩

theorem knownAtItem_eq_mismatch {t : Text} (h : t.head? ≠ some '@') :
    knownAtItem t = .mismatch := by
  have hmark : ∀ mark, literal ('@' :: mark) t = .mismatch := by
    intro mark
    rw [literal_eq_mismatch]
    rintro ⟨x, rfl⟩
    exact h rfl
  have hkeyword : atKeyword t = .mismatch := bind_eq_mismatch.2 (.inl (hmark []))
  have hvendored : ∀ base, vendored base t = .mismatch :=
    fun base => bind_eq_mismatch.2 (.inl hkeyword)
  refine orElse_eq_mismatch.2 ⟨whole_eq_mismatch.2 (bind_eq_mismatch.2 (.inl (hvendored _))), ?_⟩
  refine orElse_eq_mismatch.2 ⟨bind_eq_mismatch.2 (.inl (hmark _)), ?_⟩
  refine orElse_eq_mismatch.2 ⟨bind_eq_mismatch.2 (.inl (hmark _)), ?_⟩
  refine orElse_eq_mismatch.2 ⟨bind_eq_mismatch.2 (.inl (hmark _)), ?_⟩
  refine orElse_eq_mismatch.2 ⟨whole_eq_mismatch.2 (bind_eq_mismatch.2 (.inl (hmark _))), ?_⟩
  refine orElse_eq_mismatch.2 ⟨whole_eq_mismatch.2 (bind_eq_mismatch.2 (.inl (hmark _))), ?_⟩
  refine orElse_eq_mismatch.2 ⟨bind_eq_mismatch.2 (.inl (hvendored _)), ?_⟩
  exact orElse_eq_mismatch.2 ⟨whole_eq_mismatch.2 (bind_eq_mismatch.2 (.inl (hmark _))),
    whole_eq_mismatch.2 (bind_eq_mismatch.2 (.inl hkeyword))⟩

theorem styleRule_eq_matched {t r : Text} {rule : Rule} :
    styleRule t = .matched rule r ↔
      ∃ selectors m ds, selectorList t = .matched selectors m ∧ selectors ≠ [] ∧
        declarationBlock m = .matched ds r ∧ rule = .style selectors ds := by
  constructor
  · intro h
    obtain ⟨selectors, m, hsel, h⟩ := bind_eq_matched.1 h
    cases selectors with
    | nil => contradiction
    | cons s ss =>
        obtain ⟨ds, n, hblock, h⟩ := bind_eq_matched.1 h
        obtain ⟨rfl, rfl⟩ := Outcome.matched.inj h
        exact ⟨s :: ss, m, ds, hsel, by simp, hblock, rfl⟩
  · rintro ⟨selectors, m, ds, hsel, hne, hblock, rfl⟩
    refine bind_eq_matched.2 ⟨selectors, m, hsel, ?_⟩
    cases selectors with
    | nil => contradiction
    | cons s ss => exact bind_eq_matched.2 ⟨ds, r, hblock, rfl⟩

theorem closes_styleRule : styleRule.Closes := by
  refine ⟨⟨advances_styleRule.walks, ?_⟩, ?_⟩
  · intro t rule r h u
    obtain ⟨selectors, m, ds, hsel, hne, hblock, rfl⟩ := styleRule_eq_matched.1 h
    have hm := closes_declarationBlock.bounded hblock
    exact styleRule_eq_matched.2 ⟨selectors, m ++ u, ds, steadyInside_selectorList.append hsel hm u,
      hne, closes_declarationBlock.append hblock u, rfl⟩
  · intro t rule r h
    obtain ⟨selectors, m, ds, hsel, -, hblock, -⟩ := styleRule_eq_matched.1 h
    exact (closes_declarationBlock.bounded hblock).of_suffix
      (suffix_of_matched walks_selectorList hsel)

end CssInliner.Grammar
