import CssInliner.Proofs.Printing.Block

/-!
Printed rules and headers of groups are read back as items. Of an at rule the
keyword decides: every alternative tried before the right one asks for another
keyword.
-/

namespace CssInliner

namespace Grammar

open CssInliner.Parser

theorem item_of_knownAtItem {t r : Text} {i : Item}
    (h : knownAtItem ('@' :: t) = .matched i r) : item ('@' :: t) = .matched i r :=
  orElse_eq_matched.2 (.inl ((atItem_at t).trans h))

section selectors

variable {separator u : Text} {selectors : List Text}

theorem head_of_selectorsPrintable (h : SelectorsPrintable separator selectors) :
    ∃ c s ss, selectors = (c :: s) :: ss ∧ Text.isBlank c = false := by
  obtain ⟨hne, hread⟩ := h
  obtain ⟨blank, m, -, -, hsplit, -⟩ := selectorList_eq_matched.1 hread
  obtain ⟨s, ss, rfl⟩ := List.exists_cons_of_ne_nil hne
  have hmem : s ∈ splitSelectors (stripComments (untilBlock m).1.trim) := by
    rw [hsplit]
    exact List.mem_cons_self
  obtain ⟨hs, htrim⟩ := of_mem_splitSelectors hmem
  obtain ⟨c, s, rfl⟩ := List.exists_cons_of_ne_nil hs
  exact ⟨c, s, ss, rfl, Text.isBlank_of_trim_eq_cons htrim⟩

theorem join_cons (separator : Text) (c : Char) (s : Text) (ss : List Text) :
    ∃ r, Text.join separator ((c :: s) :: ss) = c :: r := by
  cases ss with
  | nil => exact ⟨s, rfl⟩
  | cons s' ss => exact ⟨s ++ separator ++ Text.join separator (s' :: ss), by simp [Text.join]⟩

theorem selectorList_join (h : SelectorsPrintable separator selectors) (u : Text) :
    selectorList (Text.join separator selectors ++ '\x7b' :: u) =
      .matched selectors ('\x7b' :: u) := by
  have := steadyInside_selectorList.append h.2 (.cons_bound rfl []) u
  rwa [List.append_assoc] at this

/-- The joined selectors are all there is before the brace. -/
theorem splitSelectors_join (h : SelectorsPrintable [','] selectors) :
    (Text.join [','] selectors).head? ≠ some '\x7d' ∧
      splitSelectors (stripComments (Text.join [','] selectors).trim) = selectors := by
  obtain ⟨c, s, ss, hselectors, hc⟩ := head_of_selectorsPrintable h
  obtain ⟨r, hjoin⟩ := join_cons [','] c s ss
  rw [← hselectors] at hjoin
  obtain ⟨blank, m, hblank, hhead, hsplit, hrest⟩ := selectorList_eq_matched.1 h.2
  have hlayout : layout (Text.join [','] selectors ++ ['\x7b']) =
      .matched [] (Text.join [','] selectors ++ ['\x7b']) := by
    refine takeWhile_eq_matched.2 ⟨rfl, by simp, ?_⟩
    rw [hjoin]
    simpa using Text.isLayout_eq_false hc
  rw [hlayout] at hblank
  obtain ⟨-, rfl⟩ := Outcome.matched.inj hblank
  have hcut := untilBlock_append (Text.join [','] selectors ++ ['\x7b'])
  rw [hrest] at hcut
  rw [List.append_cancel_right hcut] at hsplit
  rw [hjoin] at hhead ⊢
  exact ⟨hhead, by rwa [← hjoin]⟩

theorem plain_selectors (h : SelectorsPrintable [','] selectors) (u : Text) :
    Plain (Text.join [','] selectors ++ '\x7b' :: u) := by
  obtain ⟨c, s, ss, hselectors, hc⟩ := head_of_selectorsPrintable h
  obtain ⟨r, hjoin⟩ := join_cons [','] c s ss
  rw [← hselectors] at hjoin
  refine ⟨⟨c, r ++ '\x7b' :: u, by rw [hjoin]; rfl, hc⟩, fun hopen => ?_⟩
  -- a comment would be stripped, and too little would be left to be split
  obtain ⟨r, rfl⟩ : ∃ r', r = '*' :: r' := by
    rw [hjoin, commentOpen_eq] at hopen
    have hstar := (List.cons_prefix_cons.1 hopen).2
    cases r with
    | nil => simp at hstar
    | cons e r => exact ⟨r, by rw [(List.cons_prefix_cons.1 hstar).1]⟩
  obtain rfl : c = '/' := by
    rw [hjoin, commentOpen_eq] at hopen
    exact (List.cons_prefix_cons.1 hopen).1.symm
  have htrim : (Text.join [','] selectors).trim = commentOpen ++ Text.trimEnd r := by
    rw [hjoin, Text.trim_cons hc, Text.trimEnd_cons rfl]
    rfl
  have hlt : (stripComments (Text.join [','] selectors).trim).weight <
      (Text.join [','] selectors).trim.weight :=
    weight_stripComments_lt ⟨Text.trimEnd r, htrim.symm⟩
  have hle : (Text.join [','] selectors).weight ≤
      (stripComments (Text.join [','] selectors).trim).weight := by
    have := weight_splitSelectors_le (stripComments (Text.join [','] selectors).trim)
    have hcomma : Text.weight [','] = 0 := rfl
    rwa [(splitSelectors_join h).2, ← Text.weight_join hcomma] at this
  have := Text.weight_trim_le (Text.join [','] selectors)
  omega

theorem item_style {ds : List Declaration} (h : SelectorsPrintable [','] selectors)
    (hled : ledByAt selectors = false) (hds : BlockPrintable ds) (u : Text) :
    item (Text.join [','] selectors ++ (renderBlock ds ++ u)) =
      .matched (.rule (.style selectors ds)) u := by
  obtain ⟨c, s, ss, hselectors, hc⟩ := head_of_selectorsPrintable h
  obtain ⟨r, hjoin⟩ := join_cons [','] c s ss
  rw [← hselectors] at hjoin
  have hat : c ≠ '@' := by
    rintro rfl
    rw [hselectors] at hled
    contradiction
  have hitem : atItem (Text.join [','] selectors ++ (renderBlock ds ++ u)) = .mismatch := by
    refine bind_eq_mismatch.2 (.inr ⟨[], _, (plain_selectors h _).layout_eq, ?_⟩)
    apply knownAtItem_eq_mismatch
    rw [hjoin]
    simpa using hat
  refine orElse_eq_matched.2 (.inr ⟨hitem, whole_eq_matched.2 ⟨_, rfl, ?_⟩⟩)
  exact styleRule_eq_matched.2 ⟨selectors, _, ds, selectorList_join h _, h.1,
    declarationBlock_renderBlock hds u, rfl⟩

end selectors

section captures

variable {ends : List Char} {t : Text}

/-- Begins with no blank, so that nothing of it is skipped, and holds none of what ends it. -/
structure Captured (ends : List Char) (t : Text) : Prop where
  lead : ∃ c r, t = c :: r ∧ Text.isBlank c = false
  free : ∀ c ∈ ends, c ∉ t

theorem captured_of_printable (h : CapturePrintable ends t) : Captured ends t := by
  obtain ⟨c, r, rfl⟩ := List.exists_cons_of_ne_nil h.ne_nil
  exact ⟨⟨c, r, rfl, Text.isBlank_of_trim_eq_cons h.trimmed⟩, h.free⟩

theorem takeWhile_space (h : Captured ends t) {test : Char → Bool}
    (hspace : test ' ' = true) (htest : ∀ c, Text.isBlank c = false → test c = false) (u : Text) :
    takeWhile test (' ' :: (t ++ u)) = .matched [' '] (t ++ u) := by
  obtain ⟨c, r, rfl, hc⟩ := h.lead
  refine takeWhile_eq_matched.2 ⟨rfl, by simpa using hspace, ?_⟩
  simpa using htest c hc

theorem takeWhile1_capture (h : Captured ends t) {test : Char → Bool} {stop : Char}
    (htest : ∀ c, c ∉ ends → test c = true) (hstop : test stop = false) (u : Text) :
    takeWhile1 test (t ++ stop :: u) = .matched t (stop :: u) := by
  have hne : t ≠ [] := by
    obtain ⟨c, r, rfl, -⟩ := h.lead
    simp
  refine takeWhile1_eq_matched.2 ⟨hne, takeWhile_eq_matched.2 ⟨rfl, ?_, by simpa using hstop⟩⟩
  intro c hc
  exact htest c fun hends => h.free c hends hc

theorem blockHeader_capture (h : Captured ['\x7b'] t) (u : Text) :
    blockHeader (' ' :: (t ++ '\x7b' :: u)) = .matched t.trim ('\x7b' :: u) := by
  have hspaces : spaces (' ' :: (t ++ '\x7b' :: u)) = .matched [' '] (t ++ '\x7b' :: u) := by
    refine takeWhile_space h rfl (fun c hc => ?_) _
    refine decide_eq_false ?_
    rintro rfl
    contradiction
  refine bind_eq_matched.2 ⟨[' '], _, hspaces, ?_⟩
  exact bind_eq_matched.2 ⟨t, _, takeWhile1_capture h (by simp) (by simp) u, rfl⟩

end captures

section keywords

theorem atKeyword_append (keyword : Text)
    (hkeyword : ∀ c ∈ keyword, Text.isIdentifierChar c = true) (c : Char)
    (hc : Text.isIdentifierChar c = false) (u : Text) :
    atKeyword ('@' :: (keyword ++ c :: u)) = .matched keyword (c :: u) :=
  atKeyword_eq_matched.2 ⟨rfl, hkeyword, by simpa using hc⟩

theorem literal_mark {mark keyword : Text} (hmark : mark = '@' :: keyword) (u : Text) :
    literal mark ('@' :: (keyword ++ u)) = .matched () u := by
  rw [literal_eq_matched, hmark, List.cons_append]

theorem item_supports {header : Text} (h : Captured ['\x7b'] header) (u : Text) :
    item ('@' :: ("supports".toList ++ ' ' :: (header ++ '\x7b' :: u))) =
      .matched (.groupHeader .supports header.trim) ('\x7b' :: u) := by
  have hkeyword := atKeyword_append "supports".toList (List.all_eq_true.1 rfl) ' ' rfl
    (header ++ '\x7b' :: u)
  apply item_of_knownAtItem
  rw [knownAtItem, orElse_of_mismatch
    (whole_eq_mismatch.2 (keyframes_eq_mismatch hkeyword rfl))]
  refine orElse_eq_matched.2 (.inl ?_)
  exact bind_eq_matched.2 ⟨(), _, literal_mark rfl _,
    bind_eq_matched.2 ⟨header.trim, _, blockHeader_capture h u, rfl⟩⟩

theorem item_host (u : Text) :
    item ('@' :: ("host".toList ++ '\x7b' :: u)) =
      .matched (.groupHeader .host []) ('\x7b' :: u) := by
  have hkeyword := atKeyword_append "host".toList (List.all_eq_true.1 rfl) '\x7b' rfl u
  apply item_of_knownAtItem
  rw [knownAtItem, orElse_of_mismatch
      (whole_eq_mismatch.2 (keyframes_eq_mismatch hkeyword rfl)),
    orElse_of_mismatch (supportsHeader_eq_mismatch hkeyword rfl)]
  refine orElse_eq_matched.2 (.inl ?_)
  exact bind_eq_matched.2 ⟨(), _, literal_mark rfl _,
    bind_eq_matched.2 ⟨[], _, (crisp_openBrace u).layout_eq, rfl⟩⟩

theorem item_media {header : Text} (h : Captured ['\x7b'] header) (u : Text) :
    item ('@' :: ("media".toList ++ ' ' :: (header ++ '\x7b' :: u))) =
      .matched (.groupHeader .media header.trim) ('\x7b' :: u) := by
  have hkeyword := atKeyword_append "media".toList (List.all_eq_true.1 rfl) ' ' rfl
    (header ++ '\x7b' :: u)
  apply item_of_knownAtItem
  rw [knownAtItem, orElse_of_mismatch
      (whole_eq_mismatch.2 (keyframes_eq_mismatch hkeyword rfl)),
    orElse_of_mismatch (supportsHeader_eq_mismatch hkeyword rfl),
    orElse_of_mismatch (hostHeader_eq_mismatch hkeyword rfl)]
  refine orElse_eq_matched.2 (.inl ?_)
  exact bind_eq_matched.2 ⟨(), _, literal_mark rfl _,
    bind_eq_matched.2 ⟨header.trim, _, blockHeader_capture h u, rfl⟩⟩

theorem item_customMedia {name media : Text} (hname : MediaNamePrintable name)
    (hmedia : CapturePrintable ['\x7b', ';'] media) (u : Text) :
    item ('@' :: ("custom-media".toList ++ ' ' :: (name ++ ' ' :: (media ++ ';' :: u)))) =
      .matched (.rule (.customMedia name media)) u := by
  have hkeyword := atKeyword_append "custom-media".toList (List.all_eq_true.1 rfl) ' ' rfl
    (name ++ ' ' :: (media ++ ';' :: u))
  apply item_of_knownAtItem
  rw [knownAtItem, orElse_of_mismatch
      (whole_eq_mismatch.2 (keyframes_eq_mismatch hkeyword rfl)),
    orElse_of_mismatch (supportsHeader_eq_mismatch hkeyword rfl),
    orElse_of_mismatch (hostHeader_eq_mismatch hkeyword rfl),
    orElse_of_mismatch (mediaHeader_eq_mismatch hkeyword rfl)]
  refine orElse_eq_matched.2 (.inl (whole_eq_matched.2 ⟨_, rfl, ?_⟩))
  obtain ⟨s, rfl, hne, hblank⟩ := hname
  have hspace : takeWhile1 Text.isLayout (' ' :: ("--".toList ++ s ++ ' ' :: (media ++ ';' :: u))) =
      .matched [' '] ("--".toList ++ s ++ ' ' :: (media ++ ';' :: u)) := rfl
  have hread : customMediaName ("--".toList ++ s ++ ' ' :: (media ++ ';' :: u)) =
      .matched ("--".toList ++ s) (' ' :: (media ++ ';' :: u)) := by
    refine bind_eq_matched.2 ⟨(), s ++ ' ' :: (media ++ ';' :: u), ?_, ?_⟩
    · rw [literal_eq_matched, List.append_assoc]
    · refine bind_eq_matched.2 ⟨s, _, takeWhile1_eq_matched.2 ⟨hne, ?_⟩, rfl⟩
      exact takeWhile_eq_matched.2 ⟨rfl, fun c hc => by simp [hblank c hc], by simp; decide⟩
  have hcaptured := captured_of_printable hmedia
  have hlayout : layout (' ' :: (media ++ ';' :: u)) = .matched [' '] (media ++ ';' :: u) :=
    takeWhile_space hcaptured rfl (fun c hc => Text.isLayout_eq_false hc) _
  refine bind_eq_matched.2 ⟨(), _, literal_mark rfl _, bind_eq_matched.2 ⟨_, _, hspace, ?_⟩⟩
  refine bind_eq_matched.2 ⟨_, _, hread, bind_eq_matched.2 ⟨_, _, hlayout, ?_⟩⟩
  refine bind_eq_matched.2 ⟨media, ';' :: u, takeWhile1_capture hcaptured ?_ rfl u, ?_⟩
  · simp
  · refine bind_eq_matched.2 ⟨(), u, literal_eq_matched.2 rfl, ?_⟩
    rw [hmedia.trimmed]
    rfl

theorem renderBlock_append (ds : List Declaration) (u : Text) :
    ∃ v, renderBlock ds ++ u = '\x7b' :: v :=
  ⟨Text.join [';'] (ds.map Declaration.render) ++ ['\x7d'] ++ u, by simp [renderBlock]⟩

theorem selectorList_openBrace (u : Text) :
    selectorList ('\x7b' :: u) = .matched [] ('\x7b' :: u) := by
  have huntil : untilBlock ('\x7b' :: u) = ([], '\x7b' :: u) :=
    Lexis.cut_bound rfl rfl rfl u
  have hnone : splitSelectors (stripComments (Text.trim [])) = [] := by
    have hstrip : stripComments (Text.trim []) = [] := by
      unfold stripComments
      rw [Lexis.pieces_eq]
      rfl
    rw [hstrip, splitSelectors, Lexis.pieces_eq]
    rfl
  refine selectorList_eq_matched.2 ⟨[], _, (crisp_openBrace u).layout_eq, by simp, ?_, ?_⟩
  · rw [huntil, hnone]
  · rw [huntil]

/-- A page rule may be printed without selectors, and then without a blank. -/
theorem selectorList_renderPageSelectors {selectors : List Text} {u : Text}
    (h : selectors = [] ∨ SelectorsPrintable ", ".toList selectors) (hu : ∃ v, u = '\x7b' :: v) :
    ∃ blank m, spaces (renderPageSelectors selectors ++ u) = .matched blank m ∧
      selectorList m = .matched selectors u := by
  obtain ⟨v, rfl⟩ := hu
  rcases h with rfl | h
  · exact ⟨[], _, rfl, selectorList_openBrace v⟩
  · obtain ⟨c, s, ss, hselectors, hc⟩ := head_of_selectorsPrintable h
    obtain ⟨r, hjoin⟩ := join_cons ", ".toList c s ss
    rw [← hselectors] at hjoin
    have htext : renderPageSelectors selectors ++ '\x7b' :: v =
        ' ' :: (Text.join ", ".toList selectors ++ '\x7b' :: v) := by
      rw [renderPageSelectors, hselectors]
      rfl
    refine ⟨[' '], _, ?_, selectorList_join h v⟩
    rw [htext]
    refine takeWhile_eq_matched.2 ⟨rfl, by simp, ?_⟩
    rw [hjoin]
    have hspace : c ≠ ' ' := by
      rintro rfl
      contradiction
    simpa using hspace

theorem item_page {selectors : List Text} {ds : List Declaration}
    (h : selectors = [] ∨ SelectorsPrintable ", ".toList selectors) (hds : BlockPrintable ds)
    (u : Text) :
    item ('@' :: ("page".toList ++ (renderPageSelectors selectors ++ (renderBlock ds ++ u)))) =
      .matched (.rule (.page selectors ds)) u := by
  obtain ⟨c, r, hrest, hc⟩ :
      ∃ c r, renderPageSelectors selectors ++ (renderBlock ds ++ u) = c :: r ∧
        Text.isIdentifierChar c = false := by
    rcases h with rfl | h
    · exact ⟨'\x7b', _, rfl, rfl⟩
    · obtain ⟨c, s, ss, rfl, -⟩ := head_of_selectorsPrintable h
      exact ⟨' ', _, rfl, rfl⟩
  obtain ⟨blank, m, hblank, hselectors⟩ :=
    selectorList_renderPageSelectors h (renderBlock_append ds u)
  have hkeyword := atKeyword_append "page".toList (List.all_eq_true.1 rfl) c hc r
  apply item_of_knownAtItem
  rw [hrest, knownAtItem_eq_laterAtItem hkeyword ⟨rfl, rfl, rfl, rfl, rfl⟩, ← hrest]
  refine orElse_eq_matched.2 (.inl (whole_eq_matched.2 ⟨_, rfl, ?_⟩))
  refine bind_eq_matched.2 ⟨(), _, literal_mark rfl _, bind_eq_matched.2 ⟨_, _, hblank, ?_⟩⟩
  refine bind_eq_matched.2 ⟨_, _, hselectors, ?_⟩
  exact bind_eq_matched.2 ⟨_, _, declarationBlock_renderBlock hds u, rfl⟩

theorem isIdentifierChar_vendored {vendor : Option Text} (hvendor : VendorPrintable vendor)
    {base : Text} (hbase : ∀ c ∈ base, Text.isIdentifierChar c = true) :
    ∀ c ∈ vendor.getD [] ++ base, Text.isIdentifierChar c = true := by
  intro c hc
  rcases List.mem_append.1 hc with hc | hc
  · cases vendor with
    | none => contradiction
    | some v => exact (hvendor v rfl).2 c hc
  · exact hbase c hc

theorem vendored_append {vendor : Option Text} (hvendor : VendorPrintable vendor) (base : Text)
    (hbase : ∀ c ∈ base, Text.isIdentifierChar c = true) (c : Char)
    (hc : Text.isIdentifierChar c = false) (u : Text) :
    vendored base ('@' :: (vendor.getD [] ++ base ++ c :: u)) = .matched vendor (c :: u) := by
  have hkeyword := isIdentifierChar_vendored hvendor hbase
  refine vendored_eq_matched.2 ⟨_, vendor.getD [], atKeyword_append _ hkeyword c hc u,
    Text.dropTail?_eq_some_iff.2 rfl, ?_⟩
  cases vendor with
  | none => rfl
  | some v =>
      obtain ⟨hhead, -⟩ := hvendor v rfl
      obtain ⟨w, rfl⟩ := List.head?_eq_some_iff.1 hhead
      rfl

/-- A vendor mark keeps every mark without a dash in front from the start. -/
theorem isPrefixOf_vendored {vendor : Option Text} (hvendor : VendorPrintable vendor)
    {mark base : Text} (hmark : (mark.head?.any fun c => c ≠ '-') = true)
    (hbase : mark.isPrefixOf base = false) :
    mark.isPrefixOf (vendor.getD [] ++ base) = false := by
  cases vendor with
  | none => exact hbase
  | some v =>
      obtain ⟨hhead, -⟩ := hvendor v rfl
      obtain ⟨w, rfl⟩ := List.head?_eq_some_iff.1 hhead
      cases mark with
      | nil => contradiction
      | cons c mark =>
          have hc : c ≠ '-' := by simpa using hmark
          show (c == '-' && _) = false
          rw [beq_false_of_ne hc, Bool.false_and]

theorem item_document {vendor : Option Text} {header : Text} (hvendor : VendorPrintable vendor)
    (h : CapturePrintable ['\x7b'] header) (u : Text) :
    item ('@' :: (vendor.getD [] ++ "document".toList ++ ' ' :: (header ++ '\x7b' :: u))) =
      .matched (.groupHeader (.document vendor) header) ('\x7b' :: u) := by
  have hkeyword := atKeyword_append (vendor.getD [] ++ "document".toList)
    (isIdentifierChar_vendored hvendor (List.all_eq_true.1 rfl)) ' ' rfl (header ++ '\x7b' :: u)
  have hkeyframes :
      Text.dropTail? "keyframes".toList (vendor.getD [] ++ "document".toList) = none := by
    rw [Text.dropTail?, List.reverse_append]
    rfl
  have hpasses : KeywordPasses (vendor.getD [] ++ "document".toList) :=
    ⟨hkeyframes, isPrefixOf_vendored hvendor rfl rfl,
      isPrefixOf_vendored hvendor rfl rfl, isPrefixOf_vendored hvendor rfl rfl,
      isPrefixOf_vendored hvendor rfl rfl⟩
  have hpage : "page".toList.isPrefixOf (vendor.getD [] ++ "document".toList) = false :=
    isPrefixOf_vendored hvendor rfl rfl
  have hread := vendored_append hvendor "document".toList (List.all_eq_true.1 rfl) ' ' rfl
    (header ++ '\x7b' :: u)
  apply item_of_knownAtItem
  rw [knownAtItem_eq_laterAtItem hkeyword hpasses, laterAtItem,
    orElse_of_mismatch (whole_eq_mismatch.2 (page_eq_mismatch hkeyword hpage))]
  refine orElse_eq_matched.2 (.inl ?_)
  have hheader := blockHeader_capture (captured_of_printable h) u
  rw [h.trimmed] at hheader
  exact bind_eq_matched.2 ⟨_, _, hread, bind_eq_matched.2 ⟨header, _, hheader, rfl⟩⟩

theorem item_fontFace {ds : List Declaration} (hds : BlockPrintable ds) (u : Text) :
    item ('@' :: ("font-face".toList ++ (renderBlock ds ++ u))) =
      .matched (.rule (.fontFace ds)) u := by
  obtain ⟨v, hblock⟩ := renderBlock_append ds u
  have hkeyword := atKeyword_append "font-face".toList (List.all_eq_true.1 rfl) '\x7b' rfl v
  rw [← hblock] at hkeyword
  apply item_of_knownAtItem
  rw [knownAtItem_eq_laterAtItem hkeyword ⟨rfl, rfl, rfl, rfl, rfl⟩, laterAtItem,
    orElse_of_mismatch (whole_eq_mismatch.2 (page_eq_mismatch hkeyword rfl)),
    orElse_of_mismatch (documentHeader_eq_mismatch hkeyword rfl)]
  refine orElse_eq_matched.2 (.inl (whole_eq_matched.2 ⟨_, rfl, ?_⟩))
  have hlayout : layout (renderBlock ds ++ u) = .matched [] (renderBlock ds ++ u) := by
    rw [hblock]
    rfl
  refine bind_eq_matched.2 ⟨(), _, literal_mark rfl _, bind_eq_matched.2 ⟨[], _, hlayout, ?_⟩⟩
  exact bind_eq_matched.2 ⟨_, _, declarationBlock_renderBlock hds u, rfl⟩

/-- The keywords of statements belong to no other at rule. -/
theorem item_statement (kind : StatementKind) {value : Text} (h : Captured [';'] value)
    (u : Text) :
    item ('@' :: (kind.keyword ++ ' ' :: (value ++ ';' :: u))) =
      .matched (.rule (.statement kind value.trim)) u := by
  have hchars : kind.keyword.all Text.isIdentifierChar = true := by
    cases kind <;> rfl
  have hkeyword := atKeyword_append kind.keyword (List.all_eq_true.1 hchars) ' ' rfl
    (value ++ ';' :: u)
  have hpasses : KeywordPasses kind.keyword := by
    cases kind <;> exact ⟨rfl, rfl, rfl, rfl, rfl⟩
  have hlater : "page".toList.isPrefixOf kind.keyword = false ∧
      Text.dropTail? "document".toList kind.keyword = none ∧
        "font-face".toList.isPrefixOf kind.keyword = false := by
    cases kind <;> exact ⟨rfl, rfl, rfl⟩
  have hkind : StatementKind.ofKeyword? kind.keyword = some kind := by
    cases kind <;> rfl
  obtain ⟨hpage, hdocument, hfontFace⟩ := hlater
  apply item_of_knownAtItem
  rw [knownAtItem_eq_laterAtItem hkeyword hpasses, laterAtItem,
    orElse_of_mismatch (whole_eq_mismatch.2 (page_eq_mismatch hkeyword hpage)),
    orElse_of_mismatch (documentHeader_eq_mismatch hkeyword hdocument),
    orElse_of_mismatch (whole_eq_mismatch.2 (fontFace_eq_mismatch hkeyword hfontFace))]
  refine whole_eq_matched.2 ⟨_, rfl, bind_eq_matched.2 ⟨kind.keyword, _, hkeyword, ?_⟩⟩
  rw [hkind]
  have hlayout : layout (' ' :: (value ++ ';' :: u)) = .matched [' '] (value ++ ';' :: u) :=
    takeWhile_space h rfl (fun c hc => Text.isLayout_eq_false hc) _
  refine bind_eq_matched.2 ⟨_, _, hlayout, ?_⟩
  refine bind_eq_matched.2 ⟨value, ';' :: u, takeWhile1_capture h (by simp) (by simp) u, ?_⟩
  exact bind_eq_matched.2 ⟨(), u, literal_eq_matched.2 rfl, rfl⟩

theorem item_keyframes {vendor : Option Text} {name : Text} {frames : List Keyframe}
    (hvendor : VendorPrintable vendor) (hname : NamePrintable name)
    (hframes : ∀ frame ∈ frames, frame.Printable) (u : Text) :
    item ('@' :: (vendor.getD [] ++ "keyframes".toList ++
        ' ' :: (name ++ '\x7b' :: (frames.flatMap Keyframe.render ++ '\x7d' :: u)))) =
      .matched (.rule (.keyframes vendor name frames)) u := by
  have hread := vendored_append hvendor "keyframes".toList (List.all_eq_true.1 rfl) ' ' rfl
    (name ++ '\x7b' :: (frames.flatMap Keyframe.render ++ '\x7d' :: u))
  apply item_of_knownAtItem
  refine orElse_eq_matched.2 (.inl (whole_eq_matched.2 ⟨_, rfl, ?_⟩))
  obtain ⟨hne, hchars⟩ := hname
  have hlayout : layout (' ' :: (name ++
        '\x7b' :: (frames.flatMap Keyframe.render ++ '\x7d' :: u))) =
      .matched [' '] (name ++ '\x7b' :: (frames.flatMap Keyframe.render ++ '\x7d' :: u)) := by
    obtain ⟨c, r, rfl⟩ := List.exists_cons_of_ne_nil hne
    have hc := Text.isBlank_of_isIdentifierChar (hchars c List.mem_cons_self)
    exact takeWhile_eq_matched.2 ⟨rfl, by simp; rfl, by simpa using Text.isLayout_eq_false hc⟩
  have hidentifier : identifier (name ++
        '\x7b' :: (frames.flatMap Keyframe.render ++ '\x7d' :: u)) =
      .matched name ('\x7b' :: (frames.flatMap Keyframe.render ++ '\x7d' :: u)) :=
    takeWhile1_eq_matched.2 ⟨hne, takeWhile_eq_matched.2 ⟨rfl, hchars, by simp; decide⟩⟩
  have hcrisp := crisp_frames hframes u
  refine bind_eq_matched.2 ⟨_, _, hread, bind_eq_matched.2 ⟨_, _, hlayout, ?_⟩⟩
  refine bind_eq_matched.2 ⟨_, _, require_eq_matched.2 hidentifier, ?_⟩
  refine bind_eq_matched.2 ⟨_, _, (crisp_openBrace _).layout_eq, ?_⟩
  refine bind_eq_matched.2 ⟨(), _, require_eq_matched.2 (openBrace_eq_matched hcrisp.toPlain), ?_⟩
  refine bind_eq_matched.2 ⟨_, _, hcrisp.comments_eq, ?_⟩
  refine bind_eq_matched.2 ⟨_, _, many_keyframeItem_render hframes u, ?_⟩
  exact bind_eq_matched.2 ⟨(), u, require_eq_matched.2 (closeBrace_eq_matched u), rfl⟩

end keywords

end Grammar

end CssInliner
