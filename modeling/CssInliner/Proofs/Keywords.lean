import CssInliner.Proofs.Printing.ReadsBack

/-!
At rules nobody knows. Of the known ones some are told by the whole keyword or by its end, the
others by a mark the keyword begins with, whatever follows it. So a keyword that nobody knows
is refused, and its rule read as a style rule, exactly if it begins with none of those marks.
-/

namespace CssInliner.Grammar

open CssInliner.Parser

def bindingMarks : List Text :=
  ["supports", "host", "media", "page", "font-face"].map String.toList

/-- The keyword of no at rule: it neither is one of those of fixed spelling nor ends in one
that takes a vendor mark. -/
structure Unknown (keyword : Text) : Prop where
  nameChars : ∀ c ∈ keyword, Text.isIdentifierChar c = true
  ne_mark : ∀ mark ∈ bindingMarks, keyword ≠ mark
  ne_customMedia : keyword ≠ "custom-media".toList
  ne_statement : ∀ kind : StatementKind, keyword ≠ kind.keyword
  not_keyframes : ¬ "keyframes".toList <:+ keyword
  not_document : ¬ "document".toList <:+ keyword

section marks

variable {α β : Type} {t keyword r : Text}

/-- A text that begins with a name character is matched or found defective. -/
def InsistsOnName (p : Parser α) : Prop :=
  ∀ ⦃c⦄, Text.isIdentifierChar c = true → ∀ t, p (c :: t) ≠ .mismatch

theorem InsistsOnName.bind {p : Parser α} {f : α → Parser β} (hp : InsistsOnName p)
    (hf : ∀ a, (f a).Insists) : InsistsOnName (p >>= f) := by
  intro c hc t h
  rcases bind_eq_mismatch.1 h with hpt | ⟨a, m, -, hft⟩
  · exact hp hc t hpt
  · exact hf a m hft

theorem insistsOnName_blockHeader : InsistsOnName blockHeader := by
  intro c hc t h
  have hspace : c ≠ ' ' := by rintro rfl; contradiction
  have hbrace : c ≠ '\x7b' := by rintro rfl; contradiction
  have hspaces : spaces (c :: t) = .matched [] (c :: t) :=
    takeWhile_eq_matched.2 ⟨rfl, by simp, by simpa using hspace⟩
  rcases bind_eq_mismatch.1 h with h | ⟨blank, m, hm, h⟩
  · exact insists_takeWhile _ _ h
  rw [hspaces] at hm
  obtain ⟨rfl, rfl⟩ := Outcome.matched.inj hm
  rcases bind_eq_mismatch.1 h with h | ⟨header, m, -, h⟩
  · exact of_decide_eq_false (takeWhile1_eq_mismatch.1 h c rfl) hbrace
  · exact insists_pure _ _ h

/-- Behind the mark of a longer keyword comes a name character. -/
theorem exists_name_of_prefix {mark : Text} (hkeyword : atKeyword t = .matched keyword r)
    (hne : keyword ≠ mark) (hmark : mark <+: keyword) :
    ∃ c m, Text.isIdentifierChar c = true ∧ t = '@' :: mark ++ c :: m := by
  obtain ⟨behind, rfl⟩ := hmark
  obtain ⟨rfl, hname, -⟩ := atKeyword_eq_matched.1 hkeyword
  obtain ⟨c, behind, rfl⟩ := List.exists_cons_of_ne_nil (l := behind) (by simpa using hne)
  exact ⟨c, behind ++ r, hname c (by simp), by simp⟩

/-- What goes on with a mark goes on with every longer keyword that begins with it. -/
theorem marked_eq_mismatch_iff (mark : Text) {f : Unit → Parser α}
    (hkeyword : atKeyword t = .matched keyword r) (hne : keyword ≠ mark)
    (hmark : mark.all Text.isIdentifierChar = true) (hf : ∀ a, InsistsOnName (f a)) :
    (literal ('@' :: mark) >>= f) t = .mismatch ↔ ¬ mark <+: keyword := by
  constructor
  · intro h hprefix
    obtain ⟨c, m, hc, rfl⟩ := exists_name_of_prefix hkeyword hne hprefix
    rcases bind_eq_mismatch.1 h with h | ⟨a, n, hn, h⟩
    · exact literal_eq_mismatch.1 h (List.prefix_append _ _)
    · obtain rfl := List.append_cancel_left (literal_eq_matched.1 hn)
      exact hf a hc m h
  · intro h
    refine bind_eq_mismatch.2 (.inl (literal_eq_mismatch_of_keyword hkeyword hmark ?_))
    rwa [Bool.eq_false_iff, Ne, List.isPrefixOf_iff_prefix]

theorem customMedia_eq_mismatch_of_ne (hkeyword : atKeyword t = .matched keyword r)
    (hne : keyword ≠ "custom-media".toList) : customMedia t = .mismatch := by
  by_cases hprefix : "custom-media".toList <+: keyword
  · obtain ⟨c, m, hc, rfl⟩ := exists_name_of_prefix hkeyword hne hprefix
    have hlayout : Text.isLayout c = false := by
      refine Bool.eq_false_iff.2 fun hlayout => ?_
      rw [not_identifierChar_of_layout hlayout] at hc
      contradiction
    refine bind_eq_mismatch.2 (.inr ⟨(), c :: m, literal_eq_matched.2 rfl, ?_⟩)
    exact bind_eq_mismatch.2 (.inl (takeWhile1_eq_mismatch.2 (by simpa using hlayout)))
  · refine customMedia_eq_mismatch hkeyword ?_
    rwa [Bool.eq_false_iff, Ne, List.isPrefixOf_iff_prefix]

theorem ofKeyword?_eq_none (h : ∀ kind : StatementKind, keyword ≠ kind.keyword) :
    StatementKind.ofKeyword? keyword = none := by
  refine List.find?_eq_none.2 fun kind _ => ?_
  simpa using (h kind).symm

theorem knownAtItem_eq_mismatch_iff (hkeyword : atKeyword t = .matched keyword r)
    (h : Unknown keyword) :
    knownAtItem t = .mismatch ↔ ∀ mark ∈ bindingMarks, ¬ mark <+: keyword := by
  have hkeyframes := keyframes_eq_mismatch hkeyword (Text.dropTail?_eq_none_iff.2 h.not_keyframes)
  have hsupports : supportsHeader t = .mismatch ↔ ¬ "supports".toList <+: keyword :=
    marked_eq_mismatch_iff "supports".toList hkeyword (h.ne_mark _ (by simp [bindingMarks])) rfl
      fun _ => insistsOnName_blockHeader.bind fun _ => insists_pure _
  have hhost : hostHeader t = .mismatch ↔ ¬ "host".toList <+: keyword :=
    marked_eq_mismatch_iff "host".toList hkeyword (h.ne_mark _ (by simp [bindingMarks])) rfl
      fun _ _ _ _ => (insists_layout.bind fun _ => insists_pure _) _
  have hmedia : mediaHeader t = .mismatch ↔ ¬ "media".toList <+: keyword :=
    marked_eq_mismatch_iff "media".toList hkeyword (h.ne_mark _ (by simp [bindingMarks])) rfl
      fun _ => insistsOnName_blockHeader.bind fun _ => insists_pure _
  have hcustomMedia := customMedia_eq_mismatch_of_ne hkeyword h.ne_customMedia
  have hpage : page t = .mismatch ↔ ¬ "page".toList <+: keyword :=
    marked_eq_mismatch_iff "page".toList hkeyword (h.ne_mark _ (by simp [bindingMarks])) rfl
      fun _ _ _ _ => ((insists_takeWhile _).bind fun _ => insists_selectorList.bind fun _ =>
        insists_declarationBlock.bind fun _ => insists_pure _) _
  have hdocument := documentHeader_eq_mismatch hkeyword
    (Text.dropTail?_eq_none_iff.2 h.not_document)
  have hfontFace : fontFace t = .mismatch ↔ ¬ "font-face".toList <+: keyword :=
    marked_eq_mismatch_iff "font-face".toList hkeyword (h.ne_mark _ (by simp [bindingMarks])) rfl
      fun _ _ _ _ => (insists_layout.bind fun _ => insists_declarationBlock.bind fun _ =>
        insists_pure _) _
  have hstatement := statement_eq_mismatch hkeyword (ofKeyword?_eq_none h.ne_statement)
  simp only [knownAtItem, orElse_eq_mismatch, whole_eq_mismatch, hkeyframes, hsupports, hhost,
    hmedia, hcustomMedia, hpage, hdocument, hfontFace, hstatement, true_and, and_true,
    bindingMarks, List.map_cons, List.map_nil, List.forall_mem_cons, List.not_mem_nil,
    IsEmpty.forall_iff, implies_true]

end marks

section reading

variable {bare : Bool} {groups : List OpenGroup} {rules : List Rule} {t : Text}

/-- Only where no at rule begins is an at rule refused; a group that has begun is not. -/
theorem atRule_at_eq_mismatch_iff :
    atRule ('@' :: t) = .mismatch ↔ knownAtItem ('@' :: t) = .mismatch := by
  rw [← atItem_at]
  refine bind_eq_mismatch.trans (or_iff_left ?_)
  rintro ⟨i, m, -, h⟩
  cases i with
  | rule rule => exact insists_pure _ _ h
  | groupHeader kind header =>
      have hopen : openBlock.Insists := (insists_require _ _).bind fun _ => insists_comments
      have hlist : (ruleList false).Insists := hopen.bind fun _ => insists_readRules _ _ _
      exact (hlist.bind fun _ => insists_pure _) m h

/-- Where no at rule begins a style rule is read, in every list of rules. -/
theorem readOn_at_of_mismatch (h : knownAtItem ('@' :: t) = .mismatch) :
    readOn bare groups rules ('@' :: t) =
      (styleRule >>= fun rule => readOn bare groups (rule :: rules)) ('@' :: t) := by
  have hitem : item ('@' :: t) = whole styleRule ('@' :: t) :=
    orElse_of_mismatch ((atItem_at t).trans h)
  have hallowed : ItemsAllowed bare groups ('@' :: t) := by simp [ItemsAllowed]
  rw [readOn_at, bind_apply]
  cases hstyle : styleRule ('@' :: t) with
  | mismatch => exact absurd hstyle (insists_styleRule _)
  | matched rule m =>
      exact readRules_of_rule (hitem.trans (whole_eq_matched.2 ⟨rule, rfl, hstyle⟩)) hallowed
  | failure d m =>
      have hboth : itemWithComments ('@' :: t) = .failure d m := by
        rw [itemWithComments, bind_apply, hitem, whole, bind_apply, hstyle]
      rw [readRules_of_allowed (by simp) hallowed, hboth]

end reading

/-- The rule of an unknown keyword is refused exactly if the keyword begins with no binding
mark, and then it is read as a style rule wherever it stands. -/
theorem Unknown.refused_iff {keyword r : Text} (h : Unknown keyword)
    (hr : ∀ c, r.head? = some c → Text.isIdentifierChar c = false) :
    (atRule ('@' :: (keyword ++ r)) = .mismatch ↔
        ∀ mark ∈ bindingMarks, ¬ mark <+: keyword) ∧
      ((∀ mark ∈ bindingMarks, ¬ mark <+: keyword) → ∀ bare groups rules,
        readOn bare groups rules ('@' :: (keyword ++ r)) =
          (styleRule >>= fun rule => readOn bare groups (rule :: rules))
            ('@' :: (keyword ++ r))) := by
  have hkeyword : atKeyword ('@' :: (keyword ++ r)) = .matched keyword r :=
    atKeyword_eq_matched.2 ⟨rfl, h.nameChars, hr⟩
  have hknown := knownAtItem_eq_mismatch_iff hkeyword h
  exact ⟨atRule_at_eq_mismatch_iff.trans hknown,
    fun hmarks _ _ _ => readOn_at_of_mismatch (hknown.2 hmarks)⟩

theorem Unknown.refused_layer :
    Unknown "layer".toList ∧ atRule "@layer base\x7b\x7d".toList = .mismatch := by
  have hlayer : Unknown "layer".toList :=
    ⟨List.all_eq_true.1 rfl, by decide, by decide, by rintro ⟨⟩ <;> decide,
      by decide, by decide⟩
  have hrefused := Unknown.refused_iff (r := " base\x7b\x7d".toList) hlayer
    (by rintro c ⟨rfl⟩; rfl)
  exact ⟨hlayer, hrefused.1.2 (by decide)⟩

/-- A keyword that begins with one of the marks is taken for it, and the rest of the keyword
for a selector or for a misfit. -/
theorem Unknown.not_refused :
    Unknown "pages".toList ∧
      atRule "@pages\x7b\x7d".toList = .matched (.page [['s']] []) [] ∧
        Unknown "hosts".toList ∧
          atRule "@hosts\x7b\x7d".toList = .failure .missingOpenBrace "s\x7b\x7d".toList := by
  refine ⟨⟨List.all_eq_true.1 rfl, by decide, by decide, ?_, by decide, by decide⟩,
    by decide +kernel,
    ⟨List.all_eq_true.1 rfl, by decide, by decide, ?_, by decide, by decide⟩,
    by decide +kernel⟩
  all_goals rintro ⟨⟩ <;> decide

end CssInliner.Grammar
