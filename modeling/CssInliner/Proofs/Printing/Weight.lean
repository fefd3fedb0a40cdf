import CssInliner.Proofs.Printing.ReadsBack

/-!
Printing adds nothing but spaces and commas. Where these count for nothing, what
the grammar reads weighs no more once it is printed than the text it was read
from. A parser covers the cost of its value when the text it takes, together
with a credit from what was taken before, weighs at least as much.
-/

namespace CssInliner

namespace Parser

variable {α β : Type} {p q : Parser α} {credit : Nat} {cost : α → Nat}

/-- What a match takes, together with the credit, is worth the cost of its value. -/
def Covers (p : Parser α) (credit : Nat) (cost : α → Nat) : Prop :=
  ∀ ⦃t a r⦄, p t = .matched a r → cost a + r.weight ≤ t.weight + credit

theorem covers_pure {a : α} (h : cost a ≤ credit) : (pure a : Parser α).Covers credit cost := by
  intro t b r hread
  obtain ⟨rfl, rfl⟩ := Outcome.matched.inj hread
  omega

/-- What the first parser covers is the credit of the second. -/
theorem Covers.bind {f : α → Parser β} {cost' : β → Nat} (hp : p.Covers credit cost)
    (hf : ∀ a, (f a).Covers (cost a) cost') : (p >>= f).Covers credit cost' := by
  intro t b r h
  obtain ⟨a, m, hpt, hft⟩ := bind_eq_matched.1 h
  have hfirst := hp hpt
  have hsecond := hf a hft
  omega

theorem Covers.orElse (hp : p.Covers credit cost) (hq : q.Covers credit cost) :
    (p.orElse q).Covers credit cost := by
  intro t a r h
  rcases orElse_eq_matched.1 h with hpt | ⟨-, hqt⟩
  · exact hp hpt
  · exact hq hqt

theorem Covers.require (hp : p.Covers credit cost) (d : Defect) :
    (p.require d).Covers credit cost :=
  fun _ _ _ h => hp (require_eq_matched.1 h)

theorem Covers.optional (hp : p.Covers credit cost) :
    p.optional.Covers credit fun o => o.elim credit cost := by
  intro t o r h
  rcases optional_eq_matched.1 h with ⟨a, rfl, hpt⟩ | ⟨rfl, rfl, -⟩
  · exact hp hpt
  · exact Nat.le_of_eq (Nat.add_comm _ _)

/-- A parser whose value is dropped leaves the credit as it was. -/
theorem Walks.covers (hp : p.Walks) (credit : Nat) : p.Covers credit fun _ => credit := by
  intro t a r h
  have := Text.weight_le_of_suffix (suffix_of_matched hp h)
  show credit + r.weight ≤ t.weight + credit
  omega

theorem covers_mismatch : (mismatch : Parser α).Covers credit cost :=
  fun _ _ _ h => by simp [mismatch] at h

theorem covers_takeWhile (test : Char → Bool) (credit : Nat) :
    (takeWhile test).Covers credit fun a => a.weight + credit := by
  intro t a r h
  obtain ⟨rfl, -, -⟩ := takeWhile_eq_matched.1 h
  show a.weight + credit + r.weight ≤ (a ++ r).weight + credit
  rw [Text.weight_append]
  omega

theorem covers_takeWhile1 (test : Char → Bool) (credit : Nat) :
    (takeWhile1 test).Covers credit fun a => a.weight + credit :=
  fun _ _ _ h => covers_takeWhile test credit (takeWhile1_eq_matched.1 h).2

theorem covers_literal (text : Text) (credit : Nat) :
    (literal text).Covers credit fun _ => text.weight + credit := by
  intro t a r h
  obtain rfl := literal_eq_matched.1 h
  show text.weight + credit + r.weight ≤ (text ++ r).weight + credit
  rw [Text.weight_append]
  omega

theorem covers_char (c : Char) (credit : Nat) :
    (char c).Covers credit fun _ => Text.weight [c] + credit := covers_literal [c] credit

/-- A list is covered when its cost is that of its members. -/
theorem Covers.many (hp : p.Advances) (h : p.Covers 0 cost) {total : List α → Nat}
    (hnil : total [] = 0) (hcons : ∀ a as, total (a :: as) = cost a + total as) (credit : Nat) :
    Covers (Parser.many p hp) credit fun as => total as + credit := by
  intro t as r hread
  induction hread using many_induction with
  | nil t hread hpt =>
      dsimp only
      omega
  | cons t a m as r hread hnext hpt ih =>
      have hfirst := h hpt
      dsimp only at ih ⊢
      rw [hcons]
      omega

end Parser

namespace Grammar

open CssInliner.Parser

section declarations

theorem weight_trim_stripComments_le (t : Text) : (stripComments t).trim.weight ≤ t.weight :=
  (Text.weight_trim_le _).trans (weight_stripComments_le t)

theorem covers_propertySuffix (credit : Nat) :
    propertySuffix.Covers credit fun suffix => suffix.weight + credit := by
  refine (covers_char '[' credit).bind fun _ => (covers_takeWhile1 _ _).bind fun name =>
    (covers_char ']' _).bind fun _ => covers_pure ?_
  simp only [Text.weight_append, Text.weight_cons, Text.weight_nil]
  omega

theorem covers_propertyName (credit : Nat) :
    propertyName.Covers credit fun name => name.weight + credit := by
  refine (covers_takeWhile1 _ credit).bind fun name =>
    (covers_propertySuffix _).optional.bind fun suffix => covers_pure ?_
  cases suffix with
  | none => simp
  | some s =>
      simp only [Option.getD_some, Option.elim_some, Text.weight_append]
      omega

theorem covers_rawValue (credit : Nat) :
    rawValue.Covers credit fun value => value.weight + credit := by
  intro t value r h
  obtain rfl := append_of_splitValue (rawValue_eq_matched.1 h)
  show value.weight + credit + r.weight ≤ (value ++ r).weight + credit
  rw [Text.weight_append]
  omega

theorem rest_of_rawValue {t value r : Text} (h : rawValue t = .matched value r) :
    r = [] ∨ (∃ u, r = '\x7d' :: u) ∨ ∃ u, r = ';' :: u := by
  cases r with
  | nil => exact .inl rfl
  | cons c u =>
      rcases stop_of_splitValue (rawValue_eq_matched.1 h) with rfl | rfl
      · exact .inr (.inr ⟨u, rfl⟩)
      · exact .inr (.inl ⟨u, rfl⟩)

theorem weight_render_le (property value : Text) :
    (Declaration.render ⟨(stripComments property).trim, (stripComments value).trim⟩).weight ≤
      property.weight + 1 + value.weight := by
  have hproperty := weight_trim_stripComments_le property
  have hvalue := weight_trim_stripComments_le value
  have hcolon : Text.weighs ':' = true := rfl
  simp only [Declaration.render, Text.weight_append, Text.weight_cons, hcolon, if_true]
  omega

theorem declarationItem_eq_mismatch {t : Text}
    (h : ∀ c, t.head? = some c → isPropertyChar c = false) : declarationItem t = .mismatch :=
  bind_eq_mismatch.2 (.inl (bind_eq_mismatch.2 (.inl (bind_eq_mismatch.2
    (.inl (takeWhile1_eq_mismatch.2 h))))))

theorem exists_of_declaration {t r : Text} {d : Declaration}
    (h : declaration t = .matched d r) :
    ∃ m : Text, d.render.weight + m.weight ≤ t.weight ∧ m.dropWhile isSeparator = r ∧
      (m = [] ∨ (∃ u, m = '\x7d' :: u) ∨ ∃ u, m = ';' :: u) := by
  obtain ⟨property, m₁, hproperty, h⟩ := bind_eq_matched.1 h
  obtain ⟨blank, m₂, hblank, h⟩ := bind_eq_matched.1 h
  obtain ⟨_, m₃, hcolon, h⟩ := bind_eq_matched.1 h
  obtain ⟨blank', m₄, hblank', h⟩ := bind_eq_matched.1 h
  obtain ⟨value, m, hvalue, h⟩ := bind_eq_matched.1 h
  obtain ⟨separator, m₅, hseparator, h⟩ := bind_eq_matched.1 h
  obtain ⟨rfl, rfl⟩ := Outcome.matched.inj h
  refine ⟨m, ?_, (Outcome.matched.inj hseparator).2, rest_of_rawValue hvalue⟩
  have hrender := weight_render_le property value
  have h₁ : property.weight + 0 + m₁.weight ≤ t.weight + 0 := covers_propertyName 0 hproperty
  have h₂ := Text.weight_le_of_suffix (suffix_of_matched walks_layout hblank)
  have h₃ : 1 + 0 + m₃.weight ≤ m₂.weight + 0 := (covers_char ':' 0).require _ hcolon
  have h₄ := Text.weight_le_of_suffix (suffix_of_matched walks_layout hblank')
  have h₅ : value.weight + 0 + m.weight ≤ m₄.weight + 0 := covers_rawValue 0 hvalue
  omega

theorem filler_of_not_part {t r : Text} {found : List Text} (h : filler t = .matched found r)
    (hpart : fillerPart t = .mismatch) : r = t := by
  rcases many_eq_matched.1 h with ⟨-, hr, -⟩ | ⟨part, parts, m, -, hfirst, -⟩
  · exact hr
  · rw [hpart] at hfirst
    contradiction

/-- A declaration with more declarations behind it had a semicolon taken with it. -/
theorem weight_of_declarationItem {t r : Text} {d : Declaration}
    (h : declarationItem t = .matched d r) :
    d.render.weight + r.weight ≤ t.weight ∧
      (d.render.weight + 1 + r.weight ≤ t.weight ∨ declarationItem r = .mismatch) := by
  obtain ⟨d, m, hdeclaration, h⟩ := bind_eq_matched.1 h
  obtain ⟨found, r, hfiller, h⟩ := bind_eq_matched.1 h
  obtain ⟨rfl, rfl⟩ := Outcome.matched.inj h
  obtain ⟨n, hweight, rfl, hn⟩ := exists_of_declaration hdeclaration
  have hfill := Text.weight_le_of_suffix (suffix_of_matched walks_filler hfiller)
  have hdrop : Text.weight (n.dropWhile isSeparator) ≤ n.weight :=
    Text.weight_le_of_suffix (List.dropWhile_suffix _)
  refine ⟨by omega, ?_⟩
  rcases hn with rfl | ⟨u, rfl⟩ | ⟨u, rfl⟩
  -- only a semicolon leaves something to be read as a declaration
  · right
    obtain rfl : r = [] := filler_of_not_part hfiller rfl
    exact declarationItem_eq_mismatch (by simp)
  · right
    obtain rfl : r = '\x7d' :: u := filler_of_not_part hfiller rfl
    exact declarationItem_eq_mismatch (by simp; decide)
  · left
    have hsemicolon : Text.weight (';' :: u) = Text.weight u + 1 := Text.weight_cons ..
    have hrest : Text.weight (List.dropWhile isSeparator (';' :: u)) ≤ Text.weight u :=
      Text.weight_le_of_suffix (List.dropWhile_suffix (l := u) _)
    omega

theorem weight_join_declarations {t r : Text} {ds : List Declaration}
    (h : many declarationItem advances_declarationItem t = .matched ds r) :
    (Text.join [';'] (ds.map Declaration.render)).weight + r.weight ≤ t.weight := by
  induction h using many_induction with
  | nil => simp [Text.join]
  | cons t d m ds r h hnext hitem ih =>
      obtain ⟨hweight, hbehind⟩ := weight_of_declarationItem hitem
      cases ds with
      | nil =>
          have : Text.weight (Text.join [';'] []) = 0 := rfl
          simp only [List.map_nil, List.map_cons, Text.join] at ih ⊢
          simp only [Text.weight_nil] at ih
          omega
      | cons e ds =>
          rcases hbehind with hbehind | hbehind
          · have hsemicolon : Text.weight [';'] = 1 := rfl
            simp only [List.map_cons, Text.join, Text.weight_append] at ih ⊢
            omega
          · rcases many_eq_matched.1 hnext with ⟨hnil, -⟩ | ⟨_, _, _, -, hfirst, -⟩
            · contradiction
            · rw [hbehind] at hfirst
              contradiction

theorem weight_renderBlock (ds : List Declaration) :
    (renderBlock ds).weight = 1 + (Text.join [';'] (ds.map Declaration.render)).weight + 1 := by
  have hopen : Text.weighs '\x7b' = true := rfl
  have hclose : Text.weight ['\x7d'] = 1 := rfl
  rw [renderBlock, Text.weight_append, hclose, Text.weight_cons, hopen, if_pos rfl]
  omega

theorem covers_openBrace (credit : Nat) : openBrace.Covers credit fun _ => 1 + credit :=
  (covers_char '\x7b' credit).bind fun _ => (walks_layout.covers _).bind fun _ =>
    covers_pure (Nat.le_refl _)

theorem covers_declarationBlock (credit : Nat) :
    declarationBlock.Covers credit fun ds => (renderBlock ds).weight + credit := by
  have hmany : Covers (many declarationItem advances_declarationItem) (1 + credit) fun ds =>
      (Text.join [';'] (ds.map Declaration.render)).weight + (1 + credit) := by
    intro t ds r h
    have := weight_join_declarations h
    dsimp only
    omega
  refine ((covers_openBrace credit).require _).bind fun _ => (walks_filler.covers _).bind fun _ =>
    hmany.bind fun ds => ((covers_char '\x7d' _).require _).bind fun _ => covers_pure ?_
  have hclose : Text.weight ['\x7d'] = 1 := rfl
  rw [weight_renderBlock, hclose]
  omega

end declarations

section selectors

theorem covers_selectorList (credit : Nat) :
    selectorList.Covers credit fun selectors => Text.weight selectors.flatten + credit := by
  intro t selectors r h
  obtain ⟨blank, m, hblank, -, rfl, rfl⟩ := selectorList_eq_matched.1 h
  have hlayout := Text.weight_le_of_suffix (suffix_of_matched walks_layout hblank)
  have hcut : (untilBlock m).1.weight + (untilBlock m).2.weight = m.weight := by
    rw [← Text.weight_append]
    exact congrArg Text.weight (Lexis.cut_append ..)
  have hsplit := weight_splitSelectors_le (stripComments (untilBlock m).1.trim)
  have hstrip := weight_stripComments_le (untilBlock m).1.trim
  have htrim := Text.weight_trim_le (untilBlock m).1
  dsimp only
  omega

end selectors

section frames

theorem covers_digits (credit : Nat) : digits.Covers credit fun ds => ds.weight + credit :=
  covers_takeWhile1 _ credit

theorem covers_fraction (credit : Nat) :
    fraction.Covers credit fun part => part.weight + credit := by
  refine (covers_char '.' credit).bind fun _ => (covers_digits _).bind fun ds => covers_pure ?_
  simp only [Text.weight_cons, Text.weight_nil]
  omega

theorem covers_decimal (credit : Nat) :
    decimal.Covers credit fun number => number.weight + credit := by
  refine (covers_digits credit).bind fun whole => (covers_fraction _).bind fun part =>
    covers_pure ?_
  rw [Text.weight_append]
  omega

theorem covers_percentage (credit : Nat) :
    percentage.Covers credit fun number => number.weight + credit := by
  refine ((covers_decimal credit).orElse ((covers_fraction _).orElse (covers_digits _))).bind
    fun number => (covers_char '%' _).optional.bind fun sign => covers_pure ?_
  cases sign with
  | none => simp
  | some u =>
      simp only [Option.isSome_some, if_true, Option.elim_some, Text.weight_append]
      omega

theorem covers_keyframeSelectorItem (credit : Nat) :
    keyframeSelectorItem.Covers credit fun selector => selector.weight + credit :=
  ((covers_percentage credit).orElse (covers_takeWhile1 _ _)).bind fun _ =>
    (walks_layout.covers _).bind fun _ => (advances_comma.walks.optional.covers _).bind fun _ =>
      covers_pure (Nat.le_refl _)

theorem weight_keyframe_render (frame : Keyframe) :
    frame.render.weight =
      Text.weight frame.selectors.flatten + (renderBlock frame.declarations).weight := by
  rw [Keyframe.render, Text.weight_append, Text.weight_join rfl]

theorem covers_keyframe (credit : Nat) :
    keyframe.Covers credit fun frame => frame.render.weight + credit := by
  have hmany : Covers (many keyframeSelectorItem advances_keyframeSelectorItem) credit
      fun selectors => Text.weight selectors.flatten + credit :=
    Covers.many _ (covers_keyframeSelectorItem 0) rfl (fun _ _ => Text.weight_append ..) credit
  refine (walks_layout.covers credit).bind fun _ => hmany.bind fun selectors => ?_
  cases selectors.isEmpty with
  | true => exact covers_mismatch
  | false =>
      refine (covers_declarationBlock _).bind fun ds => covers_pure ?_
      rw [weight_keyframe_render]
      dsimp only
      omega

theorem covers_keyframeItem (credit : Nat) :
    keyframeItem.Covers credit fun frame => frame.render.weight + credit :=
  (covers_keyframe credit).bind fun _ => (walks_comments.covers _).bind fun _ =>
    covers_pure (Nat.le_refl _)

theorem covers_frames (credit : Nat) :
    Covers (many keyframeItem advances_keyframeItem) credit fun frames =>
      Text.weight (frames.flatMap Keyframe.render) + credit :=
  Covers.many _ (covers_keyframeItem 0) rfl
    (fun frame frames => by rw [List.flatMap_cons, Text.weight_append]; rfl) credit

end frames

section keywords

theorem covers_atKeyword (credit : Nat) :
    atKeyword.Covers credit fun keyword => Text.weight ('@' :: keyword) + credit := by
  intro t keyword r h
  obtain ⟨rfl, -, -⟩ := atKeyword_eq_matched.1 h
  simp only [Text.weight_cons, Text.weight_append]
  omega

theorem covers_vendored (base : Text) (credit : Nat) :
    (vendored base).Covers credit fun vendor =>
      Text.weight ('@' :: vendor.getD [] ++ base) + credit := by
  intro t vendor r h
  obtain ⟨keyword, lead, hkeyword, hlead, rfl⟩ := vendored_eq_matched.1 h
  obtain rfl := Text.dropTail?_eq_some_iff.1 hlead
  have hvendor : lead.nonempty?.getD [] = lead := by
    cases lead <;> rfl
  dsimp only
  rw [hvendor]
  exact covers_atKeyword credit hkeyword

theorem covers_blockHeader (credit : Nat) :
    blockHeader.Covers credit fun header => header.weight + credit := by
  refine (walks_spaces.covers credit).bind fun _ => (covers_takeWhile1 _ _).bind fun header =>
    covers_pure ?_
  have := Text.weight_trim_le header
  omega

theorem covers_customMediaName (credit : Nat) :
    customMediaName.Covers credit fun name => name.weight + credit := by
  refine (covers_literal _ credit).bind fun _ => (covers_takeWhile1 _ _).bind fun name =>
    covers_pure ?_
  rw [Text.weight_append]
  omega

end keywords

section comments

theorem covers_commentRule : commentRule.Covers 0 fun _ => 1 := by
  refine (walks_layout.covers 0).bind fun _ => Covers.bind ?_ fun _ => covers_pure (Nat.le_refl 1)
  intro t text r h
  obtain ⟨body, rfl, hbody⟩ := comment_eq_matched.1 h
  obtain rfl := Text.eq_append_of_splitFirst? hbody
  have hopen : Text.weight commentOpen = 2 := rfl
  simp only [Text.weight_append, hopen]
  omega

theorem covers_comments : comments.Covers 0 List.length := by
  have hmany : Covers (many commentRule advances_commentRule) 0 fun found => found.length + 0 :=
    Covers.many _ covers_commentRule rfl (fun _ _ => Nat.add_comm ..) 0
  exact hmany.bind fun _ => (walks_layout.covers _).bind fun _ => covers_pure (Nat.le_refl _)

end comments

section rules

theorem covers_keyframes : keyframes.Covers 0 fun rule => (rule.render []).weight := by
  refine (covers_vendored _ 0).bind fun vendor => (walks_layout.covers _).bind fun _ =>
    ((covers_takeWhile1 _ _).require _).bind fun name => (walks_layout.covers _).bind fun _ =>
      ((covers_openBrace _).require _).bind fun _ => (walks_comments.covers _).bind fun _ =>
        (covers_frames _).bind fun frames =>
          ((covers_char '\x7d' _).require _).bind fun _ => covers_pure ?_
  have hspace : Text.weight [' '] = 0 := rfl
  have hopen : Text.weighs '\x7b' = true := rfl
  rw [Rule.render_keyframes]
  simp only [Text.weight_append, Text.weight_cons, hspace, hopen, if_true,
    Nat.add_zero]
  omega

theorem covers_supportsHeader : supportsHeader.Covers 0 fun i => i.print.weight := by
  refine (covers_literal _ 0).bind fun _ => (covers_blockHeader _).bind fun header =>
    covers_pure ?_
  have hkeyword : Text.weight "@supports ".toList = Text.weight "@supports".toList := rfl
  show Text.weight ("@supports ".toList ++ header) ≤ _
  rw [Text.weight_append, hkeyword]
  omega

theorem covers_hostHeader : hostHeader.Covers 0 fun i => i.print.weight :=
  (covers_literal _ 0).bind fun _ => (walks_layout.covers _).bind fun _ =>
    covers_pure (Nat.le_refl _)

theorem covers_mediaHeader : mediaHeader.Covers 0 fun i => i.print.weight := by
  refine (covers_literal _ 0).bind fun _ => (covers_blockHeader _).bind fun header =>
    covers_pure ?_
  have hkeyword : Text.weight "@media ".toList = Text.weight "@media".toList := rfl
  show Text.weight ("@media ".toList ++ header) ≤ _
  rw [Text.weight_append, hkeyword]
  omega

theorem covers_documentHeader : documentHeader.Covers 0 fun i => i.print.weight := by
  refine (covers_vendored _ 0).bind fun vendor => (covers_blockHeader _).bind fun header =>
    covers_pure ?_
  have hspace : Text.weight [' '] = 0 := rfl
  show Text.weight ((GroupKind.document vendor).render header) ≤ _
  rw [GroupKind.render_document]
  simp only [Text.weight_append, hspace]
  omega

theorem covers_customMedia : customMedia.Covers 0 fun rule => (rule.render []).weight := by
  refine (covers_literal _ 0).bind fun _ => ((advances_takeWhile1 _).walks.covers _).bind fun _ =>
    (covers_customMediaName _).bind fun name => (walks_layout.covers _).bind fun _ =>
      (covers_takeWhile1 _ _).bind fun media => (covers_char ';' _).bind fun _ => covers_pure ?_
  have hmedia := Text.weight_trim_le media
  have hspace : Text.weighs ' ' = false := rfl
  have hkeyword : Text.weight ('@' :: ("custom-media".toList ++ [' '])) =
      Text.weight "@custom-media".toList := rfl
  rw [Rule.render_customMedia]
  simp only [Text.weight_append _ [';'], Text.weight_append _ (' ' :: media.trim),
    Text.weight_append _ name, hkeyword, Text.weight_cons ' ', hspace]
  simp only [Bool.false_eq_true, if_false]
  omega

theorem weight_renderPageSelectors (selectors : List Text) :
    (renderPageSelectors selectors).weight = Text.weight selectors.flatten := by
  cases selectors with
  | nil => rfl
  | cons s ss =>
      have hspace : Text.weighs ' ' = false := rfl
      rw [renderPageSelectors, List.isEmpty_cons, if_neg (by simp), Text.weight_cons, hspace,
        Text.weight_join rfl]
      simp

theorem covers_page : page.Covers 0 fun rule => (rule.render []).weight := by
  refine (covers_literal _ 0).bind fun _ => (walks_spaces.covers _).bind fun _ =>
    (covers_selectorList _).bind fun selectors => (covers_declarationBlock _).bind fun ds =>
      covers_pure ?_
  have hkeyword : Text.weight ('@' :: "page".toList) = Text.weight "@page".toList := rfl
  rw [Rule.render_page]
  split
  · exact Nat.zero_le _
  · simp only [Text.weight_append _ (renderBlock ds), Text.weight_append _ [],
      Text.weight_append _ (renderPageSelectors selectors), hkeyword, Text.weight_nil,
      weight_renderPageSelectors]
    omega

theorem covers_fontFace : fontFace.Covers 0 fun rule => (rule.render []).weight := by
  refine (covers_literal _ 0).bind fun _ => (walks_layout.covers _).bind fun _ =>
    (covers_declarationBlock _).bind fun ds => covers_pure ?_
  have hkeyword : Text.weight ('@' :: "font-face".toList) = Text.weight "@font-face".toList := rfl
  rw [Rule.render_fontFace, Text.weight_append, hkeyword]
  omega

theorem covers_statement : statement.Covers 0 fun rule => (rule.render []).weight := by
  refine (covers_atKeyword 0).bind fun keyword => ?_
  cases hkind : StatementKind.ofKeyword? keyword with
  | none => exact covers_mismatch
  | some kind =>
      obtain rfl : kind.keyword = keyword := by
        have := List.find?_some hkind
        simpa using this
      refine (walks_layout.covers _).bind fun _ => (covers_takeWhile1 _ _).bind fun value =>
        (covers_char ';' _).bind fun _ => covers_pure ?_
      have hvalue := Text.weight_trim_le value
      have hspace : Text.weighs ' ' = false := rfl
      rw [Rule.render_statement, Text.weight_append, Text.weight_append, Text.weight_cons ' ',
        hspace]
      simp only [Bool.false_eq_true, if_false]
      omega

theorem covers_styleRule : styleRule.Covers 0 fun rule => (rule.render []).weight := by
  intro t rule r h
  obtain ⟨selectors, m, ds, hselectors, -, hds, rfl⟩ := styleRule_eq_matched.1 h
  have hlist := covers_selectorList 0 hselectors
  have hblock := covers_declarationBlock 0 hds
  dsimp only at hlist hblock ⊢
  rw [Rule.render_style]
  split
  · rw [Text.weight_nil]
    omega
  · rw [Text.weight_append, Text.weight_append, Text.weight_join rfl, Text.weight_nil]
    omega

theorem covers_whole {p : Parser Rule} (hp : p.Covers 0 fun rule => (rule.render []).weight) :
    (whole p).Covers 0 fun i => i.print.weight :=
  hp.bind fun _ => covers_pure (Nat.le_refl _)

/-- No item is heavier in print than it was. -/
theorem covers_item : item.Covers 0 fun i => i.print.weight := by
  have hknown : knownAtItem.Covers 0 fun i => i.print.weight :=
    (covers_whole covers_keyframes).orElse <| covers_supportsHeader.orElse <|
      covers_hostHeader.orElse <| covers_mediaHeader.orElse <|
        (covers_whole covers_customMedia).orElse <| (covers_whole covers_page).orElse <|
          covers_documentHeader.orElse <| (covers_whole covers_fontFace).orElse <|
            covers_whole covers_statement
  exact ((walks_layout.covers 0).bind fun _ => hknown).orElse (covers_whole covers_styleRule)

end rules

end Grammar

end CssInliner
