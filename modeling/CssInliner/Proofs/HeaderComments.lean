import CssInliner.Proofs.Lexis.Balance
import CssInliner.Proofs.Printing.Block
import CssInliner.Stylesheet.Equality

/-!
Comments among the selectors of a style rule. They are taken out of the selector list, but the
block that ends the list is searched for before that, by a search that knows strings and
escapes and no comments. So a comment goes unnoticed exactly if that search passes over it: it
must neither show an opening brace nor leave a string open.
-/

namespace CssInliner

open Lexis (bare)

/-- Both end alike: with the same value and rest, without a match, or with the same defect. -/
def Outcome.Agrees {α : Type} : Outcome α → Outcome α → Prop
  | .matched a r, .matched b s => a = b ∧ r = s
  | .mismatch, .mismatch => True
  | .failure d _, .failure e _ => d = e
  | _, _ => False

theorem Outcome.Agrees.refl {α : Type} (o : Outcome α) : o.Agrees o := by
  cases o <;> simp [Agrees]

theorem Outcome.Agrees.eq_matched {α : Type} {o : Outcome α} {a : α} {r : Text}
    (h : o.Agrees (.matched a r)) : o = .matched a r := by
  cases o with
  | matched b s => obtain ⟨rfl, rfl⟩ := h; rfl
  | mismatch => exact h.elim
  | failure d s => exact h.elim

namespace Grammar

open CssInliner.Parser

/-- The search for the block goes on behind the text: it shows no opening brace outside strings
and escapes, and leaves no string open. -/
structure PassedOver (t : Text) : Prop where
  complete : Complete t
  no_brace : .char '\x7b' ∉ bare.pieces t

section search

variable {s t : Text}

theorem PassedOver.append (hs : PassedOver s) (ht : PassedOver t) : PassedOver (s ++ t) := by
  refine ⟨hs.complete.append ht.complete, ?_⟩
  rw [hs.complete, List.mem_append, not_or]
  exact ⟨hs.no_brace, ht.no_brace⟩

theorem passedOver_chars (ht : ∀ c ∈ t, c ≠ '\\' ∧ Text.isQuote c = false)
    (hbrace : '\x7b' ∉ t) : PassedOver t :=
  ⟨complete_chars ht, by simpa [pieces_bare_self ht] using hbrace⟩

theorem foldlM_untilBlock_iff {ps : List Piece} {u : Unit} :
    ps.foldlM (fun _ p => if p = .char '\x7b' then none else some ()) () = some u ↔
      .char '\x7b' ∉ ps := by
  induction ps with
  | nil => simp
  | cons p ps ih =>
      by_cases hp : p = .char '\x7b'
      · simp [hp]
      · simpa [hp, eq_comm] using ih

/-- The search stops behind a text, and not before, exactly if it passes over the text. -/
theorem untilBlock_eq_iff {u : Text} :
    untilBlock (t ++ '\x7b' :: u) = (t, '\x7b' :: u) ↔ PassedOver t := by
  constructor
  · intro h
    obtain ⟨ps, _, hpieces, htext, hfold, -⟩ := bare.exists_pieces_of_cut
      (fun (_ : Unit) p => if p = .char '\x7b' then none else some ()) () (t ++ '\x7b' :: u)
    rw [show bare.cut _ () _ = _ from h] at hpieces htext
    obtain rfl : ps.flatMap Piece.text = t := htext
    have hcomplete : Complete (ps.flatMap Piece.text) := .of_pieces (by simp) hpieces
    rw [hcomplete] at hpieces
    refine ⟨hcomplete, ?_⟩
    rw [List.append_cancel_right hpieces]
    exact foldlM_untilBlock_iff.1 hfold
  · intro h
    have hstop : untilBlock ('\x7b' :: u) = ([], '\x7b' :: u) := Lexis.cut_bound rfl rfl rfl u
    have hcut : untilBlock (t ++ '\x7b' :: u) =
        ((bare.pieces t).flatMap Piece.text ++ (untilBlock ('\x7b' :: u)).1,
          (untilBlock ('\x7b' :: u)).2) :=
      Lexis.cut_of_pieces (h.complete ('\x7b' :: u))
        ((foldlM_untilBlock_iff (u := ())).2 h.no_brace)
    rwa [hstop, Lexis.flatMap_text_pieces, List.append_nil] at hcut

theorem PassedOver.of_append_left (hs : Complete s) (h : PassedOver (s ++ t)) :
    PassedOver t := by
  refine ⟨hs.of_append h.complete, fun hmem => h.no_brace ?_⟩
  rw [hs]
  exact List.mem_append_right _ hmem

theorem PassedOver.of_append_right (hs : ∀ c ∈ s, Text.isQuote c = false)
    (hlast : t.getLast? ≠ some '\\') (h : PassedOver (t ++ s)) : PassedOver t := by
  have ht := complete_of_append hs hlast h.complete
  refine ⟨ht, fun hmem => h.no_brace ?_⟩
  rw [ht]
  exact List.mem_append_left _ hmem

end search

section selectors

variable {t blank : Text}

theorem splitPieces_blank (hblank : ∀ c ∈ blank, Text.isBlank c = true) (depth : Nat) :
    splitPieces depth (blank.map Piece.char) = [blank] := by
  induction blank with
  | nil => rfl
  | cons c blank ih =>
      have hc := hblank c List.mem_cons_self
      have hne : ∀ d, Text.isBlank d = false → c ≠ d := by
        rintro d hd rfl
        rw [hc] at hd
        contradiction
      have hdepth : selectorDepth depth (.char c) = depth := by
        simp [selectorDepth, hne '(' rfl, hne '[' rfl, hne ')' rfl, hne ']' rfl]
      have hrest := ih fun d hd => hblank d (List.mem_cons_of_mem c hd)
      simp [splitPieces, hne ',' rfl, hdepth, hrest, Piece.text]

theorem splitSelectors_append_blank (ht : Complete t)
    (hblank : ∀ c ∈ blank, Text.isBlank c = true) :
    splitSelectors (t ++ blank) = splitSelectors t := by
  have hplain : ∀ c ∈ blank, c ≠ '\\' ∧ Text.isQuote c = false := by
    intro c hc
    refine ⟨?_, Bool.eq_false_iff.2 fun hquote => ?_⟩
    · rintro rfl
      exact absurd (hblank _ hc) (by decide)
    · have hc := hblank c hc
      rw [Text.isBlank_of_isQuote hquote] at hc
      contradiction
  have hpieces : selectorLexis.pieces (t ++ blank) =
      selectorLexis.pieces t ++ blank.map Piece.char := by
    rw [← pieces_bare_self hplain]
    exact ht blank
  obtain ⟨parts, part, hparts, hwhole⟩ :=
    splitPieces_append (splitPieces_blank hblank) 0 (selectorLexis.pieces t)
  rw [splitSelectors, hpieces, hwhole, splitSelectors, hparts]
  simp only [List.map_append, List.map_cons, List.map_nil, Text.trim_append_blank part hblank]

end selectors

section comment

def asComment (body : Text) : Text := commentOpen ++ body ++ commentClose

theorem splitFirst?_commentClose {body : Text} (h : ¬ commentClose <:+: body) (t : Text) :
    Text.splitFirst? commentClose (body ++ commentClose ++ t) = some (body, t) := by
  induction body with
  | nil => rfl
  | cons c body ih =>
      rw [List.infix_cons_iff, not_or] at h
      have hlead : Text.dropLead? commentClose (c :: (body ++ commentClose ++ t)) = none := by
        rw [Text.dropLead?_eq_none_iff]
        intro hprefix
        -- the mark would begin with the last character of the body
        cases body with
        | nil => simp [commentClose] at hprefix
        | cons d body =>
            refine h.1 ?_
            rw [← List.cons_append, ← List.cons_append, List.append_assoc] at hprefix
            exact (Text.prefix_append_iff (by simp [commentClose]) _).1 hprefix
      rw [List.cons_append, List.cons_append, Text.splitFirst?, hlead, ih h.2]
      rfl

theorem stripComments_asComment {body : Text} (h : ¬ commentClose <:+: body) (t : Text) :
    stripComments (asComment body ++ t) = stripComments t := by
  have hthrough : throughComment (body ++ commentClose ++ t) = (body ++ commentClose, t) := by
    rw [throughComment, splitFirst?_commentClose h]
  rw [asComment, List.append_assoc, List.append_assoc, ← List.append_assoc body,
    stripComments_comment, hthrough]

theorem trimEnd_asComment (s body t : Text) :
    Text.trimEnd (s ++ asComment body ++ t) = s ++ asComment body ++ Text.trimEnd t := by
  have hend := Text.trimEnd_append_cons (s ++ commentOpen ++ body ++ ['*']) (c := '/') rfl t
  simpa [asComment, commentClose] using hend

end comment

section block

/-- What is left of a text is all of it, or stands behind a character that is no opening
brace. -/
def LeftBehind (t r : Text) : Prop := r = t ∨ ∃ w c, t = w ++ c :: r ∧ c ≠ '\x7b'

theorem LeftBehind.trans {t m r : Text} (h : LeftBehind t m) (hr : LeftBehind m r) :
    LeftBehind t r := by
  rcases hr with rfl | ⟨w, c, rfl, hc⟩
  · exact h
  · rcases h with rfl | ⟨v, d, rfl, -⟩
    · exact .inr ⟨w, c, rfl, hc⟩
    · exact .inr ⟨v ++ d :: w, c, by simp, hc⟩

theorem leftBehind_append (w : Text) {r : Text} (h : '\x7b' ∉ w) : LeftBehind (w ++ r) r := by
  rcases List.eq_nil_or_concat w with rfl | ⟨w, c, rfl⟩
  · exact .inl rfl
  · exact .inr ⟨w, c, by simp, fun hc => h (by simp [hc])⟩

theorem leftBehind_takeWhile {test : Char → Bool} (htest : test '\x7b' = false) {t a r : Text}
    (h : takeWhile test t = .matched a r) : LeftBehind t r := by
  obtain ⟨rfl, hin, -⟩ := takeWhile_eq_matched.1 h
  refine leftBehind_append a fun hbrace => ?_
  rw [hin _ hbrace] at htest
  contradiction

theorem leftBehind_comment {t text r : Text} (h : comment t = .matched text r) :
    LeftBehind t r := by
  obtain ⟨body, rfl, hsplit⟩ := comment_eq_matched.1 h
  rw [Text.eq_append_of_splitFirst? hsplit]
  exact .inr ⟨commentOpen ++ text ++ ['*'], '/', by simp [commentClose], by decide⟩

theorem leftBehind_filler {t r : Text} {parts : List Text} (h : filler t = .matched parts r) :
    LeftBehind t r := by
  induction h using many_induction with
  | nil => exact .inl rfl
  | cons t part m parts r h hnext hpart ih =>
      refine LeftBehind.trans ?_ ih
      rcases orElse_eq_matched.1 hpart with hseparators | ⟨-, hcomment⟩
      · exact leftBehind_takeWhile rfl (takeWhile1_eq_matched.1 hseparators).2
      · exact leftBehind_comment hcomment

/-- Only a block of two braces has no declarations and ends with two braces. -/
theorem eq_braces_of_declarationBlock {t x : Text} (h : declarationBlock t = .matched [] [])
    (ht : t <:+ x ++ ['\x7b', '\x7d']) : t = ['\x7b', '\x7d'] := by
  obtain ⟨u, m, hopen, h⟩ := bind_eq_matched.1 h
  obtain ⟨parts, n, hfiller, h⟩ := bind_eq_matched.1 h
  obtain ⟨ds, k, hmany, h⟩ := bind_eq_matched.1 h
  obtain ⟨v, r, hclose, h⟩ := bind_eq_matched.1 h
  obtain ⟨rfl, rfl⟩ := Outcome.matched.inj h
  obtain ⟨w, inside, hbrace, hopen⟩ := bind_eq_matched.1 (require_eq_matched.1 hopen)
  obtain ⟨blank, m', hblank, hopen⟩ := bind_eq_matched.1 hopen
  obtain ⟨-, rfl⟩ := Outcome.matched.inj hopen
  obtain rfl := literal_eq_matched.1 hbrace
  obtain rfl := literal_eq_matched.1 (require_eq_matched.1 hclose)
  have hnk : n = ['\x7d'] := by
    rcases many_eq_matched.1 hmany with ⟨-, hk, -⟩ | ⟨_, _, _, hnil, -⟩
    · exact hk.symm
    · contradiction
  have hinside : LeftBehind inside ['\x7d'] :=
    hnk ▸ (leftBehind_takeWhile rfl hblank).trans (leftBehind_filler hfiller)
  rcases hinside with rfl | ⟨w, c, rfl, hc⟩
  · rfl
  · -- the second brace from the end is in the block as well, and nothing there is a brace
    obtain ⟨v, hv⟩ := ht
    have hends : v ++ '\x7b' :: w ++ [c, '\x7d'] = x ++ ['\x7b', '\x7d'] := by simpa using hv
    have hpair := (List.append_inj' hends rfl).2
    exact absurd (List.cons.inj hpair).1 hc

end block

/-- The characters of plain selectors: letters, digits, dots, hashes, dashes, child combinators,
commas and spaces. -/
def isHeaderChar (c : Char) : Bool :=
  Text.isAlphanumeric c || c = '.' || c = '#' || c = '-' || c = '>' || c = ',' || c = ' '

section header

variable {c : Char} {s t u : Text}

theorem plain_of_isHeaderChar (h : isHeaderChar c = true) :
    c ≠ '\\' ∧ Text.isQuote c = false := by
  refine ⟨by rintro rfl; contradiction, Bool.eq_false_iff.2 fun hquote => ?_⟩
  simp only [Text.isQuote, Bool.or_eq_true, decide_eq_true_eq] at hquote
  rcases hquote with rfl | rfl <;> contradiction

theorem isBlank_of_isHeaderChar (h : isHeaderChar c = true) (hspace : c ≠ ' ') :
    Text.isBlank c = false :=
  @Text.isBlank_eq_false (fun c => isHeaderChar c && c ≠ ' ') (by decide +kernel) c
    (by simp [h, hspace])

theorem isBlank_of_isAlphanumeric (h : Text.isAlphanumeric c = true) : Text.isBlank c = false :=
  Text.isBlank_eq_false (by decide +kernel) h

theorem passedOver_header (hs : ∀ c ∈ s, isHeaderChar c = true) : PassedOver s :=
  passedOver_chars (fun c hc => plain_of_isHeaderChar (hs c hc))
    fun hbrace => absurd (hs _ hbrace) (by decide)

theorem stripComments_append (hs : ∀ c ∈ s, isHeaderChar c = true) (t : Text) :
    stripComments (s ++ t) = s ++ stripComments t := by
  induction s with
  | nil => rfl
  | cons c s ih =>
      have hc := hs c List.mem_cons_self
      have hslash : c ≠ '/' := by rintro rfl; contradiction
      have hquote := (plain_of_isHeaderChar hc).2
      rw [List.cons_append, stripComments_cons hquote hslash,
        ih fun d hd => hs d (List.mem_cons_of_mem c hd)]
      rfl

theorem stripComments_header (hs : ∀ c ∈ s, isHeaderChar c = true) : stripComments s = s := by
  have hstrip := stripComments_append hs []
  rwa [List.append_nil, show stripComments [] = [] by simp [stripComments], List.append_nil]
    at hstrip

theorem isHeaderChar_trimEnd (ht : ∀ c ∈ t, isHeaderChar c = true) :
    ∀ c ∈ Text.trimEnd t, isHeaderChar c = true := by
  obtain ⟨blank, htrim, -⟩ := Text.exists_blank_of_trimEnd t
  intro c hc
  refine ht c ?_
  rw [htrim]
  exact List.mem_append_left _ hc

theorem splitSelectors_trimEnd (hs : ∀ c ∈ s, isHeaderChar c = true)
    (ht : ∀ c ∈ t, isHeaderChar c = true) :
    splitSelectors (s ++ Text.trimEnd t) = splitSelectors (s ++ t) := by
  obtain ⟨blank, htrim, hblank⟩ := Text.exists_blank_of_trimEnd t
  have hcomplete : Complete (s ++ Text.trimEnd t) :=
    (passedOver_header hs).complete.append (passedOver_header (isHeaderChar_trimEnd ht)).complete
  calc splitSelectors (s ++ Text.trimEnd t)
      = splitSelectors (s ++ Text.trimEnd t ++ blank) :=
        (splitSelectors_append_blank hcomplete hblank).symm
    _ = splitSelectors (s ++ t) := by rw [List.append_assoc, ← htrim]

/-- The spaces before the first selector, and what the first selector begins with. -/
theorem exists_lead (hs : ∀ c ∈ s, isHeaderChar c = true)
    (hletter : ∃ c ∈ s, Text.isAlphanumeric c = true) :
    ∃ blank d r, s = blank ++ d :: r ∧ (∀ c ∈ blank, Text.isLayout c = true) ∧
      Text.isBlank d = false := by
  obtain ⟨c, hmem, hc⟩ := hletter
  cases hrest : s.dropWhile Text.isLayout with
  | nil =>
      have hlayout := List.dropWhile_eq_nil_iff.1 hrest c hmem
      rw [Text.isLayout_eq_false (isBlank_of_isAlphanumeric hc)] at hlayout
      contradiction
  | cons d r =>
      have hsplit : s = s.takeWhile Text.isLayout ++ d :: r := by
        rw [← hrest, List.takeWhile_append_dropWhile]
      have hd : Text.isLayout d = false := by
        have := List.head?_dropWhile_not Text.isLayout s
        rw [hrest] at this
        simpa using this
      refine ⟨_, d, r, hsplit, fun c hc => List.mem_takeWhile_imp hc, ?_⟩
      refine isBlank_of_isHeaderChar (hs d ?_) ?_
      · rw [hsplit]
        exact List.mem_append_right _ List.mem_cons_self
      · rintro rfl
        contradiction

theorem layout_lead {blank : Text} (hblank : ∀ c ∈ blank, Text.isLayout c = true)
    (hc : Text.isBlank c = false) (t : Text) : layout (blank ++ c :: t) = .matched blank (c :: t) :=
  takeWhile_eq_matched.2 ⟨rfl, hblank, by simpa using Text.isLayout_eq_false hc⟩

theorem selectorList_lead {blank : Text} (hblank : ∀ c ∈ blank, Text.isLayout c = true)
    (hc : Text.isBlank c = false) (hchar : isHeaderChar c = true) (hs : PassedOver (c :: s))
    (u : Text) :
    selectorList (blank ++ c :: s ++ '\x7b' :: u) =
      .matched (splitSelectors (stripComments (c :: Text.trimEnd s))) ('\x7b' :: u) := by
  have hclose : c ≠ '\x7d' := by rintro rfl; contradiction
  have hcut : untilBlock (c :: s ++ '\x7b' :: u) = (c :: s, '\x7b' :: u) := untilBlock_eq_iff.2 hs
  refine selectorList_eq_matched.2 ⟨blank, c :: s ++ '\x7b' :: u, ?_, by simpa using hclose, ?_, ?_⟩
  · rw [List.append_assoc]
    exact layout_lead hblank hc _
  · rw [hcut, Text.trim_cons hc]
  · rw [hcut]

theorem styleRule_of_selectorList {t r : Text} {selectors : List Text}
    (h : selectorList t = .matched selectors r) (hne : selectors ≠ []) :
    styleRule t = (declarationBlock r).map (Rule.style selectors) := by
  obtain ⟨s, ss, rfl⟩ := List.exists_cons_of_ne_nil hne
  unfold styleRule
  rw [bind_apply, h]
  refine (bind_apply declarationBlock _ r).trans ?_
  cases declarationBlock r <;> rfl

end header

section invisible

variable {blank s₁ s₂ body : Text} {d : Char}

theorem selectorList_header (hblank : ∀ c ∈ blank, Text.isLayout c = true)
    (hd : Text.isBlank d = false) (h₁ : ∀ c ∈ d :: s₁, isHeaderChar c = true)
    (h₂ : ∀ c ∈ s₂, isHeaderChar c = true) (u : Text) :
    selectorList (blank ++ d :: s₁ ++ s₂ ++ '\x7b' :: u) =
      .matched (splitSelectors (d :: s₁ ++ s₂)) ('\x7b' :: u) := by
  have hall : ∀ c ∈ d :: (s₁ ++ s₂), isHeaderChar c = true := by
    simpa [or_imp, forall_and, and_assoc] using And.intro h₁ h₂
  obtain ⟨hfirst, hrest⟩ := List.forall_mem_cons.1 hall
  have hend : ∀ c ∈ d :: Text.trimEnd (s₁ ++ s₂), isHeaderChar c = true :=
    List.forall_mem_cons.2 ⟨hfirst, isHeaderChar_trimEnd hrest⟩
  have hread := selectorList_lead hblank hd hfirst (passedOver_header hall) u
  rw [stripComments_header hend] at hread
  have hsplit : splitSelectors (d :: Text.trimEnd (s₁ ++ s₂)) = splitSelectors (d :: (s₁ ++ s₂)) :=
    splitSelectors_trimEnd (List.forall_mem_singleton.2 hfirst) hrest
  rw [hsplit] at hread
  simpa using hread

theorem selectorList_header_comment (hblank : ∀ c ∈ blank, Text.isLayout c = true)
    (hd : Text.isBlank d = false) (h₁ : ∀ c ∈ d :: s₁, isHeaderChar c = true)
    (h₂ : ∀ c ∈ s₂, isHeaderChar c = true) (hbody : ¬ commentClose <:+: body)
    (hpass : PassedOver (asComment body)) (u : Text) :
    selectorList (blank ++ d :: s₁ ++ asComment body ++ s₂ ++ '\x7b' :: u) =
      .matched (splitSelectors (d :: s₁ ++ s₂)) ('\x7b' :: u) := by
  have hwhole : PassedOver (d :: s₁ ++ asComment body ++ s₂) :=
    ((passedOver_header h₁).append hpass).append (passedOver_header h₂)
  have hread := selectorList_lead hblank hd (h₁ d List.mem_cons_self) hwhole u
  have hstrip : stripComments (d :: Text.trimEnd (s₁ ++ asComment body ++ s₂)) =
      d :: s₁ ++ Text.trimEnd s₂ := by
    calc stripComments (d :: Text.trimEnd (s₁ ++ asComment body ++ s₂))
        = stripComments (d :: s₁ ++ (asComment body ++ Text.trimEnd s₂)) := by
          rw [trimEnd_asComment, List.append_assoc, List.cons_append]
      _ = d :: s₁ ++ Text.trimEnd s₂ := by
          rw [stripComments_append h₁, stripComments_asComment hbody,
            stripComments_header (isHeaderChar_trimEnd h₂)]
  have hsplit := splitSelectors_trimEnd h₁ h₂
  rw [← hstrip] at hsplit
  rw [← hsplit]
  simpa using hread

/-- Where a comment goes unnoticed before a block of two braces, it is passed over. -/
theorem passedOver_of_styleRule {selectors : List Text}
    (hblank : ∀ c ∈ blank, Text.isLayout c = true) (hd : Text.isBlank d = false)
    (h₁ : ∀ c ∈ d :: s₁, isHeaderChar c = true) (h₂ : ∀ c ∈ s₂, isHeaderChar c = true)
    (h : styleRule (blank ++ d :: s₁ ++ asComment body ++ s₂ ++ ['\x7b', '\x7d']) =
      .matched (.style selectors []) []) : PassedOver (asComment body) := by
  obtain ⟨ss, m, ds, hselectors, -, hblock, hrule⟩ := styleRule_eq_matched.1 h
  obtain ⟨rfl, rfl⟩ := Rule.style.inj hrule
  have hsuffix := suffix_of_matched walks_selectorList hselectors
  obtain rfl := eq_braces_of_declarationBlock hblock hsuffix
  obtain ⟨blank', m, hlayout, -, -, hrest⟩ := selectorList_eq_matched.1 hselectors
  have htext : blank ++ d :: s₁ ++ asComment body ++ s₂ ++ ['\x7b', '\x7d'] =
      blank ++ d :: (s₁ ++ (asComment body ++ s₂) ++ ['\x7b', '\x7d']) := by simp
  rw [htext, layout_lead hblank hd] at hlayout
  obtain ⟨-, rfl⟩ := Outcome.matched.inj hlayout
  have hcut := untilBlock_append (d :: (s₁ ++ (asComment body ++ s₂) ++ ['\x7b', '\x7d']))
  rw [hrest, ← List.cons_append, ← List.cons_append] at hcut
  -- the search stopped at the block, and so passed over all that stands before it
  have hpass : PassedOver (d :: s₁ ++ (asComment body ++ s₂)) :=
    untilBlock_eq_iff.1 (Prod.ext (List.append_cancel_right hcut) hrest)
  refine (hpass.of_append_left (passedOver_header h₁).complete).of_append_right
    (fun c hc => (plain_of_isHeaderChar (h₂ c hc)).2) ?_
  simp [asComment, commentClose]

/-- A comment among plain selectors goes unnoticed, whatever the block, exactly if the search
for the block passes over it. -/
theorem styleRule_comment_iff {s₁ s₂ body : Text} (h₁ : ∀ c ∈ s₁, isHeaderChar c = true)
    (h₂ : ∀ c ∈ s₂, isHeaderChar c = true) (hletter : ∃ c ∈ s₁, Text.isAlphanumeric c = true)
    (hbody : ¬ commentClose <:+: body) :
    (∀ block : Text, block.head? = some '\x7b' →
        (styleRule (s₁ ++ asComment body ++ s₂ ++ block)).Agrees (styleRule (s₁ ++ s₂ ++ block))) ↔
      PassedOver (asComment body) := by
  obtain ⟨blank, d, r, rfl, hblank, hd⟩ := exists_lead h₁ hletter
  have hr : ∀ c ∈ d :: r, isHeaderChar c = true := fun c hc => h₁ c (List.mem_append_right _ hc)
  have hne : splitSelectors (d :: r ++ s₂) ≠ [] := by
    obtain ⟨c, hmem, hc⟩ := hletter
    have hnotBlank := isBlank_of_isAlphanumeric hc
    rcases List.mem_append.1 hmem with hmem | hmem
    · rw [Text.isBlank_of_isLayout (hblank c hmem)] at hnotBlank
      contradiction
    · exact splitSelectors_ne_nil (List.mem_append_left _ hmem) hnotBlank
        (by rintro rfl; contradiction)
  have hplain : ∀ u, styleRule (blank ++ d :: r ++ s₂ ++ '\x7b' :: u) =
      (declarationBlock ('\x7b' :: u)).map (Rule.style (splitSelectors (d :: r ++ s₂))) :=
    fun u => styleRule_of_selectorList (selectorList_header hblank hd hr h₂ u) hne
  constructor
  · intro h
    have hempty : declarationBlock ['\x7b', '\x7d'] = .matched [] [] :=
      @declarationBlock_renderBlock [] (by simp [BlockPrintable]) []
    have hagrees := h ['\x7b', '\x7d'] rfl
    rw [hplain, hempty] at hagrees
    exact passedOver_of_styleRule hblank hd hr h₂ (Outcome.Agrees.eq_matched hagrees)
  · intro hpass block hblock
    obtain ⟨u, rfl⟩ := List.head?_eq_some_iff.1 hblock
    rw [hplain, styleRule_of_selectorList
      (selectorList_header_comment hblank hd hr h₂ hbody hpass u) hne]
    exact Outcome.Agrees.refl _

theorem styleRule_comment_plain :
    PassedOver (asComment " x ".toList) ∧
      (styleRule ".a /* x */, .b\x7bc:d\x7d".toList).Agrees
        (styleRule ".a , .b\x7bc:d\x7d".toList) := by
  have hsearch : untilBlock (asComment " x ".toList ++ ['\x7b']) =
      (asComment " x ".toList, ['\x7b']) := by decide +kernel
  have hpass := untilBlock_eq_iff.1 hsearch
  have hiff := @styleRule_comment_iff ".a ".toList ", .b".toList " x ".toList
    (List.all_eq_true.1 rfl) (List.all_eq_true.1 rfl) ⟨'a', by decide, rfl⟩ (by decide)
  exact ⟨hpass, hiff.2 hpass "\x7bc:d\x7d".toList rfl⟩

/-- With an apostrophe in the comment no block is found, and with a brace a wrong one. -/
theorem styleRule_comment_noticed :
    styleRule ".a /* don't */, .b\x7bc:d\x7d".toList = .failure .missingOpenBrace [] ∧
      styleRule ".a /* \x7b */, .b\x7bc:d\x7d".toList =
        .failure .missingColon ", .b\x7bc:d\x7d".toList ∧
        styleRule ".a , .b\x7bc:d\x7d".toList =
          .matched (.style [".a".toList, ".b".toList] [⟨['c'], ['d']⟩]) [] := by
  decide +kernel

end invisible

end Grammar

end CssInliner
