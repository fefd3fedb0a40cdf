import CssInliner.Proofs.Lookahead.Stop
import CssInliner.Proofs.Printing.Printable
import CssInliner.Proofs.Reading
import CssInliner.Proofs.Text.Classes
import CssInliner.Stylesheet.Printer
import Mathlib.Data.List.Flatten

/-!
Printed declarations and frames are read back. Between two printed tokens there
is nothing to skip, since every token begins with a character that is no blank,
no semicolon and no start of a comment.
-/

namespace CssInliner

namespace Grammar

open CssInliner.Parser

theorem commentOpen_eq : commentOpen = ['/', '*'] := rfl

theorem stripComments_sublist (t : Text) : (stripComments t).Sublist t := by
  conv_rhs => rw [← Lexis.flatMap_text_pieces commentLexis t]
  exact List.filter_sublist.flatMap Piece.text

theorem weight_stripComments_le (t : Text) : (stripComments t).weight ≤ t.weight :=
  Text.weight_le_of_sublist (stripComments_sublist t)

theorem weight_stripComments_lt {t : Text} (h : commentOpen <+: t) :
    (stripComments t).weight < t.weight := by
  obtain ⟨body, rfl⟩ := h
  have hbody : (throughComment body).1.weight + (throughComment body).2.weight =
      Text.weight body := by
    rw [← Text.weight_append, throughComment_append]
  have hrest := weight_stripComments_le (throughComment body).2
  have hopen : Text.weight commentOpen = 2 := rfl
  rw [stripComments_comment, Text.weight_append, hopen]
  omega

/-- A text that begins with neither a blank nor a comment. -/
structure Plain (t : Text) : Prop where
  head : ∃ c r, t = c :: r ∧ Text.isBlank c = false
  bare : ¬ commentOpen <+: t

/-- A plain text that does not begin with a semicolon either: there is nothing to
skip. -/
structure Crisp (t : Text) : Prop extends Plain t where
  semicolon : t.head? ≠ some ';'

section Plain

variable {t : Text}

theorem plain_cons {c : Char} (hc : Text.isBlank c = false) (hslash : c ≠ '/') (r : Text) :
    Plain (c :: r) := by
  refine ⟨⟨c, r, rfl, hc⟩, ?_⟩
  rw [commentOpen_eq]
  intro h
  exact hslash (List.cons_prefix_cons.1 h).1.symm

theorem Plain.isBlank_head (h : Plain t) : ∀ c, t.head? = some c → Text.isBlank c = false := by
  obtain ⟨c, r, rfl, hc⟩ := h.head
  intro d hd
  obtain rfl : c = d := by simpa using hd
  exact hc

theorem Plain.layout_eq (h : Plain t) : layout t = .matched [] t := by
  refine takeWhile_eq_matched.2 ⟨rfl, by simp, ?_⟩
  exact fun c hc => Text.isLayout_eq_false (h.isBlank_head c hc)

theorem Plain.comments_eq (h : Plain t) : comments t = .matched [] t := by
  have hrule : commentRule t = .mismatch := by
    refine bind_eq_mismatch.2 (.inr ⟨[], t, h.layout_eq, ?_⟩)
    exact bind_eq_mismatch.2 (.inl (comment_eq_mismatch.2 h.bare))
  refine bind_eq_matched.2 ⟨[], t, many_eq_matched.2 (.inl ⟨rfl, rfl, hrule⟩), ?_⟩
  exact bind_eq_matched.2 ⟨[], t, h.layout_eq, rfl⟩

theorem crisp_cons {c : Char} (hc : Text.isBlank c = false) (hslash : c ≠ '/') (hsemi : c ≠ ';')
    (r : Text) : Crisp (c :: r) :=
  ⟨plain_cons hc hslash r, by simpa using hsemi⟩

theorem Crisp.isSeparator_head (h : Crisp t) : ∀ c, t.head? = some c → isSeparator c = false := by
  intro c hc
  have hsemi : c ≠ ';' := by
    rintro rfl
    exact h.semicolon hc
  simp [isSeparator, hsemi, h.isBlank_head c hc]

theorem Crisp.separators_eq (h : Crisp t) : separators t = .matched [] t :=
  takeWhile_eq_matched.2 ⟨rfl, by simp, h.isSeparator_head⟩

theorem Crisp.filler_eq (h : Crisp t) : filler t = .matched [] t := by
  have hpart : fillerPart t = .mismatch :=
    orElse_eq_mismatch.2
      ⟨takeWhile1_eq_mismatch.2 h.isSeparator_head, comment_eq_mismatch.2 h.bare⟩
  exact many_eq_matched.2 (.inl ⟨rfl, rfl, hpart⟩)

end Plain

theorem atItem_at (t : Text) : atItem ('@' :: t) = knownAtItem ('@' :: t) := by
  rw [atItem, bind_apply, (plain_cons rfl (by decide) t).layout_eq]

theorem crisp_openBrace (u : Text) : Crisp ('\x7b' :: u) :=
  crisp_cons rfl (by decide) (by decide) u

theorem crisp_closeBrace (u : Text) : Crisp ('\x7d' :: u) :=
  crisp_cons rfl (by decide) (by decide) u

theorem openBrace_eq_matched {t : Text} (h : Plain t) :
    openBrace ('\x7b' :: t) = .matched () t :=
  bind_eq_matched.2 ⟨(), t, literal_eq_matched.2 rfl, bind_eq_matched.2 ⟨[], t, h.layout_eq, rfl⟩⟩

theorem closeBrace_eq_matched (t : Text) : closeBrace ('\x7d' :: t) = .matched () t := by
  show literal ['\x7d'] ('\x7d' :: t) = .matched () t
  exact literal_eq_matched.2 rfl

section declarations

variable {d : Declaration}

theorem isBlank_of_isPropertyChar {c : Char} (hc : isPropertyChar c = true) :
    Text.isBlank c = false :=
  Text.isBlank_eq_false (by decide +kernel) hc

theorem isQuote_of_isPropertyChar {c : Char} (hc : isPropertyChar c = true) :
    Text.isQuote c = false := by
  refine Bool.eq_false_iff.2 fun hquote => ?_
  simp only [Text.isQuote, Bool.or_eq_true, decide_eq_true_eq] at hquote
  rcases hquote with rfl | rfl <;> exact absurd hc (by decide)

theorem of_propertySuffix {t r suffix : Text} (h : propertySuffix t = .matched suffix r) :
    t = suffix ++ r ∧ ∀ c ∈ suffix, Text.isBlank c = false := by
  obtain ⟨_, m, hopen, h⟩ := bind_eq_matched.1 h
  obtain ⟨name, n, hname, h⟩ := bind_eq_matched.1 h
  obtain ⟨_, k, hclose, h⟩ := bind_eq_matched.1 h
  obtain ⟨rfl, rfl⟩ := Outcome.matched.inj h
  obtain rfl := literal_eq_matched.1 hopen
  obtain ⟨rfl, hin, -⟩ := takeWhile_eq_matched.1 (takeWhile1_eq_matched.1 hname).2
  obtain rfl := literal_eq_matched.1 hclose
  refine ⟨by simp, fun c hc => ?_⟩
  simp only [List.cons_append, List.mem_cons, List.mem_append, List.not_mem_nil,
    or_false] at hc
  rcases hc with rfl | hc | rfl
  · rfl
  · exact Text.isBlank_eq_false (by decide) (hin c hc)
  · rfl

theorem of_propertyName {t r property : Text} (h : propertyName t = .matched property r) :
    t = property ++ r ∧ (∃ c s, property = c :: s ∧ isPropertyChar c = true) ∧
      ∀ c ∈ property, Text.isBlank c = false := by
  obtain ⟨name, m, hname, h⟩ := bind_eq_matched.1 h
  obtain ⟨suffix, n, hsuffix, h⟩ := bind_eq_matched.1 h
  obtain ⟨rfl, rfl⟩ := Outcome.matched.inj h
  obtain ⟨hne, hname⟩ := takeWhile1_eq_matched.1 hname
  obtain ⟨rfl, hin, -⟩ := takeWhile_eq_matched.1 hname
  obtain ⟨c, name, rfl⟩ := List.exists_cons_of_ne_nil hne
  have hblank : ∀ d ∈ c :: name, Text.isBlank d = false :=
    fun d hd => isBlank_of_isPropertyChar (hin d hd)
  refine ⟨?_, ⟨c, _, rfl, hin c List.mem_cons_self⟩, ?_⟩
  all_goals rcases optional_eq_matched.1 hsuffix with ⟨s, rfl, hread⟩ | ⟨rfl, rfl, -⟩
  · rw [(of_propertySuffix hread).1, List.append_assoc]
    rfl
  · simp
  · exact List.forall_mem_append.2 ⟨hblank, (of_propertySuffix hread).2⟩
  · simpa using hblank

theorem property_head (hd : d.Printable) :
    (∃ c s, d.property = c :: s ∧ isPropertyChar c = true) ∧
      ∀ c ∈ d.property, Text.isBlank c = false :=
  (of_propertyName hd.property_read).2

theorem crisp_declaration (hd : d.Printable) (u : Text) : Crisp (d.render ++ u) := by
  obtain ⟨⟨c, s, hproperty, hc⟩, -⟩ := property_head hd
  refine ⟨⟨⟨c, s ++ (':' :: d.value ++ u), ?_, isBlank_of_isPropertyChar hc⟩, ?_⟩, ?_⟩
  · simp [Declaration.render, hproperty]
  · intro hopen
    have hlong : commentOpen <+: d.property := by
      rw [Declaration.render, hproperty] at hopen
      rw [hproperty]
      cases s with
      | nil => simp [commentOpen_eq] at hopen
      | cons e s => simpa [commentOpen_eq] using hopen
    have := weight_stripComments_lt hlong
    rw [hd.property_bare] at this
    exact Nat.lt_irrefl _ this
  · rw [Declaration.render, hproperty]
    intro hhead
    obtain rfl : c = ';' := by simpa using hhead
    contradiction

/-- A value that ends at a semicolon ends at a closing brace as well. -/
theorem splitValue_append (hd : d.Printable) {stop : Char} (hstop : stop = ';' ∨ stop = '\x7d')
    (u : Text) : splitValue (d.value ++ stop :: u) = (d.value, stop :: u) := by
  obtain ⟨c, t, s, hsemi, hbound, hnext, hgo⟩ :=
    Lexis.exists_state_of_cut_bound rfl endsAtBounds_withinValue (by simp) hd.value_read
  obtain ⟨rfl, -⟩ := List.cons.inj hsemi
  rcases hstop with rfl | rfl
  · exact hgo ';' u rfl hnext
  · exact hgo '\x7d' u rfl rfl

theorem declaration_render (hd : d.Printable) {stop : Char} (hstop : stop = ';' ∨ stop = '\x7d')
    (u : Text) :
    declaration (d.render ++ stop :: u) =
      .matched d ((stop :: u).dropWhile isSeparator) := by
  have hstopLayout : Text.isLayout stop = false := by
    rcases hstop with rfl | rfl <;> rfl
  have hname : propertyName (d.render ++ stop :: u) =
      .matched d.property (':' :: (d.value ++ stop :: u)) := by
    rw [Declaration.render, List.append_assoc]
    exact stopsAt_propertyName.matched (stopsAt_propertyName.matched_nil hd.property_read) _
  have hcolon : layout (':' :: (d.value ++ stop :: u)) =
      .matched [] (':' :: (d.value ++ stop :: u)) := rfl
  have hvalue : layout (d.value ++ stop :: u) = .matched [] (d.value ++ stop :: u) := by
    refine takeWhile_eq_matched.2 ⟨rfl, by simp, ?_⟩
    intro c hc
    cases hv : d.value with
    | nil =>
        rw [hv] at hc
        obtain rfl : stop = c := by simpa using hc
        exact hstopLayout
    | cons e v =>
        rw [hv] at hc
        obtain rfl : e = c := by simpa using hc
        refine Text.isLayout_eq_false (Text.isBlank_of_trim_eq_cons (s := v) (t := d.value) ?_)
        rw [hd.value_trimmed, hv]
  refine bind_eq_matched.2 ⟨_, _, hname, bind_eq_matched.2 ⟨_, _, hcolon, ?_⟩⟩
  refine bind_eq_matched.2 ⟨(), _, require_eq_matched.2 (literal_eq_matched.2 rfl), ?_⟩
  refine bind_eq_matched.2 ⟨_, _, hvalue, ?_⟩
  refine bind_eq_matched.2 ⟨_, _, rawValue_eq_matched.2 (splitValue_append hd hstop u), ?_⟩
  refine bind_eq_matched.2 ⟨_, _, rfl, ?_⟩
  rw [hd.property_bare, hd.value_bare, hd.value_trimmed,
    Text.trim_eq_self (property_head hd).2]
  rfl

theorem declarationItem_render (hd : d.Printable) {stop : Char}
    (hstop : stop = ';' ∨ stop = '\x7d') {u r : Text}
    (hdrop : (stop :: u).dropWhile isSeparator = r) (hr : Crisp r) :
    declarationItem (d.render ++ stop :: u) = .matched d r := by
  refine bind_eq_matched.2 ⟨d, r, ?_, bind_eq_matched.2 ⟨[], r, hr.filler_eq, rfl⟩⟩
  rw [declaration_render hd hstop, hdrop]

theorem crisp_join_declarations {d : Declaration} {ds : List Declaration} (hd : d.Printable)
    (u : Text) : Crisp (Text.join [';'] ((d :: ds).map Declaration.render) ++ u) := by
  cases ds with
  | nil => exact crisp_declaration hd u
  | cons e ds =>
      simp only [List.map_cons, Text.join, List.append_assoc]
      exact crisp_declaration hd _

theorem many_declarationItem_join {ds : List Declaration} (hds : BlockPrintable ds) (u : Text) :
    many declarationItem advances_declarationItem
        (Text.join [';'] (ds.map Declaration.render) ++ '\x7d' :: u) =
      .matched ds ('\x7d' :: u) := by
  induction ds with
  | nil =>
      have hclose : declarationItem ('\x7d' :: u) = .mismatch := by
        refine bind_eq_mismatch.2 (.inl (bind_eq_mismatch.2 (.inl (bind_eq_mismatch.2 (.inl ?_)))))
        exact takeWhile1_eq_mismatch.2 (by simp; decide)
      exact many_eq_matched.2 (.inl ⟨rfl, rfl, hclose⟩)
  | cons d ds ih =>
      have hd : d.Printable := hds d List.mem_cons_self
      have hrest := ih fun e he => hds e (List.mem_cons_of_mem d he)
      refine many_eq_matched.2 (.inr ⟨d, ds, _, rfl, ?_, hrest⟩)
      cases ds with
      | nil => exact declarationItem_render hd (.inr rfl) rfl (crisp_closeBrace u)
      | cons e ds =>
          have hcrisp : Crisp (Text.join [';'] ((e :: ds).map Declaration.render) ++ '\x7d' :: u) :=
            crisp_join_declarations (hds e (by simp)) _
          have hdrop := (Outcome.matched.inj hcrisp.separators_eq).2
          simp only [List.map_cons, Text.join, List.append_assoc] at hcrisp hdrop ⊢
          exact declarationItem_render hd (.inl rfl) hdrop hcrisp

/-- A printed block is read back, whatever follows its brace. -/
theorem declarationBlock_renderBlock {ds : List Declaration} (hds : BlockPrintable ds)
    (u : Text) : declarationBlock (renderBlock ds ++ u) = .matched ds u := by
  have htext : renderBlock ds ++ u =
      '\x7b' :: (Text.join [';'] (ds.map Declaration.render) ++ '\x7d' :: u) := by
    simp [renderBlock]
  have hcrisp : Crisp (Text.join [';'] (ds.map Declaration.render) ++ '\x7d' :: u) := by
    cases ds with
    | nil => exact crisp_closeBrace u
    | cons d ds => exact crisp_join_declarations (hds d List.mem_cons_self) _
  rw [htext]
  refine bind_eq_matched.2 ⟨(), _, require_eq_matched.2 (openBrace_eq_matched hcrisp.toPlain), ?_⟩
  refine bind_eq_matched.2 ⟨[], _, hcrisp.filler_eq, ?_⟩
  refine bind_eq_matched.2 ⟨ds, _, many_declarationItem_join hds u, ?_⟩
  exact bind_eq_matched.2 ⟨(), u, require_eq_matched.2 (closeBrace_eq_matched u), rfl⟩

end declarations

section frames

def isFrameLead (c : Char) : Bool := Text.isDigit c || c = '.' || Text.isLowercase c

theorem fraction_eq_mismatch {t : Text} (h : t.head? ≠ some '.') : fraction t = .mismatch := by
  refine bind_eq_mismatch.2 (.inl (literal_eq_mismatch.2 ?_))
  rintro ⟨r, rfl⟩
  exact h rfl

theorem percentage_eq_mismatch {t : Text}
    (h : ∀ c, t.head? = some c → Text.isDigit c = false ∧ c ≠ '.') : percentage t = .mismatch := by
  have hdigits : digits t = .mismatch :=
    takeWhile1_eq_mismatch.2 fun c hc => (h c hc).1
  have hfraction : fraction t = .mismatch :=
    fraction_eq_mismatch fun hpoint => (h '.' hpoint).2 rfl
  have hdecimal : decimal t = .mismatch := bind_eq_mismatch.2 (.inl hdigits)
  refine bind_eq_mismatch.2 (.inl ?_)
  exact orElse_eq_mismatch.2 ⟨hdecimal, orElse_eq_mismatch.2 ⟨hfraction, hdigits⟩⟩

theorem keyframeSelector_eq_mismatch {t : Text}
    (h : ∀ c, t.head? = some c → isFrameLead c = false) : keyframeSelector t = .mismatch := by
  have hlead : ∀ c, t.head? = some c →
      Text.isDigit c = false ∧ c ≠ '.' ∧ Text.isLowercase c = false := by
    intro c hc
    simpa [isFrameLead, and_assoc] using h c hc
  refine orElse_eq_mismatch.2 ⟨percentage_eq_mismatch fun c hc => ?_, ?_⟩
  · exact ⟨(hlead c hc).1, (hlead c hc).2.1⟩
  · exact takeWhile1_eq_mismatch.2 fun c hc => (hlead c hc).2.2

theorem keyframeSelectorItem_eq_mismatch {c : Char} (hc : isFrameLead c = false) (u : Text) :
    keyframeSelectorItem (c :: u) = .mismatch := by
  refine bind_eq_mismatch.2 (.inl (keyframeSelector_eq_mismatch ?_))
  simpa using hc

theorem crisp_keyframeSelector {s : Text} (h : keyframeSelector s = .matched s []) (u : Text) :
    Crisp (s ++ u) := by
  have hlead : ∃ c t, s = c :: t ∧ isFrameLead c = true := by
    by_contra hnone
    have hmismatch := keyframeSelector_eq_mismatch (t := s) ?_
    · rw [hmismatch] at h
      contradiction
    · intro c hc
      obtain ⟨t, rfl⟩ := List.head?_eq_some_iff.1 hc
      cases hlead : isFrameLead c with
      | false => rfl
      | true => exact absurd ⟨c, t, rfl, hlead⟩ hnone
  obtain ⟨c, t, rfl, hc⟩ := hlead
  have hblank : Text.isBlank c = false := Text.isBlank_eq_false (by decide) hc
  have hne : ∀ d, isFrameLead d = false → c ≠ d := by
    rintro d hd rfl
    rw [hc] at hd
    contradiction
  exact crisp_cons hblank (hne '/' rfl) (hne ';' rfl) _

theorem keyframeSelectorItem_append {s : Text} (hs : keyframeSelector s = .matched s [])
    {u : Text} (hu : Crisp u) : keyframeSelectorItem (s ++ ',' :: u) = .matched s u := by
  have hread := (stopsAt_keyframeSelector ',' rfl rfl (by decide) (by decide)).matched hs u
  have hcomma : comma (',' :: u) = .matched () u :=
    bind_eq_matched.2 ⟨(), u, literal_eq_matched.2 rfl,
      bind_eq_matched.2 ⟨[], u, hu.layout_eq, rfl⟩⟩
  refine bind_eq_matched.2 ⟨s, ',' :: u, hread, bind_eq_matched.2 ⟨[], ',' :: u, rfl, ?_⟩⟩
  exact bind_eq_matched.2 ⟨some (), u, optional_eq_matched.2 (.inl ⟨(), rfl, hcomma⟩), rfl⟩

theorem keyframeSelectorItem_append_brace {s : Text} (hs : keyframeSelector s = .matched s [])
    (u : Text) : keyframeSelectorItem (s ++ '\x7b' :: u) = .matched s ('\x7b' :: u) := by
  have hread := (stopsAt_keyframeSelector '\x7b' rfl rfl (by decide) (by decide)).matched hs u
  have hcomma : comma ('\x7b' :: u) = .mismatch :=
    bind_eq_mismatch.2 (.inl (literal_eq_mismatch.2 (by simp)))
  refine bind_eq_matched.2 ⟨s, '\x7b' :: u, hread, bind_eq_matched.2 ⟨[], '\x7b' :: u, rfl, ?_⟩⟩
  exact bind_eq_matched.2 ⟨none, _, optional_eq_matched.2 (.inr ⟨rfl, rfl, hcomma⟩), rfl⟩

theorem crisp_join_selectors {ss : List Text}
    (hss : ∀ s ∈ ss, keyframeSelector s = .matched s []) {u : Text} (hu : Crisp u) :
    Crisp (Text.join [','] ss ++ u) := by
  cases ss with
  | nil => exact hu
  | cons s ss =>
      have hs := hss s List.mem_cons_self
      cases ss with
      | nil => exact crisp_keyframeSelector hs u
      | cons s' ss =>
          simp only [Text.join, List.append_assoc]
          exact crisp_keyframeSelector hs _

theorem many_keyframeSelectorItem_join {ss : List Text}
    (hss : ∀ s ∈ ss, keyframeSelector s = .matched s []) (u : Text) :
    many keyframeSelectorItem advances_keyframeSelectorItem
        (Text.join [','] ss ++ '\x7b' :: u) = .matched ss ('\x7b' :: u) := by
  induction ss with
  | nil =>
      exact many_eq_matched.2 (.inl ⟨rfl, rfl, keyframeSelectorItem_eq_mismatch rfl u⟩)
  | cons s ss ih =>
      have hs := hss s List.mem_cons_self
      have htail : ∀ s ∈ ss, keyframeSelector s = .matched s [] :=
        fun s' hs' => hss s' (List.mem_cons_of_mem s hs')
      refine many_eq_matched.2 (.inr ⟨s, ss, _, rfl, ?_, ih htail⟩)
      cases ss with
      | nil => exact keyframeSelectorItem_append_brace hs u
      | cons s' ss =>
          simp only [Text.join, List.append_assoc]
          exact keyframeSelectorItem_append hs (crisp_join_selectors htail (crisp_openBrace u))

variable {frame : Keyframe}

theorem crisp_frame (hframe : frame.Printable) (u : Text) : Crisp (frame.render ++ u) := by
  rw [Keyframe.render, List.append_assoc]
  exact crisp_join_selectors hframe.selectors_read (crisp_openBrace _)

theorem keyframe_render (hframe : frame.Printable) (u : Text) :
    keyframe (frame.render ++ u) = .matched frame u := by
  refine bind_eq_matched.2 ⟨[], _, (crisp_frame hframe u).layout_eq, ?_⟩
  have hselectors : many keyframeSelectorItem advances_keyframeSelectorItem (frame.render ++ u) =
      .matched frame.selectors (renderBlock frame.declarations ++ u) := by
    rw [Keyframe.render, List.append_assoc]
    exact many_keyframeSelectorItem_join hframe.selectors_read _
  refine bind_eq_matched.2 ⟨frame.selectors, _, hselectors, ?_⟩
  have hne : frame.selectors.isEmpty = false := by simpa using hframe.selectors_ne_nil
  rw [hne]
  exact bind_eq_matched.2 ⟨_, u, declarationBlock_renderBlock hframe.block u, rfl⟩

theorem crisp_frames {frames : List Keyframe} (hframes : ∀ frame ∈ frames, frame.Printable)
    (u : Text) : Crisp (frames.flatMap Keyframe.render ++ '\x7d' :: u) := by
  cases frames with
  | nil => exact crisp_closeBrace u
  | cons frame frames =>
      simp only [List.flatMap_cons, List.append_assoc]
      exact crisp_frame (hframes frame List.mem_cons_self) _

theorem many_keyframeItem_render {frames : List Keyframe}
    (hframes : ∀ frame ∈ frames, frame.Printable) (u : Text) :
    many keyframeItem advances_keyframeItem (frames.flatMap Keyframe.render ++ '\x7d' :: u) =
      .matched frames ('\x7d' :: u) := by
  induction frames with
  | nil =>
      have hnone : many keyframeSelectorItem advances_keyframeSelectorItem ('\x7d' :: u) =
          .matched [] ('\x7d' :: u) :=
        many_eq_matched.2 (.inl ⟨rfl, rfl, keyframeSelectorItem_eq_mismatch rfl u⟩)
      have hclose : keyframe ('\x7d' :: u) = .mismatch :=
        bind_eq_mismatch.2 (.inr ⟨[], _, (crisp_closeBrace u).layout_eq,
          bind_eq_mismatch.2 (.inr ⟨[], _, hnone, rfl⟩)⟩)
      exact many_eq_matched.2 (.inl ⟨rfl, rfl, bind_eq_mismatch.2 (.inl hclose)⟩)
  | cons frame frames ih =>
      have htail : ∀ frame ∈ frames, frame.Printable :=
        fun f hf => hframes f (List.mem_cons_of_mem frame hf)
      refine many_eq_matched.2 (.inr ⟨frame, frames, _, rfl, ?_, ih htail⟩)
      rw [List.flatMap_cons, List.append_assoc]
      refine bind_eq_matched.2 ⟨frame, _, keyframe_render (hframes frame List.mem_cons_self) _, ?_⟩
      exact bind_eq_matched.2 ⟨[], _, (crisp_frames htail u).comments_eq, rfl⟩

end frames

end Grammar

end CssInliner
