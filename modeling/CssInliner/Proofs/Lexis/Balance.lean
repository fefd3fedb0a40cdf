import CssInliner.Proofs.Lexis.Nesting
import Mathlib.Data.List.Infix
import Mathlib.Order.Bounds.Basic

/-!
Which span is the first of a text, in terms of the text alone. A grammar says how a text
is read from left to right, and so which positions a search comes to: those outside
escapes, strings and earlier matches of its marker. The first span goes from the first
position where the marker matches to the first one behind it where as many delimiters
have closed as opened.
-/

namespace CssInliner

/-- A literal marker has text, and a pattern takes no more of a text than there is. -/
def Marker.Proper : Marker → Prop
  | literal text => text ≠ []
  | pattern measure => ∀ t n, measure t = some n → n ≤ t.length

theorem Marker.Proper.matchAt_bounds {M : Marker} (hM : M.Proper) {t : Text} {n : Nat}
    (h : M.matchAt t = some n) : 0 < n ∧ n ≤ t.length := by
  cases M with
  | literal text =>
      obtain ⟨rest, hrest, rfl⟩ := Option.map_eq_some_iff.1 h
      have hlen := congrArg List.length (Text.eq_append_of_dropLead? hrest)
      have hpos := List.length_pos_iff.2 hM
      simp only [List.length_append] at hlen
      omega
  | pattern measure =>
      obtain ⟨hmeasure, hpos⟩ := Option.filter_eq_some_iff.1 h
      exact ⟨of_decide_eq_true hpos, hM t n hmeasure⟩

section grammar

/-- What may stand between the quotes of a string: escapes, and other characters than the
quote. -/
inductive Unquoted (quote : Char) : Text → Prop
  | nil : Unquoted quote []
  | escape (c : Char) {t : Text} (ht : Unquoted quote t) : Unquoted quote ('\\' :: c :: t)
  | char {c : Char} {t : Text} (hesc : c ≠ '\\') (hquote : c ≠ quote) (ht : Unquoted quote t) :
      Unquoted quote (c :: t)

/-- What a search for the marker reads first of a text, and the text it leaves. -/
inductive Marker.Reads (M : Marker) : Text → Piece → Text → Prop
  | escape (c : Char) (t : Text) : M.Reads ('\\' :: c :: t) (.escape ['\\', c]) t
  | lastEscape : M.Reads ['\\'] (.escape ['\\']) []
  | quoted {quote : Char} {inside : Text} (t : Text) (hquote : Text.isQuote quote = true)
      (hinside : Unquoted quote inside) :
      M.Reads (quote :: (inside ++ quote :: t)) (.quoted (quote :: (inside ++ [quote]))) t
  /-- Without its closing quote a string takes all the text, a last backslash included. -/
  | unclosed {quote : Char} {inside last : Text} (hquote : Text.isQuote quote = true)
      (hinside : Unquoted quote inside) (hlast : last = [] ∨ last = ['\\']) :
      M.Reads (quote :: (inside ++ last)) (.quoted (quote :: (inside ++ last))) []
  | opener {c : Char} {o t : Text} (hesc : c ≠ '\\') (hquote : Text.isQuote c = false)
      (hmatch : M.matchAt (c :: (o ++ t)) = some (o.length + 1)) :
      M.Reads (c :: (o ++ t)) (.opener (c :: o)) t
  | char {c : Char} {t : Text} (hesc : c ≠ '\\') (hquote : Text.isQuote c = false)
      (hmatch : M.matchAt (c :: t) = none) : M.Reads (c :: t) (.char c) t

theorem ne_escape_of_isQuote {quote : Char} (h : Text.isQuote quote = true) : quote ≠ '\\' := by
  rintro rfl
  contradiction

variable {quote : Char} {inside : Text}

theorem throughQuote_of_unquoted (hquote : Text.isQuote quote = true) (h : Unquoted quote inside)
    (t : Text) : throughQuote quote (inside ++ quote :: t) = (inside ++ [quote], t) := by
  induction h with
  | nil => rw [List.nil_append, throughQuote_cons (ne_escape_of_isQuote hquote), if_pos rfl]; rfl
  | escape c _ ih => simp only [List.cons_append, throughQuote, ih]
  | char hesc hne _ ih => rw [List.cons_append, throughQuote_cons hesc, if_neg hne, ih]; rfl

theorem throughQuote_of_unclosed (hquote : Text.isQuote quote = true) (h : Unquoted quote inside)
    {last : Text} (hlast : last = [] ∨ last = ['\\']) :
    throughQuote quote (inside ++ last) = (inside ++ last, []) := by
  induction h with
  | nil =>
      rcases hlast with rfl | rfl
      · rfl
      · simp [throughQuote, (ne_escape_of_isQuote hquote).symm]
  | escape c _ ih => simp only [List.cons_append, throughQuote, ih]
  | char hesc hne _ ih => rw [List.cons_append, throughQuote_cons hesc, if_neg hne, ih]

theorem throughQuote_cases (quote : Char) (t : Text) :
    (∃ inside, Unquoted quote inside ∧ (throughQuote quote t).1 = inside ++ [quote] ∧
        inside ++ quote :: (throughQuote quote t).2 = t) ∨
      ∃ inside last, Unquoted quote inside ∧ (last = [] ∨ last = ['\\']) ∧
        (throughQuote quote t).1 = t ∧ inside ++ last = t ∧ (throughQuote quote t).2 = [] := by
  fun_induction throughQuote quote t with
  | case1 => exact .inr ⟨[], [], .nil, .inl rfl, rfl, rfl, rfl⟩
  | case2 c t inside after hrec ih =>
      rw [hrec] at ih
      rcases ih with ⟨text, htext, rfl, rfl⟩ | ⟨text, last, htext, hlast, rfl, rfl, rfl⟩
      · exact .inl ⟨_, .escape c htext, rfl, rfl⟩
      · exact .inr ⟨_, last, .escape c htext, hlast, rfl, rfl, rfl⟩
  | case3 t hesc => exact .inl ⟨[], .nil, rfl, rfl⟩
  | case4 c t hesc hne inside after hrec ih =>
      rw [hrec] at ih
      by_cases hc : c = '\\'
      · -- a backslash that escapes nothing is the last character
        subst hc
        have ht : t = [] := by
          cases t with
          | nil => rfl
          | cons d t => exact absurd rfl (hesc d t rfl)
        subst ht
        obtain ⟨rfl, rfl⟩ := Prod.mk.inj hrec
        exact .inr ⟨[], ['\\'], .nil, .inr rfl, rfl, rfl, rfl⟩
      · rcases ih with ⟨text, htext, rfl, rfl⟩ | ⟨text, last, htext, hlast, rfl, rfl, rfl⟩
        · exact .inl ⟨_, .char hc hne htext, rfl, rfl⟩
        · exact .inr ⟨_, last, .char hc hne htext, hlast, rfl, rfl, rfl⟩

variable {M : Marker}

theorem Marker.Reads.step_eq {t rest : Text} {p : Piece} (h : M.Reads t p rest) :
    M.lexis.step t = some (p, rest) := by
  cases h with
  | escape c t => rw [M.step_lexis, if_pos rfl]; rfl
  | lastEscape => rw [M.step_lexis, if_pos rfl]; rfl
  | quoted t hquote hinside =>
      rw [M.step_lexis, if_neg (ne_escape_of_isQuote hquote), if_pos hquote,
        throughQuote_of_unquoted hquote hinside]
  | unclosed hquote hinside hlast =>
      rw [M.step_lexis, if_neg (ne_escape_of_isQuote hquote), if_pos hquote,
        throughQuote_of_unclosed hquote hinside hlast]
  | @opener c o t hesc hquote hmatch =>
      rw [M.step_lexis, if_neg hesc, if_neg (by simp [hquote]), hmatch]
      simp
  | char hesc hquote hmatch =>
      rw [M.step_lexis, if_neg hesc, if_neg (by simp [hquote]), hmatch]

theorem Marker.reads_quoted {c : Char} (hquote : Text.isQuote c = true) (t : Text) :
    M.Reads (c :: t) (.quoted (c :: (throughQuote c t).1)) (throughQuote c t).2 := by
  rcases throughQuote_cases c t with
    ⟨inside, hinside, hread, htext⟩ | ⟨inside, last, hinside, hlast, hread, htext, hnil⟩
  · have hreads := Marker.Reads.quoted (M := M) (throughQuote c t).2 hquote hinside
    rwa [htext, ← hread] at hreads
  · have hreads := Marker.Reads.unclosed (M := M) hquote hinside hlast
    rw [hread, hnil]
    rwa [htext] at hreads

theorem Marker.Proper.reads_opener (hM : M.Proper) {c : Char} {t : Text} {n : Nat}
    (hesc : c ≠ '\\') (hquote : Text.isQuote c = false) (hmatch : M.matchAt (c :: t) = some n) :
    M.Reads (c :: t) (.opener (c :: t.take (n - 1))) (t.drop (n - 1)) := by
  obtain ⟨hpos, hle⟩ := hM.matchAt_bounds hmatch
  have htake : (t.take (n - 1)).length + 1 = n := by
    simp only [List.length_cons] at hle
    rw [List.length_take]
    omega
  have hmatch' : M.matchAt (c :: (t.take (n - 1) ++ t.drop (n - 1))) =
      some ((t.take (n - 1)).length + 1) := by
    rw [List.take_append_drop, htake, hmatch]
  have hreads := Marker.Reads.opener hesc hquote hmatch'
  rwa [List.take_append_drop] at hreads

theorem Marker.Proper.reads_iff (hM : M.Proper) {t rest : Text} {p : Piece} :
    M.Reads t p rest ↔ M.lexis.step t = some (p, rest) := by
  refine ⟨Reads.step_eq, fun h => ?_⟩
  cases t with
  | nil => contradiction
  | cons c t =>
      rw [M.step_lexis] at h
      by_cases hesc : c = '\\'
      · subst hesc
        rw [if_pos rfl] at h
        obtain ⟨rfl, rfl⟩ := Prod.mk.inj (Option.some.inj h)
        cases t with
        | nil => exact .lastEscape
        | cons d t => exact .escape d t
      rw [if_neg hesc] at h
      by_cases hquote : Text.isQuote c = true
      · rw [if_pos hquote] at h
        obtain ⟨rfl, rfl⟩ := Prod.mk.inj (Option.some.inj h)
        exact reads_quoted hquote t
      rw [if_neg hquote] at h
      rw [Bool.not_eq_true] at hquote
      cases hmatch : M.matchAt (c :: t) with
      | none =>
          rw [hmatch] at h
          obtain ⟨rfl, rfl⟩ := Prod.mk.inj (Option.some.inj h)
          exact .char hesc hquote hmatch
      | some n =>
          rw [hmatch] at h
          obtain ⟨rfl, rfl⟩ := Prod.mk.inj (Option.some.inj h)
          exact hM.reads_opener hesc hquote hmatch

/-- Piece by piece: the pieces that are read, and the text that is left. -/
inductive Marker.Scans (M : Marker) : Text → List Piece → Text → Prop
  | done (t : Text) : M.Scans t [] t
  | read {t u rest : Text} {p : Piece} {ps : List Piece} (hread : M.Reads t p u)
      (hscans : M.Scans u ps rest) : M.Scans t (p :: ps) rest

theorem Marker.Proper.scans_iff (hM : M.Proper) {t rest : Text} {ps : List Piece} :
    M.Scans t ps rest ↔ M.lexis.pieces t = ps ++ M.lexis.pieces rest := by
  constructor
  · intro h
    induction h with
    | done t => rfl
    | read hread _ ih => rw [Lexis.pieces_of_step (hM.reads_iff.1 hread), ih, List.cons_append]
  · intro h
    induction ps generalizing t with
    | nil =>
        obtain rfl := Lexis.pieces_inj h
        exact .done t
    | cons p ps ih =>
        obtain ⟨u, hstep, hpieces⟩ := Lexis.step_of_pieces h
        exact .read (hM.reads_iff.2 hstep) (ih hpieces)

end grammar

section complete

open Lexis (bare)

/-- A piece that is read before any text is a character, an escape or a closed string. -/
theorem text_of_step_bare {p : Piece} (h : ∀ u, bare.step (p.text ++ u) = some (p, u)) :
    (∃ c, p.text = [c]) ∨ (∃ c, p.text = ['\\', c]) ∨
      ∃ quote inside, Text.isQuote quote = true ∧ p.text = inside ++ [quote] := by
  have hproper : Marker.never.Proper := fun t n hn => by contradiction
  -- with text behind it the piece is read by a rule that leaves some
  have hreads : Marker.never.Reads (p.text ++ [')']) p [')'] :=
    hproper.reads_iff.2 (h [')'])
  obtain ⟨z, hz⟩ : ∃ z, p.text ++ [')'] = z := ⟨_, rfl⟩
  obtain ⟨w, hw⟩ : ∃ w, [')'] = w := ⟨_, rfl⟩
  rw [hz, hw] at hreads
  cases hreads with
  | escape c t => exact .inr (.inl ⟨c, rfl⟩)
  | lastEscape => contradiction
  | @quoted quote inside t hquote hinside => exact .inr (.inr ⟨quote, quote :: inside, hquote, rfl⟩)
  | unclosed hquote hinside hlast => contradiction
  | opener hesc hquote hmatch => simp at hmatch
  | @char c t hesc hquote hmatch => exact .inl ⟨c, rfl⟩

/-- A text is complete if a longer one is, unless a string or an escape takes in what was
added. -/
theorem complete_of_append {s t : Text} (hs : ∀ c ∈ s, Text.isQuote c = false)
    (hlast : t.getLast? ≠ some '\\') (h : Complete (t ++ s)) : Complete t := by
  cases hstep : bare.step (t ++ s) with
  | none =>
      obtain ⟨rfl, -⟩ := List.append_eq_nil_iff.1 (Lexis.step_eq_none_iff.1 hstep)
      exact .nil
  | some found =>
      obtain ⟨p, rest⟩ := found
      obtain ⟨hp, hrest⟩ := h.step hstep
      rcases List.append_eq_append_iff.1 (Lexis.append_of_step hstep) with
        ⟨t', ht, rfl⟩ | ⟨s', htext, rfl⟩
      · -- the piece lies in the text, and what is left of the text is shorter
        have hlt : t'.length < t.length := by
          have := List.length_pos_iff.2 (Lexis.text_ne_nil_of_step hstep)
          rw [ht, List.length_append]
          omega
        have hlast' : t'.getLast? ≠ some '\\' := by
          intro hbackslash
          refine hlast ?_
          rw [ht, List.getLast?_append, hbackslash]
          rfl
        rw [ht]
        exact (Complete.of_step hp).append (complete_of_append hs hlast' hrest)
      · -- the piece reaches what was added only as an escape or as a string that ends there
        by_cases hs' : s' = []
        · rw [hs', List.append_nil] at htext
          rw [← htext]
          exact .of_step hp
        obtain ⟨b, d, rfl⟩ : ∃ b d, s' = b ++ [d] := by
          simpa using (List.eq_nil_or_concat s').resolve_left hs'
        rw [← List.append_assoc] at htext
        rcases text_of_step_bare hp with ⟨c, hc⟩ | ⟨c, hc⟩ | ⟨quote, inside, hquote, hinside⟩
        · rw [htext, ← List.nil_append [c]] at hc
          obtain ⟨rfl, -⟩ := List.append_eq_nil_iff.1 (List.append_inj' hc rfl).1
          exact .nil
        · have hboth : t ++ b ++ [d] = ['\\'] ++ [c] := htext.symm.trans hc
          have hfront := (List.append_inj' hboth rfl).1
          rcases List.append_eq_singleton_iff.1 hfront with ⟨rfl, -⟩ | ⟨rfl, -⟩
          · exact .nil
          · contradiction
        · rw [htext] at hinside
          obtain rfl : d = quote := by simpa using (List.append_inj' hinside rfl).2
          rw [hs d (by simp)] at hquote
          contradiction
termination_by t.length

end complete

def Piece.bytes (ps : List Piece) : Nat := Text.byteLength (ps.flatMap Piece.text)

def Piece.isActive : Piece → Bool
  | char _ | opener _ => true
  | _ => false

def Piece.opens (close : Char) : Piece → Bool
  | opener _ => true
  | char c => Span.pairedOpen close = some c
  | _ => false

def Piece.closes (close : Char) : Piece → Bool
  | char c => c = close
  | _ => false

namespace Marker

/-- A search comes to an active position of the text: behind the pieces `ps`, where `p`
begins. -/
def Active (M : Marker) (t : Text) (ps : List Piece) (p : Piece) : Prop :=
  p.isActive = true ∧ ∃ rest, M.Scans t (ps ++ [p]) rest

/-- The byte index `n` is an active position where an opener begins. -/
def OpensAt (M : Marker) (t : Text) (n : Nat) : Prop :=
  ∃ ps o, M.Active t ps (.opener o) ∧ Piece.bytes ps = n

/-- The byte index `n` is an active position behind `start` where, counted from `start`,
as many levels have closed as opened. -/
def LevelAt (M : Marker) (close : Char) (t : Text) (start n : Nat) : Prop :=
  ∃ before ps p, M.Active t (before ++ ps) p ∧ Piece.bytes before = start ∧
    Piece.bytes (before ++ ps) = n ∧ start < n ∧
      (ps ++ [p]).countP (Piece.closes close) = (ps ++ [p]).countP (Piece.opens close)

end Marker

section bytes

theorem Text.byteLength_pos {t : Text} (h : t ≠ []) : 0 < t.byteLength := by
  cases t with
  | nil => contradiction
  | cons c t =>
      have := c.utf8Size_pos
      rw [byteLength_cons]
      omega

theorem Text.append_inj_of_byteLength {s t u v : Text} (h : s ++ u = t ++ v)
    (hlen : s.byteLength = t.byteLength) : s = t ∧ u = v := by
  have hs : s = t := by
    rw [← takeBytes_byteLength_append s u, h, hlen, takeBytes_byteLength_append]
  subst hs
  exact ⟨rfl, List.append_cancel_left h⟩

theorem Piece.bytes_append (ps qs : List Piece) :
    Piece.bytes (ps ++ qs) = Piece.bytes ps + Piece.bytes qs := by
  rw [bytes, List.flatMap_append, Text.byteLength_append]
  rfl

namespace Lexis

variable {L : Lexis} {t : Text} {ps qs : List Piece}

theorem text_ne_nil_of_mem_pieces {p : Piece} (h : p ∈ L.pieces t) : p.text ≠ [] := by
  fun_induction pieces L t with
  | case1 => contradiction
  | case2 t q rest hstep _ ih =>
      rcases List.mem_cons.1 h with rfl | h
      · exact text_ne_nil_of_step hstep
      · exact ih h

theorem exists_rest_of_prefix (h : ps <+: L.pieces t) :
    ∃ rest, L.pieces t = ps ++ L.pieces rest := by
  induction ps generalizing t with
  | nil => exact ⟨t, rfl⟩
  | cons p ps ih =>
      cases hstep : L.step t with
      | none => simp [step_eq_none_iff.1 hstep] at h
      | some found =>
          obtain ⟨q, u⟩ := found
          rw [pieces_of_step hstep] at h ⊢
          obtain ⟨rfl, hps⟩ := List.cons_prefix_cons.1 h
          obtain ⟨rest, hrest⟩ := ih hps
          exact ⟨rest, by rw [hrest, List.cons_append]⟩

theorem prefix_behind_opener {lead : List Piece} {o inner : Text}
    (hpieces : L.pieces t = lead ++ .opener o :: L.pieces inner) (h : qs <+: L.pieces inner) :
    lead ++ .opener o :: qs <+: L.pieces t := by
  rw [hpieces, List.prefix_append_right_inj]
  exact List.cons_prefix_cons.2 ⟨rfl, h⟩

theorem bytes_lt_iff (hps : ps <+: L.pieces t) (hqs : qs <+: L.pieces t) :
    Piece.bytes ps < Piece.bytes qs ↔ ps.length < qs.length := by
  constructor
  · intro h
    by_contra hle
    obtain ⟨more, rfl⟩ := List.prefix_of_prefix_length_le hqs hps (Nat.le_of_not_lt hle)
    rw [Piece.bytes_append] at h
    omega
  · intro h
    obtain ⟨more, rfl⟩ := List.prefix_of_prefix_length_le hps hqs (Nat.le_of_lt h)
    cases more with
    | nil => simp at h
    | cons p more =>
        have hp : p ∈ L.pieces t := hqs.subset (by simp)
        have hpos := Text.byteLength_pos (text_ne_nil_of_mem_pieces hp)
        rw [Piece.bytes_append, Piece.bytes, Piece.bytes, List.flatMap_cons,
          Text.byteLength_append]
        omega

theorem eq_of_bytes_eq (hps : ps <+: L.pieces t) (hqs : qs <+: L.pieces t)
    (h : Piece.bytes ps = Piece.bytes qs) : ps = qs := by
  have hlt := bytes_lt_iff hps hqs
  have hgt := bytes_lt_iff hqs hps
  have hlength : ps.length = qs.length := by omega
  exact (List.prefix_of_prefix_length_le hps hqs hlength.le).eq_of_length hlength

end Lexis

end bytes

section levels

variable {M : Marker} {close : Char} {t : Text}

theorem Span.pairedOpen_ne_self (close : Char) : pairedOpen close ≠ some close := by
  unfold pairedOpen
  split <;> simp_all

theorem Span.nest_count {p : Piece} {depth depth' : Nat}
    (h : nest close depth p = some depth') :
    depth' + (if p.closes close then 1 else 0) = depth + (if p.opens close then 1 else 0) := by
  cases p with
  | char c =>
      simp only [nest] at h
      by_cases hopen : pairedOpen close = some c
      · have hne : c ≠ close := by
          rintro rfl
          exact pairedOpen_ne_self c hopen
        simp_all [Piece.closes, Piece.opens]
      rw [if_neg hopen] at h
      by_cases hclose : c = close
      · rw [if_pos hclose] at h
        split at h
        · contradiction
        · simp_all [Piece.closes, Piece.opens]
          omega
      · simp_all [Piece.closes, Piece.opens]
  | _ => simp_all [nest, Piece.closes, Piece.opens]

/-- Levels that are open behind the pieces were opened before or in them and not closed. -/
theorem Span.foldlM_nest_count {ps : List Piece} {depth depth' : Nat}
    (h : ps.foldlM (nest close) depth = some depth') :
    depth' + ps.countP (Piece.closes close) = depth + ps.countP (Piece.opens close) := by
  induction ps generalizing depth with
  | nil =>
      obtain rfl : depth = depth' := Option.some.inj h
      rfl
  | cons p ps ih =>
      rw [List.foldlM_cons] at h
      obtain ⟨depth₁, hnest, h⟩ := Option.bind_eq_some_iff.1 h
      have hp := nest_count hnest
      have hps := ih h
      rw [List.countP_cons, List.countP_cons]
      omega

theorem Span.closes_le_opens {ps qs : List Piece} {depth : Nat}
    (h : ps.foldlM (nest close) 0 = some depth) (hqs : qs <+: ps) :
    qs.countP (Piece.closes close) ≤ qs.countP (Piece.opens close) := by
  obtain ⟨more, rfl⟩ := hqs
  rw [List.foldlM_append] at h
  obtain ⟨depth₁, hfold, -⟩ := Option.bind_eq_some_iff.1 h
  have := foldlM_nest_count hfold
  omega

theorem Marker.Proper.active_iff (hM : M.Proper) {ps : List Piece} {p : Piece} :
    M.Active t ps p ↔ p.isActive = true ∧ ps ++ [p] <+: M.lexis.pieces t := by
  constructor
  · rintro ⟨hp, rest, hscans⟩
    rw [hM.scans_iff.1 hscans]
    exact ⟨hp, List.prefix_append ..⟩
  · rintro ⟨hp, hread⟩
    obtain ⟨rest, hrest⟩ := Lexis.exists_rest_of_prefix hread
    exact ⟨hp, rest, hM.scans_iff.2 hrest⟩

theorem Marker.find?_cases (M : Marker) (t : Text) :
    (M.find? t = none ∧ (M.locate t).2 = [] ∧ ∀ p ∈ M.lexis.pieces t, ∀ o, p ≠ .opener o) ∨
      ∃ lead o inner, M.find? t = some (Piece.bytes lead) ∧
        M.lexis.pieces t = lead ++ .opener o :: M.lexis.pieces inner ∧
          (∀ p ∈ lead, ∀ o, p ≠ .opener o) ∧ lead.flatMap Piece.text = (M.locate t).1 ∧
            M.lexis.step (M.locate t).2 = some (.opener o, inner) := by
  obtain ⟨lead, hpieces, htext, hplain, hnil | ⟨o, inner, hstep⟩⟩ := M.exists_plain_pieces t
  · left
    rw [hnil, Lexis.pieces_nil, List.append_nil] at hpieces
    exact ⟨by simp [find?, occursIn, hnil], hnil, hpieces ▸ hplain⟩
  · right
    have hne : (M.locate t).2 ≠ [] := by
      intro hnil
      rw [hnil] at hstep
      contradiction
    rw [Lexis.pieces_of_step hstep] at hpieces
    refine ⟨lead, o, inner, ?_, hpieces, hplain, htext, hstep⟩
    simp [find?, occursIn, hne, Piece.bytes, htext]

/-- A search for the marker finds the first active position where it matches. -/
theorem Marker.Proper.find?_eq_some_iff (hM : M.Proper) {n : Nat} :
    M.find? t = some n ↔ IsLeast {n | M.OpensAt t n} n := by
  rcases M.find?_cases t with
    ⟨hnone, -, hplain⟩ | ⟨lead, o, inner, hsome, hpieces, hplain, -, -⟩
  · rw [hnone]
    refine ⟨fun h => by contradiction, ?_⟩
    rintro ⟨⟨ps, o, hactive, -⟩, -⟩
    have hread := (hM.active_iff.1 hactive).2
    exact absurd rfl (hplain _ (hread.subset (by simp)) o)
  · have hlead : lead <+: M.lexis.pieces t := by
      rw [hpieces]
      exact List.prefix_append ..
    have hleast : IsLeast {n | M.OpensAt t n} (Piece.bytes lead) := by
      refine ⟨⟨lead, o, hM.active_iff.2 ⟨rfl, ?_⟩, rfl⟩, ?_⟩
      · exact Lexis.prefix_behind_opener hpieces List.nil_prefix
      · rintro n ⟨ps, o', hactive, rfl⟩
        have hread := (hM.active_iff.1 hactive).2
        by_contra hlt
        rw [Nat.not_le, Lexis.bytes_lt_iff ((List.prefix_append ..).trans hread) hlead] at hlt
        have hbefore : ps ++ [.opener o'] <+: lead := by
          apply List.prefix_of_prefix_length_le hread hlead
          rw [List.length_append]
          exact hlt
        exact absurd rfl (hplain _ (hbefore.subset (by simp)) o')
    rw [hsome]
    constructor
    · intro h
      rwa [← Option.some.inj h]
    · intro h
      rw [hleast.unique h]

/-- The levels that count from an opener on are those of the pieces behind it, and one. -/
theorem Marker.Proper.levelAt_iff (hM : M.Proper) {lead : List Piece} {o inner : Text}
    (hpieces : M.lexis.pieces t = lead ++ .opener o :: M.lexis.pieces inner) {n : Nat} :
    M.LevelAt close t (Piece.bytes lead) n ↔
      ∃ ps p, p.isActive = true ∧ ps ++ [p] <+: M.lexis.pieces inner ∧
        Piece.bytes (lead ++ .opener o :: ps) = n ∧
          (ps ++ [p]).countP (Piece.closes close) =
            (ps ++ [p]).countP (Piece.opens close) + 1 := by
  have hlead : lead <+: M.lexis.pieces t := by
    rw [hpieces]
    exact List.prefix_append ..
  constructor
  · rintro ⟨before, ps, p, hactive, hstart, hn, hlt, hcount⟩
    obtain ⟨hp, hread⟩ := hM.active_iff.1 hactive
    have hbefore : before <+: M.lexis.pieces t := by
      rw [List.append_assoc] at hread
      exact (List.prefix_append ..).trans hread
    obtain rfl := Lexis.eq_of_bytes_eq hbefore hlead hstart
    rw [hpieces, List.append_assoc, List.prefix_append_right_inj] at hread
    cases ps with
    | nil =>
        rw [List.append_nil] at hn
        omega
    | cons q ps =>
        obtain ⟨rfl, hps⟩ := List.cons_prefix_cons.1 hread
        refine ⟨ps, p, hp, hps, hn, ?_⟩
        simpa [List.countP_cons, Piece.closes, Piece.opens] using hcount
  · rintro ⟨ps, p, hp, hps, hn, hcount⟩
    have hread : lead ++ .opener o :: ps ++ [p] <+: M.lexis.pieces t := by
      rw [List.append_assoc]
      exact Lexis.prefix_behind_opener hpieces hps
    refine ⟨lead, .opener o :: ps, p, hM.active_iff.2 ⟨hp, hread⟩, rfl, hn, ?_, ?_⟩
    · rw [← hn, Lexis.bytes_lt_iff hlead ((List.prefix_append ..).trans hread)]
      simp
    · simpa [List.countP_cons, Piece.closes, Piece.opens] using hcount

/-- As many levels have closed as opened where the span ends, and nowhere before. -/
theorem Marker.Proper.isLeast_levelAt (hM : M.Proper) {lead ps : List Piece}
    {o inner post : Text} (hpieces : M.lexis.pieces t = lead ++ .opener o :: M.lexis.pieces inner)
    (hinner : M.lexis.pieces inner = ps ++ .char close :: M.lexis.pieces post)
    (hfold : ps.foldlM (Span.nest close) 0 = some 0) :
    IsLeast {n | M.LevelAt close t (Piece.bytes lead) n}
      (Piece.bytes (lead ++ .opener o :: ps)) := by
  have hps : ps <+: M.lexis.pieces inner := by
    rw [hinner]
    exact List.prefix_append ..
  constructor
  · -- what closes the span makes up for its opener
    refine (hM.levelAt_iff hpieces).2 ⟨ps, .char close, rfl, ?_, rfl, ?_⟩
    · rw [hinner, List.prefix_append_right_inj]
      exact List.cons_prefix_cons.2 ⟨rfl, List.nil_prefix⟩
    · have hcount := Span.foldlM_nest_count hfold
      simp [Piece.opens, Piece.closes, Span.pairedOpen_ne_self]
      omega
  · rintro n hn
    obtain ⟨qs, p, -, hqs, rfl, hcount⟩ := (hM.levelAt_iff hpieces).1 hn
    by_contra hlt
    -- a position before the end stands in the body, where more is open than has closed
    have hbefore := (List.prefix_append qs [p]).trans hqs
    rw [Nat.not_le, Lexis.bytes_lt_iff (Lexis.prefix_behind_opener hpieces hbefore)
      (Lexis.prefix_behind_opener hpieces hps)] at hlt
    have hbody : qs ++ [p] <+: ps := by
      apply List.prefix_of_prefix_length_le hqs hps
      simp only [List.length_append, List.length_cons, List.length_nil] at hlt ⊢
      omega
    have := Span.closes_le_opens hfold hbody
    omega

/-- What a search for a span comes to: there is no opener, or the first one is never
closed, or a delimiter closes it behind pieces whose levels all close. -/
theorem Span.first?_cases (M : Marker) (close : Char) (t : Text) :
    (M.find? t = none ∧ first? M close t = none) ∨
      ∃ lead o inner, M.find? t = some (Piece.bytes lead) ∧
        M.lexis.pieces t = lead ++ .opener o :: M.lexis.pieces inner ∧
          ((first? M close t = none ∧
              ∃ depth, (M.lexis.pieces inner).foldlM (nest close) 0 = some depth) ∨
            ∃ ps post, first? M close t =
                some ⟨lead.flatMap Piece.text, o, ps.flatMap Piece.text, close, post⟩ ∧
              M.lexis.pieces inner = ps ++ .char close :: M.lexis.pieces post ∧
                ps.foldlM (nest close) 0 = some 0) := by
  rcases M.find?_cases t with
    ⟨hnone, hnil, -⟩ | ⟨lead, o, inner, hsome, hpieces, -, htext, hstep⟩
  · exact .inl ⟨hnone, by simp [first?, hnil]⟩
  right
  refine ⟨lead, o, inner, hsome, hpieces, ?_⟩
  obtain ⟨ps, depth, hinner, hbody, hfold, hstop⟩ :=
    M.lexis.exists_pieces_of_cut (nest close) 0 inner
  have hfirst := first?_of_opener close hstep
  cases hcut : M.lexis.cut (nest close) 0 inner with
  | mk body after =>
      rw [hcut] at hinner hbody hstop hfirst
      cases after with
      | nil =>
          rw [Lexis.pieces_nil, List.append_nil] at hinner
          exact .inl ⟨hfirst, depth, hinner ▸ hfold⟩
      | cons c post =>
          obtain ⟨p, rest, hclose, hnest⟩ := hstop.resolve_left (by simp)
          obtain ⟨rfl, rfl⟩ := eq_char_of_nest hnest
          obtain ⟨rfl, rfl⟩ := List.cons.inj (Lexis.append_of_step hclose)
          rw [Lexis.pieces_of_step hclose] at hinner
          obtain rfl : ps.flatMap Piece.text = body := hbody
          rw [htext]
          exact .inr ⟨ps, rest, hfirst, hinner, hfold⟩

end levels

/-- The span is the first of the text that is properly nested. -/
structure Span.IsFirst (M : Marker) (close : Char) (t : Text) (s : Span) : Prop where
  append_eq : s.pre ++ s.opener ++ s.body ++ close :: s.post = t
  whole_eq : s.whole = s.opener ++ s.body ++ [close]
  start_eq : s.start = s.pre.byteLength
  stop_eq : s.stop = (s.pre ++ s.opener ++ s.body).byteLength
  find?_eq : M.find? t = some s.start
  matchAt_eq : M.matchAt (s.whole ++ s.post) = some s.opener.length
  isLeast_stop : IsLeast {n | M.LevelAt close t s.start n} s.stop

namespace Span

variable {M : Marker} {close : Char} {t : Text}

/-- Where a span begins and ends settles what it is. -/
theorem IsFirst.eq {s s' : Span} (h : s.IsFirst M close t) (h' : s'.IsFirst M close t) :
    s = s' := by
  have hstart : s.start = s'.start := Option.some.inj (h.find?_eq.symm.trans h'.find?_eq)
  have hstop : s.stop = s'.stop := by
    have hleast := h'.isLeast_stop
    rw [← hstart] at hleast
    exact h.isLeast_stop.unique hleast
  obtain ⟨hbefore, hpost⟩ :=
    Text.append_inj_of_byteLength (h.append_eq.trans h'.append_eq.symm) hstop
  have hsplit : s.pre ++ (s.opener ++ s.body) = s'.pre ++ (s'.opener ++ s'.body) := by
    rw [← List.append_assoc, hbefore, List.append_assoc]
  obtain ⟨hpre, hcall⟩ := Text.append_inj_of_byteLength hsplit hstart
  have hclose : s.close = s'.close := by
    have hs := List.append_cancel_left (h.whole_eq : s.opener ++ s.body ++ [s.close] = _)
    have hs' := List.append_cancel_left (h'.whole_eq : s'.opener ++ s'.body ++ [s'.close] = _)
    exact List.singleton_inj.1 (hs.trans hs'.symm)
  have hpost : s.post = s'.post := (List.cons.inj hpost).2
  have hopener : s.opener.length = s'.opener.length := by
    have hmatch := h.matchAt_eq
    rw [h.whole_eq, hcall, hpost, ← h'.whole_eq, h'.matchAt_eq] at hmatch
    exact (Option.some.inj hmatch).symm
  obtain ⟨hopener, hbody⟩ := List.append_inj hcall hopener
  cases s
  cases s'
  simp_all

theorem isFirst_of_first? (hM : M.Proper) {s : Span} (h : first? M close t = some s) :
    s.IsFirst M close t := by
  rcases first?_cases M close t with
    ⟨-, hnone⟩ | ⟨lead, o, inner, hfind, hpieces, ⟨hnone, -⟩ | ⟨ps, post, hfirst, hinner, hfold⟩⟩
  · rw [hnone] at h
    contradiction
  · rw [hnone] at h
    contradiction
  obtain rfl := Option.some.inj (hfirst.symm.trans h)
  have hstop : Piece.bytes (lead ++ .opener o :: ps) =
      stop ⟨lead.flatMap Piece.text, o, ps.flatMap Piece.text, close, post⟩ := by
    simp [Piece.bytes, stop, Piece.text]
  refine ⟨append_of_first? hfirst, rfl, rfl, rfl, hfind, ?_, ?_⟩
  · obtain ⟨n, hmatch, hlength⟩ := matchAt_of_first? hfirst
    obtain ⟨hpos, hle⟩ := hM.matchAt_bounds hmatch
    have hn : o.length = n := by
      dsimp only at hlength hle
      omega
    rw [whole, List.append_assoc, hn]
    exact hmatch
  · rw [← hstop]
    exact hM.isLeast_levelAt hpieces hinner hfold

theorem not_levelAt_of_first? (hM : M.Proper) (h : first? M close t = none) {start : Nat}
    (hstart : M.find? t = some start) (n : Nat) : ¬ M.LevelAt close t start n := by
  rcases first?_cases M close t with
    ⟨hnone, -⟩ | ⟨lead, o, inner, hfind, hpieces, ⟨-, depth, hfold⟩ | ⟨ps, post, hfirst, -⟩⟩
  · rw [hnone] at hstart
    contradiction
  · obtain rfl := Option.some.inj (hfind.symm.trans hstart)
    intro hn
    obtain ⟨qs, p, -, hqs, -, hcount⟩ := (hM.levelAt_iff hpieces).1 hn
    have := closes_le_opens hfold hqs
    omega
  · rw [hfirst] at h
    contradiction

/-- A search finds a span exactly if it is the first that is properly nested, and none
exactly if there is no opener or nothing behind the first one closes what is open. The
first opener is at the first active position where one begins. -/
theorem first?_iff_isFirst (hM : M.Proper) (close : Char) (t : Text) :
    (∀ s, first? M close t = some s ↔ s.IsFirst M close t) ∧
      (first? M close t = none ↔
        M.find? t = none ∨
          ∃ start, M.find? t = some start ∧ ∀ n, ¬ M.LevelAt close t start n) ∧
      ∀ start, M.find? t = some start ↔ IsLeast {n | M.OpensAt t n} start := by
  have hnone : first? M close t = none ↔ M.find? t = none ∨
      ∃ start, M.find? t = some start ∧ ∀ n, ¬ M.LevelAt close t start n := by
    constructor
    · intro h
      cases hfind : M.find? t with
      | none => exact .inl rfl
      | some start => exact .inr ⟨start, rfl, not_levelAt_of_first? hM h hfind⟩
    · intro h
      cases hfirst : first? M close t with
      | none => rfl
      | some s =>
          have hs := isFirst_of_first? hM hfirst
          rcases h with hfind | ⟨start, hfind, hlevel⟩
          · exact absurd (hs.find?_eq.symm.trans hfind) (Option.some_ne_none _)
          · obtain rfl := Option.some.inj (hs.find?_eq.symm.trans hfind)
            exact absurd hs.isLeast_stop.1 (hlevel _)
  refine ⟨fun s => ⟨isFirst_of_first? hM, fun hs => ?_⟩, hnone,
    fun _ => hM.find?_eq_some_iff⟩
  cases hfirst : first? M close t with
  | some s' => rw [(isFirst_of_first? hM hfirst).eq hs]
  | none => exact absurd hs.isLeast_stop.1 (not_levelAt_of_first? hM hfirst hs.find?_eq _)

/-- A string and an escape before a parenthesis that closes the inner level, and a string
before the one that closes the span. -/
theorem first?_iff_isFirst_sample :
    let M : Marker := .literal "var(".toList
    let t := "é'var(' var(--a, f(\\)) \")\") x".toList
    M.Proper ∧ ∃ s : Span, s.IsFirst M ')' t ∧ s.start = 9 ∧ s.stop = 27 ∧
      s.body = "--a, f(\\)) \")\"".toList := by
  intro M t
  have hM : M.Proper := by simp [M, Marker.Proper]
  have hfirst : first? M ')' t =
      some ⟨"é'var(' ".toList, "var(".toList, "--a, f(\\)) \")\"".toList, ')', " x".toList⟩ := by
    decide +kernel
  exact ⟨hM, _, ((first?_iff_isFirst hM ')' t).1 _).1 hfirst, by decide, by decide, rfl⟩

end Span

end CssInliner
