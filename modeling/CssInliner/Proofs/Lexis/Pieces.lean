import CssInliner.Lexis.Span
import CssInliner.Proofs.Lookahead.Lexis

/-!
How a text falls into pieces before any marker is looked for. A text is complete if
neither a string nor an escape is open at its end; then its pieces stay whatever follows
it. A search looks for its marker behind complete texts only, and stops behind the first
of them where the marker matches.
-/

namespace CssInliner

namespace Lexis

@[simp] theorem pieces_nil (L : Lexis) : L.pieces [] = [] := by
  rw [pieces_eq, step_nil]

theorem pieces_of_step {L : Lexis} {t rest : Text} {p : Piece} (h : L.step t = some (p, rest)) :
    L.pieces t = p :: L.pieces rest := by
  rw [pieces_eq, h]

theorem step_of_pieces_eq_cons {L : Lexis} {t : Text} {p : Piece} {ps : List Piece}
    (h : L.pieces t = p :: ps) : ∃ rest, L.step t = some (p, rest) ∧ L.pieces rest = ps := by
  cases hstep : L.step t with
  | none =>
      rw [pieces_eq, hstep] at h
      contradiction
  | some found =>
      obtain ⟨q, rest⟩ := found
      rw [pieces_of_step hstep] at h
      obtain ⟨rfl, hrest⟩ := List.cons.inj h
      exact ⟨rest, rfl, hrest⟩

theorem step_of_pieces {L : Lexis} {t z : Text} {p : Piece} {ps : List Piece}
    (h : L.pieces t = p :: ps ++ L.pieces z) :
    ∃ rest, L.step t = some (p, rest) ∧ L.pieces rest = ps ++ L.pieces z :=
  step_of_pieces_eq_cons h

theorem exists_pieces_eq {L : Lexis} {t : Text} {ps qs : List Piece}
    (h : L.pieces t = ps ++ qs) : ∃ u, L.pieces u = qs := by
  induction ps generalizing t with
  | nil => exact ⟨t, h⟩
  | cons p ps ih =>
      obtain ⟨rest, -, hrest⟩ := step_of_pieces_eq_cons h
      exact ih hrest

theorem pieces_inj {L : Lexis} {s t : Text} (h : L.pieces s = L.pieces t) : s = t := by
  rw [← flatMap_text_pieces L s, h, flatMap_text_pieces]

section joints

variable {L : Lexis} {ps : List Piece} {z z' : Text}

theorem exists_step_of_mem {t : Text} (hz : z ≠ []) (h : L.pieces t = ps ++ L.pieces z) :
    ∀ p ∈ ps, ∃ w, w ≠ [] ∧ L.step (p.text ++ w) = some (p, w) := by
  induction ps generalizing t with
  | nil => simp
  | cons q ps ih =>
      obtain ⟨rest, hstep, hrest⟩ := step_of_pieces h
      intro p hp
      rcases List.mem_cons.1 hp with rfl | hp
      · refine ⟨rest, ?_, by rwa [append_of_step hstep]⟩
        rintro rfl
        rw [pieces_nil] at hrest
        have hnil : L.pieces z = L.pieces [] := by
          rw [(List.append_eq_nil_iff.1 hrest.symm).2, pieces_nil]
        exact hz (pieces_inj hnil)
      · exact ih hrest p hp

/-- Pieces with text behind them are the pieces before other text too. -/
theorem pieces_behind (hL : L.marker = .never) (hz : z ≠ [])
    (hstar : z'.head? = some '*' → z.head? = some '*')
    (h : L.pieces (ps.flatMap Piece.text ++ z) = ps ++ L.pieces z) :
    L.pieces (ps.flatMap Piece.text ++ z') = ps ++ L.pieces z' := by
  induction ps with
  | nil => rfl
  | cons p ps ih =>
      obtain ⟨rest, hstep, hrest⟩ := step_of_pieces h
      rw [List.flatMap_cons, List.append_assoc] at hstep
      obtain rfl := List.append_cancel_left (append_of_step hstep)
      have hhead : (ps.flatMap Piece.text ++ z').head? = some '*' →
          (ps.flatMap Piece.text ++ z).head? = some '*' := by
        cases ps.flatMap Piece.text with
        | nil => exact hstar
        | cons c y => exact id
      have hne : ps.flatMap Piece.text ++ z ≠ [] := by simp [hz]
      have hstep' := step_behind hL hne (fun _ => hhead) hstep
      rw [List.flatMap_cons, List.append_assoc, pieces_of_step hstep', ih hrest, List.cons_append]

/-- Nothing but a comment begins with a slash before an asterisk. -/
theorem not_joint_infix_pieces (hL : L.comments = true) (t : Text) :
    ¬ [.char '/', .char '*'] <:+: L.pieces t := by
  rintro ⟨as, bs, h⟩
  rw [List.append_assoc] at h
  obtain ⟨u, hu⟩ := exists_pieces_eq h.symm
  obtain ⟨rest, hslash, hrest⟩ := step_of_pieces_eq_cons hu
  obtain ⟨rest', hstar, -⟩ := step_of_pieces_eq_cons hrest
  obtain rfl := append_of_step hslash
  obtain rfl := append_of_step hstar
  simp [step, hL, Piece.text, Text.isQuote, commentOpen, Text.dropLead?] at hslash

/-- Pieces that were read in other places are read where their texts are put together, if no
slash comes to stand before an asterisk. -/
theorem pieces_flatMap_append (hL : L.marker = .never)
    (hread : ∀ p ∈ ps, ∃ w, w ≠ [] ∧ L.step (p.text ++ w) = some (p, w))
    (hjoint : ¬ [.char '/', .char '*'] <:+: ps) (hz : z.head? ≠ some '*') :
    L.pieces (ps.flatMap Piece.text ++ z) = ps ++ L.pieces z := by
  induction ps with
  | nil => rfl
  | cons p ps ih =>
      have hstar : p = .char '/' → (ps.flatMap Piece.text ++ z).head? ≠ some '*' := by
        rintro rfl hhead
        cases ps with
        | nil => exact hz hhead
        | cons q ps =>
            -- the piece behind the slash begins with an asterisk, so it is one
            obtain ⟨v, -, hq⟩ := hread q (by simp)
            obtain ⟨c, y, hqtext⟩ := List.exists_cons_of_ne_nil (text_ne_nil_of_step hq)
            obtain rfl : c = '*' := by simpa [hqtext] using hhead
            rw [hqtext, List.cons_append, step_char hL (by decide) rfl (by decide)] at hq
            obtain ⟨rfl, -⟩ := Prod.mk.inj (Option.some.inj hq)
            exact hjoint ⟨[], ps, rfl⟩
      obtain ⟨w, hw, hp⟩ := hread p List.mem_cons_self
      have hstep := step_behind hL hw (fun hslash hhead => absurd hhead (hstar hslash)) hp
      have hrest := ih (fun q hq => hread q (List.mem_cons_of_mem p hq))
        fun hinfix => hjoint (List.infix_cons_iff.2 (.inr hinfix))
      rw [List.flatMap_cons, List.append_assoc, pieces_of_step hstep, hrest, List.cons_append]

end joints

theorem exists_pieces_of_cut {σ : Type} (L : Lexis) (next : σ → Piece → Option σ) (s : σ)
    (t : Text) : ∃ ps s', L.pieces t = ps ++ L.pieces (L.cut next s t).2 ∧
      ps.flatMap Piece.text = (L.cut next s t).1 ∧ ps.foldlM next s = some s' ∧
        ((L.cut next s t).2 = [] ∨
          ∃ p rest, L.step (L.cut next s t).2 = some (p, rest) ∧ next s' p = none) := by
  have hcut := cut_eq L next s t
  cases hstep : L.step t with
  | none =>
      rw [hstep] at hcut
      rw [hcut, step_eq_none_iff.1 hstep]
      exact ⟨[], s, rfl, rfl, rfl, .inl rfl⟩
  | some found =>
      obtain ⟨p, rest⟩ := found
      rw [hstep] at hcut
      dsimp only at hcut
      cases hnext : next s p with
      | none =>
          rw [hnext] at hcut
          rw [hcut]
          exact ⟨[], s, rfl, rfl, rfl, .inr ⟨p, rest, hstep, hnext⟩⟩
      | some s₁ =>
          rw [hnext] at hcut
          have := length_lt_of_step hstep
          obtain ⟨ps, s', hpieces, htext, hfold, hstop⟩ := exists_pieces_of_cut L next s₁ rest
          refine ⟨p :: ps, s', ?_, ?_, ?_, ?_⟩
          · rw [hcut, pieces_of_step hstep, List.cons_append, hpieces]
          · rw [hcut, List.flatMap_cons, htext]
          · rw [List.foldlM_cons, hnext]
            exact hfold
          · rw [hcut]
            exact hstop
termination_by t.length

theorem cut_of_pieces {σ : Type} {L : Lexis} {next : σ → Piece → Option σ} {s s' : σ}
    {ps : List Piece} {t z : Text} (hpieces : L.pieces t = ps ++ L.pieces z)
    (hfold : ps.foldlM next s = some s') :
    L.cut next s t =
      (ps.flatMap Piece.text ++ (L.cut next s' z).1, (L.cut next s' z).2) := by
  induction ps generalizing s t with
  | nil =>
      obtain rfl : s = s' := Option.some.inj hfold
      rw [pieces_inj hpieces]
      rfl
  | cons p ps ih =>
      obtain ⟨rest, hstep, hrest⟩ := step_of_pieces hpieces
      rw [List.foldlM_cons] at hfold
      cases hnext : next s p with
      | none =>
          rw [hnext] at hfold
          contradiction
      | some s₁ =>
          rw [hnext] at hfold
          rw [cut_eq, hstep]
          dsimp only
          rw [hnext]
          dsimp only
          rw [ih hrest hfold, List.flatMap_cons, List.append_assoc]

end Lexis

theorem Marker.step_lexis (M : Marker) (c : Char) (t : Text) :
    M.lexis.step (c :: t) =
      if c = '\\' then some (.escape (c :: t.take 1), t.drop 1)
      else if Text.isQuote c then
        some (.quoted (c :: (throughQuote c t).1), (throughQuote c t).2)
      else
        match M.matchAt (c :: t) with
        | some n => some (.opener (c :: t.take (n - 1)), t.drop (n - 1))
        | none => some (.char c, t) := by
  by_cases hesc : c = '\\'
  · simp [Lexis.step, lexis, hesc]
  by_cases hquote : Text.isQuote c = true
  · simp [Lexis.step, lexis, hesc, hquote]
  · cases hmatch : M.matchAt (c :: t) <;> simp [Lexis.step, lexis, hesc, hquote, hmatch]

namespace Lexis

/-- The pieces that are there whatever is searched for. -/
abbrev bare : Lexis := Marker.never.lexis

theorem step_bare (c : Char) (t : Text) :
    bare.step (c :: t) =
      if c = '\\' then some (.escape (c :: t.take 1), t.drop 1)
      else if Text.isQuote c then
        some (.quoted (c :: (throughQuote c t).1), (throughQuote c t).2)
      else some (.char c, t) := Marker.never.step_lexis c t

theorem step_bare_char {c : Char} (hesc : c ≠ '\\') (hquote : Text.isQuote c = false)
    (t : Text) : bare.step (c :: t) = some (.char c, t) := by
  rw [step_bare, if_neg hesc, if_neg (by simp [hquote])]

/-- Where a search reads no opener, it reads what is there in any case. -/
theorem step_bare_of_step {M : Marker} {t rest : Text} {p : Piece}
    (h : M.lexis.step t = some (p, rest)) (hp : ∀ o, p ≠ .opener o) :
    bare.step t = some (p, rest) := by
  cases t with
  | nil => simp at h
  | cons c t =>
      rw [M.step_lexis] at h
      rw [step_bare]
      by_cases hesc : c = '\\'
      · rwa [if_pos hesc] at h ⊢
      rw [if_neg hesc] at h ⊢
      by_cases hquote : Text.isQuote c = true
      · rwa [if_pos hquote] at h ⊢
      rw [if_neg hquote] at h ⊢
      cases hmatch : M.matchAt (c :: t) with
      | none => rwa [hmatch] at h
      | some n =>
          rw [hmatch] at h
          exact absurd (Prod.mk.inj (Option.some.inj h)).1.symm (hp _)

/-- Where its marker does not match, a search reads what is there in any case. -/
theorem step_of_matchAt_eq_none {M : Marker} {t : Text} (h : M.matchAt t = none) :
    M.lexis.step t = bare.step t := by
  cases t with
  | nil => rfl
  | cons c t => rw [M.step_lexis, step_bare, h]

/-- A first piece with text behind it is the first piece before any text. -/
theorem step_bare_behind {p : Piece} {z : Text} (hz : z ≠ [])
    (h : bare.step (p.text ++ z) = some (p, z)) (u : Text) :
    bare.step (p.text ++ u) = some (p, u) := by
  obtain ⟨c, y, hp⟩ := List.exists_cons_of_ne_nil (text_ne_nil_of_step h)
  rw [hp, List.cons_append, step_bare] at h ⊢
  by_cases hesc : c = '\\'
  · rw [if_pos hesc] at h ⊢
    obtain ⟨rfl, hdrop⟩ := Prod.mk.inj (Option.some.inj h)
    cases y with
    | nil =>
        obtain ⟨d, z, rfl⟩ := List.exists_cons_of_ne_nil hz
        simp [Piece.text] at hp
    | cons d y =>
        obtain rfl : y = [] := by simpa [Piece.text] using hp
        rfl
  rw [if_neg hesc] at h ⊢
  by_cases hquote : Text.isQuote c = true
  · rw [if_pos hquote] at h ⊢
    obtain ⟨rfl, hafter⟩ := Prod.mk.inj (Option.some.inj h)
    have hinside : (throughQuote c (y ++ z)).1 = y := by simpa [Piece.text] using hp
    rw [throughQuote_behind hz u y (Prod.ext hinside hafter), hinside]
  rw [if_neg hquote] at h ⊢
  obtain ⟨rfl, -⟩ := Prod.mk.inj (Option.some.inj h)
  obtain rfl : y = [] := by simpa [Piece.text] using hp
  rfl

end Lexis

open Lexis (bare)

/-- The text ends between two pieces: whatever follows it, its own pieces stay. -/
def Complete (t : Text) : Prop := ∀ u, bare.pieces (t ++ u) = bare.pieces t ++ bare.pieces u

namespace Complete

variable {s t : Text}

theorem nil : Complete [] := fun u => by rw [List.nil_append, Lexis.pieces_nil, List.nil_append]

theorem append (hs : Complete s) (ht : Complete t) : Complete (s ++ t) := by
  intro u
  rw [List.append_assoc, hs, ht, hs, List.append_assoc]

theorem of_append (hs : Complete s) (hst : Complete (s ++ t)) : Complete t := by
  intro u
  have hwhole : bare.pieces s ++ bare.pieces (t ++ u) =
      bare.pieces s ++ (bare.pieces t ++ bare.pieces u) := by
    rw [← hs, ← List.append_assoc, hst, hs, List.append_assoc]
  exact List.append_cancel_left hwhole

theorem of_step {p : Piece} (h : ∀ u, bare.step (p.text ++ u) = some (p, u)) :
    Complete p.text := by
  have hp : bare.pieces p.text = [p] := by
    rw [← List.append_nil p.text, Lexis.pieces_of_step (h []), Lexis.pieces_nil]
  intro u
  rw [Lexis.pieces_of_step (h u), hp]
  rfl

/-- The first piece of a complete text is read before any other text, and the rest is
complete. -/
theorem step {p : Piece} {rest : Text} (ht : Complete t)
    (h : bare.step t = some (p, rest)) :
    (∀ u, bare.step (p.text ++ u) = some (p, u)) ∧ Complete rest := by
  have happend := Lexis.append_of_step h
  have hstep : bare.step (p.text ++ (rest ++ [')'])) = some (p, rest ++ [')']) := by
    have hpieces := ht [')']
    rw [Lexis.pieces_of_step h, ← happend, List.append_assoc] at hpieces
    obtain ⟨rest', hstep', -⟩ := Lexis.step_of_pieces hpieces
    rw [hstep', List.append_cancel_left (Lexis.append_of_step hstep')]
  have hp := Lexis.step_bare_behind (by simp) hstep
  exact ⟨hp, (Complete.of_step hp).of_append (by rwa [happend])⟩

/-- The text before which a cut of bare pieces stops is complete. -/
theorem of_pieces {ps : List Piece} {z : Text} (hz : z ≠ [])
    (h : bare.pieces t = ps ++ bare.pieces z) : Complete (ps.flatMap Piece.text) := by
  induction ps generalizing t with
  | nil => exact nil
  | cons p ps ih =>
      obtain ⟨rest, hstep, hrest⟩ := Lexis.step_of_pieces h
      have htext : rest = ps.flatMap Piece.text ++ z := by
        rw [← Lexis.flatMap_text_pieces bare rest, hrest, List.flatMap_append,
          Lexis.flatMap_text_pieces]
      have hne : rest ≠ [] := by simp [htext, hz]
      have hp := Lexis.step_bare_behind hne (by rwa [Lexis.append_of_step hstep])
      exact (Complete.of_step hp).append (ih hrest)

end Complete

end CssInliner
