import CssInliner.Lexis.Piece

/-!
How far a scan without openers looks ahead. Where a piece ends depends on the
text of the piece and on the one character behind it, and of that character only
on whether it is an asterisk: a slash before an asterisk starts a comment. So a
scan that stops inside a text stops at the same place when other text follows.
-/

namespace CssInliner

namespace Text

theorem dropLead?_eq_some_iff {lead t rest : Text} :
    dropLead? lead t = some rest ↔ t = lead ++ rest := by
  constructor
  · exact eq_append_of_dropLead?
  · rintro rfl
    exact dropLead?_append lead rest

theorem dropLead?_eq_none_iff {lead t : Text} :
    dropLead? lead t = none ↔ ¬ lead <+: t := by
  rw [Option.eq_none_iff_forall_ne_some]
  constructor
  · rintro h ⟨rest, rfl⟩
    exact h rest (dropLead?_append lead rest)
  · intro h rest hrest
    exact h ⟨rest, (eq_append_of_dropLead? hrest).symm⟩

theorem dropTail?_eq_some_iff {tail t lead : Text} :
    dropTail? tail t = some lead ↔ t = lead ++ tail := by
  rw [dropTail?, Option.map_eq_some_iff]
  constructor
  · rintro ⟨rest, hrest, rfl⟩
    rw [dropLead?_eq_some_iff, List.reverse_eq_iff] at hrest
    simpa using hrest
  · rintro rfl
    exact ⟨lead.reverse, dropLead?_eq_some_iff.2 List.reverse_append, List.reverse_reverse lead⟩

theorem dropTail?_eq_none_iff {tail t : Text} : dropTail? tail t = none ↔ ¬ tail <:+ t := by
  rw [Option.eq_none_iff_forall_ne_some]
  constructor
  · rintro h ⟨lead, rfl⟩
    exact h lead (dropTail?_eq_some_iff.2 rfl)
  · intro h lead hlead
    exact h ⟨lead, (dropTail?_eq_some_iff.1 hlead).symm⟩

theorem splitFirst?_eq_none_iff {mark t : Text} :
    splitFirst? mark t = none ↔ ¬ mark <:+: t := by
  induction t with
  | nil => rw [splitFirst?, Option.map_eq_none_iff, dropLead?_eq_none_iff, List.prefix_nil,
      List.infix_nil]
  | cons c t ih =>
      rw [splitFirst?, List.infix_cons_iff, not_or, ← ih, ← dropLead?_eq_none_iff]
      cases dropLead? mark (c :: t) with
      | some rest => simp
      | none => simp

theorem not_infix_of_splitFirst? {mark t before after : Text} (hmark : mark ≠ [])
    (h : splitFirst? mark t = some (before, after)) : ¬ mark <:+: before := by
  induction t generalizing before with
  | nil =>
      obtain ⟨rest, -, hpair⟩ := Option.map_eq_some_iff.1 h
      obtain ⟨rfl, -⟩ := Prod.mk.inj hpair
      simpa using hmark
  | cons c t ih =>
      have htext := eq_append_of_splitFirst? h
      simp only [splitFirst?] at h
      split at h
      · obtain ⟨rfl, -⟩ := by simpa using h
        simpa using hmark
      · next hlead =>
          obtain ⟨⟨b, a⟩, hsplit, hpair⟩ := Option.map_eq_some_iff.1 h
          obtain ⟨rfl, rfl⟩ := Prod.mk.inj hpair
          rw [List.infix_cons_iff, not_or]
          refine ⟨fun hstart => ?_, ih hsplit⟩
          refine dropLead?_eq_none_iff.1 hlead (hstart.trans ?_)
          rw [htext, List.append_assoc]
          exact List.prefix_append _ _

/-- What a text begins with is settled by as many characters as are asked for. -/
theorem prefix_append_iff {lead t : Text} (h : lead.length ≤ t.length) (u : Text) :
    lead <+: t ++ u ↔ lead <+: t := by
  constructor
  · intro hlead
    exact List.prefix_of_prefix_length_le hlead (List.prefix_append t u) h
  · intro hlead
    exact hlead.trans (List.prefix_append t u)

theorem splitFirst?_behind {mark : Text} {b z : Text}
    (h : splitFirst? mark (b ++ mark ++ z) = some (b, z)) (z' : Text) :
    splitFirst? mark (b ++ mark ++ z') = some (b, z') := by
  induction b with
  | nil =>
      cases hm : mark ++ z' with
      | nil =>
          obtain ⟨rfl, rfl⟩ := List.append_eq_nil_iff.1 hm
          rfl
      | cons c t =>
          have hlead : dropLead? mark (c :: t) = some z' := by
            rw [← hm]
            exact dropLead?_append mark z'
          simp only [List.nil_append, hm, splitFirst?, hlead]
  | cons c b ih =>
      simp only [List.cons_append, splitFirst?] at h ⊢
      cases hlead : dropLead? mark (c :: (b ++ mark ++ z)) with
      | some rest =>
          rw [hlead] at h
          simp at h
      | none =>
          have hlead' : dropLead? mark (c :: (b ++ mark ++ z')) = none := by
            have hlen : mark.length ≤ (c :: (b ++ mark)).length := by
              simp only [List.length_cons, List.length_append]
              omega
            rw [dropLead?_eq_none_iff, ← List.cons_append] at hlead ⊢
            rw [prefix_append_iff hlen] at hlead ⊢
            exact hlead
          rw [hlead] at h
          obtain ⟨⟨b', a'⟩, hsplit, hpair⟩ := Option.map_eq_some_iff.1 h
          obtain ⟨hb, rfl⟩ := Prod.mk.inj hpair
          obtain rfl := (List.cons.inj hb).2
          rw [hlead', ih hsplit]
          rfl

end Text

/-- The characters that end what the grammar reads as raw text. -/
def isBound (c : Char) : Bool := c = '\x7b' || c = '\x7d' || c = ';'

/-- Two texts that are the same to a piece in front of them. -/
structure Alike (z z' : Text) : Prop where
  left : z ≠ []
  right : z' ≠ []
  asterisk : z.head? = some '*' ↔ z'.head? = some '*'

namespace Alike

theorem append {z z' : Text} (h : Alike z z') (y : Text) : Alike (y ++ z) (y ++ z') := by
  cases y with
  | nil => exact h
  | cons c y => exact ⟨by simp, by simp, by simp⟩

theorem of_bounds {c c' : Char} (hc : isBound c = true) (hc' : isBound c' = true)
    (z z' : Text) : Alike (c :: z) (c' :: z') := by
  refine ⟨by simp, by simp, ?_⟩
  have hne : ∀ d, isBound d = true → d ≠ '*' := by
    rintro d hd rfl
    contradiction
  simp [hne c hc, hne c' hc']

end Alike

theorem throughQuote_cons {quote c : Char} (hc : c ≠ '\\') (t : Text) :
    throughQuote quote (c :: t) =
      if c = quote then ([c], t)
      else (c :: (throughQuote quote t).1, (throughQuote quote t).2) := by
  rw [throughQuote.eq_def]
  split
  · contradiction
  · next h =>
      obtain ⟨rfl, -⟩ := List.cons.inj h
      contradiction
  · next h =>
      obtain ⟨rfl, rfl⟩ := List.cons.inj h
      rfl

theorem fst_throughQuote_ne_nil (quote : Char) {t : Text} (ht : t ≠ []) :
    (throughQuote quote t).1 ≠ [] := by
  rw [throughQuote.eq_def]
  split
  · contradiction
  · simp
  · split <;> simp

/-- A quoted string that ends inside a text ends there whatever follows. -/
theorem throughQuote_behind {quote : Char} {z : Text} (hz : z ≠ []) (z' : Text) :
    ∀ s, throughQuote quote (s ++ z) = (s, z) → throughQuote quote (s ++ z') = (s, z')
  | [], h => by
      have := fst_throughQuote_ne_nil quote hz
      simp only [List.nil_append] at h
      simp [h] at this
  | c :: s, h => by
      by_cases hc : c = '\\'
      · subst hc
        cases s with
        | nil =>
            obtain ⟨d, z, rfl⟩ := List.exists_cons_of_ne_nil hz
            simp [throughQuote] at h
        | cons d s =>
            simp only [List.cons_append, throughQuote, Prod.mk.injEq, List.cons.injEq,
              true_and] at h ⊢
            have ih := throughQuote_behind hz z' s (Prod.ext h.1 h.2)
            simp [ih]
      · rw [List.cons_append, throughQuote_cons hc] at h ⊢
        split
        · next hq =>
            rw [if_pos hq] at h
            have hs : s = [] := by simpa using (congrArg Prod.fst h).symm
            simp [hs]
        · next hq =>
            simp only [if_neg hq, Prod.mk.injEq, List.cons.injEq, true_and] at h
            have ih := throughQuote_behind hz z' s (Prod.ext h.1 h.2)
            simp [ih]

theorem throughComment_behind {s z : Text} (hz : z ≠ [])
    (h : throughComment (s ++ z) = (s, z)) (z' : Text) :
    throughComment (s ++ z') = (s, z') := by
  unfold throughComment at h
  split at h
  · next inside after hsplit =>
      obtain ⟨rfl, rfl⟩ := Prod.mk.inj h
      rw [throughComment, Text.splitFirst?_behind hsplit z']
  · exact absurd (Prod.mk.inj h).2.symm hz

namespace Lexis

variable {L : Lexis}

theorem dropLead?_commentOpen_eq_none_iff {c : Char} {t : Text} :
    Text.dropLead? commentOpen (c :: t) = none ↔ ¬ (c = '/' ∧ t.head? = some '*') := by
  cases t with
  | nil => simp [commentOpen, Text.dropLead?]
  | cons d t => simp [commentOpen, Text.dropLead?, eq_comm]

/-- A first piece with text behind it is the first piece before other text too, unless it is a
slash and an asterisk comes to stand behind it. -/
theorem step_behind (hL : L.marker = .never) {p : Piece} {z z' : Text} (hz : z ≠ [])
    (hstar : p = .char '/' → z'.head? = some '*' → z.head? = some '*')
    (h : L.step (p.text ++ z) = some (p, z)) : L.step (p.text ++ z') = some (p, z') := by
  obtain ⟨escapes, comments, marker⟩ := L
  subst hL
  obtain ⟨c, y, hp⟩ := List.exists_cons_of_ne_nil (text_ne_nil_of_step h)
  rw [hp, List.cons_append] at h ⊢
  simp only [step] at h ⊢
  by_cases hesc : (escapes && decide (c = '\\')) = true
  · rw [if_pos hesc] at h ⊢
    obtain ⟨rfl, hdrop⟩ := Prod.mk.inj (Option.some.inj h)
    cases y with
    | nil =>
        obtain ⟨d, z, rfl⟩ := List.exists_cons_of_ne_nil hz
        simp [Piece.text] at hp
    | cons d y =>
        obtain rfl : y = [] := by simpa [Piece.text] using hp
        simp
  rw [if_neg hesc] at h ⊢
  by_cases hquote : Text.isQuote c = true
  · rw [if_pos hquote] at h ⊢
    obtain ⟨rfl, hafter⟩ := Prod.mk.inj (Option.some.inj h)
    have hinside : (throughQuote c (y ++ z)).1 = y := by simpa [Piece.text] using hp
    rw [throughQuote_behind hz z' y (Prod.ext hinside hafter), hinside]
  rw [if_neg hquote] at h ⊢
  cases comments with
  | false =>
      simp only [Bool.false_eq_true, if_false, Marker.matchAt_never] at h ⊢
      obtain ⟨rfl, hrest⟩ := Prod.mk.inj (Option.some.inj h)
      obtain rfl : y = [] := by simpa [Piece.text] using hp
      rfl
  | true =>
      simp only [if_true, Marker.matchAt_never] at h ⊢
      cases hlead : Text.dropLead? commentOpen (c :: (y ++ z)) with
      | none =>
          rw [hlead] at h
          obtain ⟨rfl, hrest⟩ := Prod.mk.inj (Option.some.inj h)
          obtain rfl : y = [] := by simpa [Piece.text] using hp
          have hlead' : Text.dropLead? commentOpen (c :: ([] ++ z')) = none := by
            rw [dropLead?_commentOpen_eq_none_iff, List.nil_append] at hlead ⊢
            rintro ⟨rfl, hhead⟩
            exact hlead ⟨rfl, hstar rfl hhead⟩
          rw [hlead']
          rfl
      | some body =>
          rw [hlead] at h
          obtain ⟨rfl, hafter⟩ := Prod.mk.inj (Option.some.inj h)
          -- the text of the piece is the mark that opens a comment and what is inside
          have hclosed : throughComment ((throughComment body).1 ++ z) =
              ((throughComment body).1, z) := by
            rw [← hafter, throughComment_append]
          have hlead' : Text.dropLead? commentOpen (c :: (y ++ z')) =
              some ((throughComment body).1 ++ z') := by
            rw [← List.cons_append, ← hp, Text.dropLead?_eq_some_iff]
            simp only [Piece.text, List.append_assoc]
          rw [hlead']
          dsimp only
          rw [throughComment_behind hz hclosed z']

/-- The state in which a scan stops, and what it makes of other text there. -/
theorem exists_state_of_cut {σ : Type} {next : σ → Piece → Option σ} (hL : L.marker = .never)
    {s : σ} {x z : Text} (hz : z ≠ []) (h : L.cut next s (x ++ z) = (x, z)) :
    ∃ s', L.cut next s' z = ([], z) ∧ ∀ z', Alike z z' →
      L.cut next s (x ++ z') = (x ++ (L.cut next s' z').1, (L.cut next s' z').2) := by
  by_cases hx : x = []
  · subst hx
    exact ⟨s, h, fun z' _ => rfl⟩
  cases hstep : L.step (x ++ z) with
  | none =>
      rw [step_eq_none_iff] at hstep
      exact absurd (List.append_eq_nil_iff.1 hstep).1 hx
  | some found =>
      obtain ⟨p, rest⟩ := found
      rw [cut_eq, hstep] at h
      dsimp only at h
      cases hnext : next s p with
      | none =>
          rw [hnext] at h
          exact absurd (Prod.mk.inj h).1.symm hx
      | some s₁ =>
          rw [hnext] at h
          obtain ⟨hbefore, hafter⟩ := Prod.mk.inj h
          obtain ⟨y, hy⟩ : ∃ y, (L.cut next s₁ rest).1 = y := ⟨_, rfl⟩
          obtain rfl : y ++ z = rest := by rw [← hy, ← hafter, cut_append]
          obtain rfl : p.text ++ y = x := by rw [← hy, hbefore]
          -- the rest of the cut text is shorter by the first piece, which is the same before `z'`
          have hlt : y.length < (p.text ++ y).length := by
            have := List.length_pos_iff.2 (text_ne_nil_of_step hstep)
            simp only [List.length_append]
            omega
          obtain ⟨s', hstop, hgo⟩ := exists_state_of_cut hL hz (Prod.ext hy hafter)
          refine ⟨s', hstop, fun z' hz' => ?_⟩
          rw [List.append_assoc] at hstep
          have halike := hz'.append y
          have hstep' := step_behind hL halike.left (fun _ => halike.asterisk.2) hstep
          rw [List.append_assoc, cut_eq, hstep']
          dsimp only
          rw [hnext]
          dsimp only
          rw [hgo z' hz', List.append_assoc]
termination_by x.length

theorem step_char (hL : L.marker = .never) {c : Char} (hesc : c ≠ '\\')
    (hquote : Text.isQuote c = false) (hslash : c ≠ '/') (t : Text) :
    L.step (c :: t) = some (.char c, t) := by
  have hlead : Text.dropLead? commentOpen (c :: t) = none := by
    rw [dropLead?_commentOpen_eq_none_iff]
    exact fun h => hslash h.1
  simp [step, hesc, hquote, hlead, hL]

theorem step_bound (hL : L.marker = .never) {c : Char} (hc : isBound c = true) (t : Text) :
    L.step (c :: t) = some (.char c, t) := by
  simp only [isBound, Bool.or_eq_true, decide_eq_true_eq] at hc
  rcases hc with (rfl | rfl) | rfl
  all_goals exact step_char hL (by decide) rfl (by decide) t

/-- A scan that is ended by nothing but bounds. -/
def EndsAtBounds {σ : Type} (next : σ → Piece → Option σ) : Prop :=
  ∀ s p, next s p = none → ∃ c, p = .char c ∧ isBound c = true

section EndsAtBounds

variable {σ : Type} {next : σ → Piece → Option σ} {s : σ}

theorem cut_bound (hL : L.marker = .never) {c : Char} (hc : isBound c = true)
    (hnext : next s (.char c) = none) (t : Text) : L.cut next s (c :: t) = ([], c :: t) := by
  rw [cut_eq, step_bound hL hc]
  dsimp only
  rw [hnext]

theorem exists_bound_of_cut (hend : EndsAtBounds next) {z : Text} (hz : z ≠ [])
    (h : L.cut next s z = ([], z)) :
    ∃ c t, z = c :: t ∧ isBound c = true ∧ next s (.char c) = none := by
  rw [cut_eq] at h
  cases hstep : L.step z with
  | none => exact absurd (step_eq_none_iff.1 hstep) hz
  | some found =>
      obtain ⟨p, rest⟩ := found
      rw [hstep] at h
      dsimp only at h
      cases hnext : next s p with
      | none =>
          obtain ⟨c, rfl, hc⟩ := hend s p hnext
          exact ⟨c, rest, (append_of_step hstep).symm, hc, hnext⟩
      | some s₁ =>
          rw [hnext] at h
          have htext := (List.append_eq_nil_iff.1 (Prod.mk.inj h).1).1
          exact absurd htext (text_ne_nil_of_step hstep)

/-- A scan that stops inside a text stops there at every bound that ends it. -/
theorem exists_state_of_cut_bound (hL : L.marker = .never) (hend : EndsAtBounds next)
    {x z : Text} (hz : z ≠ []) (h : L.cut next s (x ++ z) = (x, z)) :
    ∃ c t s', z = c :: t ∧ isBound c = true ∧ next s' (.char c) = none ∧
      ∀ c' t', isBound c' = true → next s' (.char c') = none →
        L.cut next s (x ++ c' :: t') = (x, c' :: t') := by
  obtain ⟨s', hstop, hgo⟩ := exists_state_of_cut hL hz h
  obtain ⟨c, t, rfl, hc, hnext⟩ := exists_bound_of_cut hend hz hstop
  refine ⟨c, t, s', rfl, hc, hnext, fun c' t' hc' hnext' => ?_⟩
  rw [hgo _ (.of_bounds hc hc' t t'), cut_bound hL hc' hnext' t', List.append_nil]

theorem cut_append_of_ne_nil (hL : L.marker = .never) (hend : EndsAtBounds next) {t : Text}
    (h : (L.cut next s t).2 ≠ []) (u : Text) :
    L.cut next s (t ++ u) = ((L.cut next s t).1, (L.cut next s t).2 ++ u) := by
  have hsplit := cut_append L next s t
  have hcut : L.cut next s ((L.cut next s t).1 ++ (L.cut next s t).2) =
      ((L.cut next s t).1, (L.cut next s t).2) := by rw [hsplit]
  obtain ⟨c, w, s', hw, hc, hnext, hgo⟩ := exists_state_of_cut_bound hL hend h hcut
  have hu := hgo c (w ++ u) hc hnext
  rw [← List.cons_append, ← hw, ← List.append_assoc, hsplit] at hu
  exact hu

end EndsAtBounds

end Lexis

end CssInliner
