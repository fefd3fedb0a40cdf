import CssInliner.Proofs.Variables.Scan

/-!
What becomes of calls when texts are put together. A text is sealed if it is cut into
the same pieces whatever follows it. Of sealed texts that leave no call open, the whole
shows the calls that the parts show, and no others.
-/

namespace CssInliner

open Declaration (variableCall)

/-- Whatever follows the text, its own pieces stay. -/
def Sealed (t : Text) : Prop :=
  ∀ u, variableLexis.pieces (t ++ u) = variableLexis.pieces t ++ variableLexis.pieces u

theorem Sealed.append {s t : Text} (hs : Sealed s) (ht : Sealed t) : Sealed (s ++ t) := by
  intro u
  rw [List.append_assoc, hs, ht, hs, List.append_assoc]

/-- Texts that show whether a text before them is sealed: a piece that stands by itself,
and what an opener may still lack. -/
def probes : List Text := [[')'], "ar(".toList, "r(".toList, "(".toList]

theorem exists_probe {c : Char} {t u : Text} (h : variableCall <+: c :: (t ++ u)) :
    ∃ u ∈ probes, variableCall <+: c :: (t ++ u) := by
  obtain ⟨rfl, har⟩ : 'v' = c ∧ "ar(".toList <+: t ++ u := List.cons_prefix_cons.1 h
  rcases t with _ | ⟨d, t⟩
  · exact ⟨"ar(".toList, by decide⟩
  obtain ⟨rfl, hr⟩ : 'a' = d ∧ "r(".toList <+: t ++ u := List.cons_prefix_cons.1 har
  rcases t with _ | ⟨e, t⟩
  · exact ⟨"r(".toList, by decide⟩
  obtain ⟨rfl, hopen⟩ : 'r' = e ∧ "(".toList <+: t ++ u := List.cons_prefix_cons.1 hr
  rcases t with _ | ⟨f, t⟩
  · exact ⟨"(".toList, by decide⟩
  obtain ⟨rfl, -⟩ : '(' = f ∧ [] <+: t ++ u := List.cons_prefix_cons.1 hopen
  exact ⟨[')'], List.mem_cons_self, List.prefix_append variableCall (t ++ [')'])⟩

/-- A text is sealed as soon as its pieces stay before the probes. -/
theorem sealed_of_probes {t : Text} (h : ∀ u ∈ probes,
    variableLexis.pieces (t ++ u) = variableLexis.pieces t ++ variableLexis.pieces u) :
    Sealed t := by
  cases hstep : variableLexis.step t with
  | none =>
      obtain rfl := Lexis.step_eq_none_iff.1 hstep
      intro u
      rw [Lexis.pieces_nil, List.nil_append, List.nil_append]
  | some found =>
      obtain ⟨p, rest⟩ := found
      have happend := Lexis.append_of_step hstep
      have hprobe : ∀ u ∈ probes,
          variableLexis.step (p.text ++ (rest ++ u)) = some (p, rest ++ u) ∧
            variableLexis.pieces (rest ++ u) =
              variableLexis.pieces rest ++ variableLexis.pieces u := by
        intro u hu
        have hpieces := h u hu
        rw [Lexis.pieces_of_step hstep, ← happend, List.append_assoc, List.cons_append] at hpieces
        cases hstep' : variableLexis.step (p.text ++ (rest ++ u)) with
        | none =>
            rw [Lexis.pieces_eq, hstep'] at hpieces
            contradiction
        | some found =>
            obtain ⟨q, rest'⟩ := found
            rw [Lexis.pieces_of_step hstep'] at hpieces
            obtain ⟨rfl, hrest⟩ := List.cons.inj hpieces
            obtain rfl := List.append_cancel_left (Lexis.append_of_step hstep')
            exact ⟨rfl, hrest⟩
      have hlt := Lexis.length_lt_of_step hstep
      have ih : Sealed rest := sealed_of_probes fun u hu => (hprobe u hu).2
      intro u
      have hstep' : variableLexis.step (p.text ++ (rest ++ u)) = some (p, rest ++ u) := by
        refine step_variableLexis_behind (by simp) (hprobe [')'] List.mem_cons_self).1 ?_
        rintro c rfl hopener
        obtain ⟨v, hv, hopener⟩ := exists_probe hopener
        exact not_prefix_of_step_char (hprobe v hv).1 hopener
      rw [Lexis.pieces_of_step hstep, ← happend, List.append_assoc,
        Lexis.pieces_of_step hstep', ih u, List.cons_append]
termination_by t.length

instance (t : Text) : Decidable (Sealed t) :=
  decidable_of_iff _ ⟨sealed_of_probes, fun h u _ => h u⟩

example : Sealed "1px ".toList ∧ ¬ Sealed "1 va".toList := by decide +kernel

/-- The text is sealed and leaves no call open, and these are the bodies of its calls. -/
structure Shows (t : Text) (calls : List Text) : Prop where
  sealed : Sealed t
  closed : Scan.outside.final (variableLexis.pieces t) = .outside
  calls_eq : Scan.outside.calls (variableLexis.pieces t) = calls

namespace Shows

theorem nil : Shows [] [] where
  sealed u := by rw [List.nil_append, Lexis.pieces_nil, List.nil_append]
  closed := by rw [Lexis.pieces_nil]; rfl
  calls_eq := by rw [Lexis.pieces_nil]; rfl

theorem append {s t : Text} {bodies more : List Text} (hs : Shows s bodies)
    (ht : Shows t more) : Shows (s ++ t) (bodies ++ more) where
  sealed := hs.sealed.append ht.sealed
  closed := by rw [hs.sealed, Scan.final_append, hs.closed, ht.closed]
  calls_eq := by rw [hs.sealed, Scan.calls_append, hs.closed, hs.calls_eq, ht.calls_eq]

theorem of_no_opener {t : Text} (ht : Sealed t)
    (h : ∀ p ∈ variableLexis.pieces t, ∀ o, p ≠ .opener o) : Shows t [] where
  sealed := ht
  closed := (Scan.outside_of_no_opener h).1
  calls_eq := (Scan.outside_of_no_opener h).2

end Shows

/-- Every call that the text shows has the property. -/
def ShowsOnly (P : Text → Prop) (t : Text) : Prop := ∃ bodies, Shows t bodies ∧ ∀ b ∈ bodies, P b

namespace ShowsOnly

variable {P : Text → Prop}

theorem append {s t : Text} : ShowsOnly P s → ShowsOnly P t → ShowsOnly P (s ++ t)
  | ⟨bodies, hs, hbodies⟩, ⟨more, ht, hmore⟩ =>
      ⟨bodies ++ more, hs.append ht, fun b hb => (List.mem_append.1 hb).elim (hbodies b) (hmore b)⟩

theorem flatMap {α : Type} {f : α → Text} {xs : List α} (h : ∀ x ∈ xs, ShowsOnly P (f x)) :
    ShowsOnly P (xs.flatMap f) := by
  induction xs with
  | nil => exact ⟨[], .nil, by simp⟩
  | cons x xs ih =>
      rw [List.flatMap_cons]
      exact (h x List.mem_cons_self).append (ih fun y hy => h y (List.mem_cons_of_mem x hy))

theorem mono {Q : Text → Prop} {t : Text} (h : ShowsOnly P t) (hPQ : ∀ b, P b → Q b) :
    ShowsOnly Q t := by
  obtain ⟨bodies, ht, hbodies⟩ := h
  exact ⟨bodies, ht, fun b hb => hPQ b (hbodies b hb)⟩

end ShowsOnly

/-- What could begin an opener before a closing parenthesis is the same whatever is
behind that. -/
theorem variableCall_prefix_close (x : Text) {u : Text} (h : variableCall <+: x ++ ')' :: u)
    (z : Text) : variableCall <+: x ++ ')' :: z := by
  have hlength : variableCall.length ≤ x.length := by
    rcases x with _ | ⟨a, _ | ⟨b, _ | ⟨c, _ | ⟨d, x⟩⟩⟩⟩
    · simp [variableCall] at h
    · simp [variableCall] at h
    · simp [variableCall] at h
    · simp [variableCall] at h
    · simp [variableCall]
  rw [Text.prefix_append_iff hlength] at h ⊢
  exact h

theorem step_close (u : Text) : variableLexis.step (')' :: u) = some (.char ')', u) := by
  rw [step_variableLexis]
  rfl

theorem step_variableCall (u : Text) :
    variableLexis.step (variableCall ++ u) = some (.opener variableCall, u) := rfl

/-- The pieces of a body are the same whatever follows the parenthesis behind it. -/
theorem exists_pieces_of_body {x z : Text} {depth : Nat}
    (h : variableLexis.cut (Span.nest ')') depth (x ++ ')' :: z) = (x, ')' :: z)) :
    ∃ ps, ps.flatMap Piece.text = x ∧ ps.foldlM (Span.nest ')') depth = some 0 ∧
      ∀ u, variableLexis.pieces (x ++ ')' :: u) = ps ++ .char ')' :: variableLexis.pieces u := by
  cases hstep : variableLexis.step (x ++ ')' :: z) with
  | none => simp [Lexis.step_eq_none_iff] at hstep
  | some found =>
      obtain ⟨p, rest⟩ := found
      rw [Lexis.cut_eq, hstep] at h
      dsimp only at h
      cases hnest : Span.nest ')' depth p with
      | none =>
          rw [hnest] at h
          obtain ⟨rfl, -⟩ := Prod.mk.inj h
          obtain ⟨-, rfl⟩ := eq_char_of_nest hnest
          exact ⟨[], rfl, rfl, fun u => Lexis.pieces_of_step (step_close u)⟩
      | some depth₁ =>
          rw [hnest] at h
          obtain ⟨hbefore, hafter⟩ := Prod.mk.inj h
          obtain ⟨y, hy⟩ : ∃ y, (variableLexis.cut (Span.nest ')') depth₁ rest).1 = y := ⟨_, rfl⟩
          obtain rfl : y ++ ')' :: z = rest := by rw [← hy, ← hafter, Lexis.cut_append]
          obtain rfl : p.text ++ y = x := by rw [← hy, hbefore]
          have hlt : y.length < (p.text ++ y).length := by
            have := List.length_pos_iff.2 (Lexis.text_ne_nil_of_step hstep)
            simp only [List.length_append]
            omega
          obtain ⟨ps, htext, hfold, hpieces⟩ := exists_pieces_of_body (Prod.ext hy hafter)
          refine ⟨p :: ps, ?_, ?_, fun u => ?_⟩
          · rw [List.flatMap_cons, htext]
          · rw [List.foldlM_cons, hnest]
            exact hfold
          · rw [List.append_assoc] at hstep ⊢
            -- a character that begins no opener here begins none before other text
            have hstep' : variableLexis.step (p.text ++ (y ++ ')' :: u)) =
                some (p, y ++ ')' :: u) := by
              refine step_variableLexis_behind (by simp) hstep ?_
              rintro c rfl hopener
              exact not_prefix_of_step_char hstep (variableCall_prefix_close (c :: y) hopener z)
            rw [Lexis.pieces_of_step hstep', hpieces u, List.cons_append]
termination_by x.length

theorem exists_pieces_of_first? {u : Text} {s : Span}
    (h : Span.first? variableMarker ')' u = some s) :
    (∃ ps, ps.flatMap Piece.text = s.body ∧ ps.foldlM (Span.nest ')') 0 = some 0 ∧
        ∀ v, variableLexis.pieces (s.whole ++ v) =
          .opener variableCall :: (ps ++ .char ')' :: variableLexis.pieces v)) ∧
      ∃ qs, (∀ p ∈ qs, ∀ o, p ≠ .opener o) ∧
        variableLexis.pieces u = qs ++ variableLexis.pieces (s.whole ++ s.post) := by
  obtain ⟨qs, hpieces, -, hplain, hfound⟩ := exists_pieces_of_locate u
  rcases hfound with hnil | ⟨inner, hstep⟩
  · simp [Span.first?, hnil] at h
  rw [Span.first?_of_opener ')' hstep] at h
  cases hcut : variableLexis.cut (Span.nest ')') 0 inner with
  | mk body after =>
      obtain ⟨_, _, -, -, -, hstop⟩ := variableLexis.exists_pieces_of_cut (Span.nest ')') 0 inner
      have happend := variableLexis.cut_append (Span.nest ')') 0 inner
      rw [hcut] at h hstop happend
      cases after with
      | nil => contradiction
      | cons c post =>
          obtain rfl := Option.some.inj h
          obtain ⟨p, rest, hclose, hnest⟩ := hstop.resolve_left (by simp)
          obtain ⟨rfl, -⟩ := eq_char_of_nest hnest
          obtain ⟨rfl, rfl⟩ := List.cons.inj (Lexis.append_of_step hclose)
          obtain rfl : body ++ ')' :: rest = inner := happend
          obtain ⟨ps, htext, hfold, hbody⟩ := exists_pieces_of_body hcut
          have hwhole : ∀ v, variableLexis.pieces
              (variableCall ++ body ++ [')'] ++ v) =
                .opener variableCall :: (ps ++ .char ')' :: variableLexis.pieces v) := by
            intro v
            rw [← hbody v]
            simp only [List.append_assoc, List.cons_append, List.nil_append]
            exact Lexis.pieces_of_step (step_variableCall _)
          refine ⟨⟨ps, htext, hfold, hwhole⟩, qs, hplain, ?_⟩
          rw [hpieces, ← Lexis.append_of_step hstep]
          simp [Span.whole, Piece.text]

theorem shows_whole {t : Text} {s : Span} (hs : s ∈ (Span.all variableMarker ')' t).1) :
    Shows s.whole [s.body] := by
  obtain ⟨u, hfirst⟩ := Span.first?_of_mem_all hs
  obtain ⟨⟨ps, hbody, hfold, hwhole⟩, -⟩ := exists_pieces_of_first? hfirst
  have halone : variableLexis.pieces s.whole = .opener variableCall :: (ps ++ [.char ')']) := by
    have := hwhole []
    rwa [List.append_nil, Lexis.pieces_nil] at this
  obtain ⟨hfinal, hcalls⟩ := Scan.inside_of_nest [] hfold
  refine ⟨fun v => ?_, ?_, ?_⟩
  · rw [hwhole, halone]
    simp
  · rw [halone]
    change (Scan.inside 0 []).final (ps ++ _) = _
    rw [Scan.final_append, hfinal]
    rfl
  · rw [halone]
    change (Scan.inside 0 []).calls (ps ++ _) = _
    rw [Scan.calls_append, hfinal, hcalls, hbody]
    rfl

theorem shows_pre {t : Text} {s : Span} (hs : s ∈ (Span.all variableMarker ')' t).1)
    (hsealed : Sealed s.pre) : Shows s.pre [] := by
  obtain ⟨u, hfirst⟩ := Span.first?_of_mem_all hs
  obtain ⟨-, qs, hplain, hpieces⟩ := exists_pieces_of_first? hfirst
  refine .of_no_opener hsealed ?_
  have hsplit : s.pre ++ (s.whole ++ s.post) = u := by
    rw [← Span.append_of_first? hfirst]
    simp [Span.whole]
  rw [← hsplit, hsealed] at hpieces
  rwa [List.append_cancel_right hpieces]

theorem shows_of_not_occursIn {t : Text} (ht : Sealed t)
    (h : variableMarker.occursIn t = false) : Shows t [] :=
  .of_no_opener ht (occursIn_eq_false_iff_pieces.1 h)

end CssInliner
