import CssInliner.Proofs.Lexis.Nesting
import CssInliner.Variables.Expansion

/-!
The calls of a text by its pieces. A scan goes from piece to piece and keeps what it
has read of the call it is in; the calls it finishes are the spans of the text.
-/

namespace CssInliner

open Declaration (variableCall)

abbrev variableLexis : Lexis := variableMarker.lexis

theorem step_variableLexis (c : Char) (t : Text) :
    variableLexis.step (c :: t) =
      if c = '\\' then some (.escape (c :: t.take 1), t.drop 1)
      else if Text.isQuote c then
        some (.quoted (c :: (throughQuote c t).1), (throughQuote c t).2)
      else
        match Text.dropLead? variableCall (c :: t) with
        | some rest => some (.opener variableCall, rest)
        | none => some (.char c, t) := by
  rw [variableMarker.step_lexis, variableMarker, Marker.matchAt]
  cases hlead : Text.dropLead? variableCall (c :: t) with
  | none => rfl
  | some rest =>
      obtain ⟨rfl, rfl⟩ := List.cons.inj (Text.eq_append_of_dropLead? hlead)
      rfl

theorem opensCalls_variableMarker : variableMarker.OpensCalls where
  name {t n} h := by
    obtain ⟨rest, hrest, rfl⟩ := Option.map_eq_some_iff.1 h
    refine ⟨"var".toList, rest, (Text.eq_append_of_dropLead? hrest).symm, rfl, ?_⟩
    exact List.all_eq_true.1 rfl
  anywhere {name rest} h u := by
    obtain ⟨rest', hrest, hlength⟩ := Option.map_eq_some_iff.1 h
    have hsplit := Text.eq_append_of_dropLead? hrest
    have htext : name ++ '(' :: rest = "var".toList ++ '(' :: rest' := hsplit
    obtain ⟨rfl, -⟩ := List.append_inj htext (Nat.succ.inj hlength).symm
    rfl

theorem opener_of_step {t o rest : Text} (h : variableLexis.step t = some (.opener o, rest)) :
    o = variableCall := by
  cases t with
  | nil => simp at h
  | cons c t =>
      rw [step_variableLexis] at h
      repeat' split at h
      all_goals simp_all

/-- A single character is a piece only where no opener begins. -/
theorem not_prefix_of_step_char {t rest : Text} {c : Char}
    (h : variableLexis.step t = some (.char c, rest)) : ¬ variableCall <+: t := by
  cases t with
  | nil => simp at h
  | cons d t =>
      rw [step_variableLexis] at h
      by_cases hesc : d = '\\'
      · simp [hesc] at h
      rw [if_neg hesc] at h
      by_cases hquote : Text.isQuote d = true
      · simp [hquote] at h
      rw [if_neg hquote] at h
      cases hlead : Text.dropLead? variableCall (d :: t) with
      | none => exact Text.dropLead?_eq_none_iff.1 hlead
      | some behind => simp [hlead] at h

/-- A piece with text behind it is the first piece before other text too, unless it is a
single character and begins an opener there. -/
theorem step_variableLexis_behind {p : Piece} {z z' : Text} (hz : z ≠ [])
    (h : variableLexis.step (p.text ++ z) = some (p, z))
    (hopener : ∀ c, p = .char c → ¬ variableCall <+: c :: z') :
    variableLexis.step (p.text ++ z') = some (p, z') := by
  refine opensCalls_variableMarker.step_behind hz h fun c hc => ?_
  rw [variableMarker, Marker.matchAt, Text.dropLead?_eq_none_iff.2 (hopener c hc)]
  rfl

/-- Where a scan for calls stands. -/
inductive Scan where
  | outside
  /-- Inside a call, with the nesting there and the text read of its body. -/
  | inside (depth : Nat) (read : Text)

namespace Scan

/-- Takes one piece, and answers with the body of the call that it closes, if any. -/
def next : Scan → Piece → Scan × List Text
  | outside, .opener _ => (inside 0 [], [])
  | outside, _ => (outside, [])
  | inside depth read, p =>
      match Span.nest ')' depth p with
      | some depth' => (inside depth' (read ++ p.text), [])
      | none => (outside, [read])

def final (s : Scan) (ps : List Piece) : Scan := ps.foldl (fun s p => (s.next p).1) s

def calls : Scan → List Piece → List Text
  | _, [] => []
  | s, p :: ps => (s.next p).2 ++ calls (s.next p).1 ps

theorem final_append (s : Scan) (ps qs : List Piece) :
    s.final (ps ++ qs) = (s.final ps).final qs := List.foldl_append

theorem calls_append (s : Scan) (ps qs : List Piece) :
    s.calls (ps ++ qs) = s.calls ps ++ (s.final ps).calls qs := by
  induction ps generalizing s with
  | nil => rfl
  | cons p ps ih =>
      rw [List.cons_append, calls, calls, ih, List.append_assoc]
      rfl

/-- Nothing opens a call but an opener. -/
theorem outside_of_no_opener {ps : List Piece} (h : ∀ p ∈ ps, ∀ t, p ≠ .opener t) :
    outside.final ps = outside ∧ outside.calls ps = [] := by
  induction ps with
  | nil => exact ⟨rfl, rfl⟩
  | cons p ps ih =>
      have hnext : outside.next p = (outside, []) := by
        cases p with
        | opener t => exact absurd rfl (h _ List.mem_cons_self t)
        | _ => rfl
      obtain ⟨hfinal, hcalls⟩ := ih fun q hq => h q (List.mem_cons_of_mem p hq)
      constructor
      · rw [final, List.foldl_cons, hnext]
        exact hfinal
      · rw [calls, hnext]
        exact hcalls

/-- Inside a call, the scan follows the nesting. -/
theorem inside_of_nest {ps : List Piece} {depth depth' : Nat} (read : Text)
    (h : ps.foldlM (Span.nest ')') depth = some depth') :
    (inside depth read).final ps = inside depth' (read ++ ps.flatMap Piece.text) ∧
      (inside depth read).calls ps = [] := by
  induction ps generalizing depth read with
  | nil =>
      obtain rfl : depth = depth' := Option.some.inj h
      exact ⟨by rw [List.flatMap_nil, List.append_nil]; rfl, rfl⟩
  | cons p ps ih =>
      rw [List.foldlM_cons] at h
      cases hnest : Span.nest ')' depth p with
      | none =>
          rw [hnest] at h
          contradiction
      | some depth₁ =>
          rw [hnest] at h
          have hnext : (inside depth read).next p = (inside depth₁ (read ++ p.text), []) := by
            rw [next, hnest]
          obtain ⟨hfinal, hcalls⟩ := ih (read ++ p.text) h
          constructor
          · rw [final, List.foldl_cons, hnext, List.flatMap_cons, ← List.append_assoc]
            exact hfinal
          · rw [calls, hnext]
            exact hcalls

end Scan

theorem exists_pieces_of_locate (t : Text) :
    ∃ ps, variableLexis.pieces t = ps ++ variableLexis.pieces (variableMarker.locate t).2 ∧
      ps.flatMap Piece.text = (variableMarker.locate t).1 ∧
        (∀ p ∈ ps, ∀ o, p ≠ .opener o) ∧
          ((variableMarker.locate t).2 = [] ∨
            ∃ rest, variableLexis.step (variableMarker.locate t).2 =
              some (.opener variableCall, rest)) := by
  obtain ⟨ps, hpieces, htext, hplain, hfound⟩ := variableMarker.exists_plain_pieces t
  refine ⟨ps, hpieces, htext, hplain, hfound.imp_right ?_⟩
  rintro ⟨o, rest, hstep⟩
  obtain rfl := opener_of_step hstep
  exact ⟨rest, hstep⟩

theorem occursIn_eq_false_iff_pieces {t : Text} : variableMarker.occursIn t = false ↔
    ∀ p ∈ variableLexis.pieces t, ∀ o, p ≠ .opener o := by
  obtain ⟨ps, hpieces, -, hplain, hfound⟩ := exists_pieces_of_locate t
  rw [Marker.occursIn, Bool.not_eq_false', List.isEmpty_iff, hpieces]
  constructor
  · intro hnil
    rwa [hnil, Lexis.pieces_nil, List.append_nil]
  · intro hnone
    refine hfound.resolve_right ?_
    rintro ⟨rest, hstep⟩
    rw [Lexis.pieces_of_step hstep] at hnone
    exact hnone _ (List.mem_append_right ps List.mem_cons_self) variableCall rfl

theorem map_body_all (t : Text) :
    (Span.all variableMarker ')' t).1.map Span.body =
      Scan.outside.calls (variableLexis.pieces t) := by
  obtain ⟨ps, hpieces, -, hplain, hfound⟩ := exists_pieces_of_locate t
  obtain ⟨hfinal, hcalls⟩ := Scan.outside_of_no_opener hplain
  rw [hpieces, Scan.calls_append, hfinal, hcalls, List.nil_append, Span.all_eq]
  rcases hfound with hnil | ⟨inner, hstep⟩
  · have hfirst : Span.first? variableMarker ')' t = none := by simp [Span.first?, hnil]
    rw [hfirst, hnil, Lexis.pieces_nil]
    rfl
  · obtain ⟨qs, depth, hpieces', hbody, hfold, hstop⟩ :=
      variableLexis.exists_pieces_of_cut (Span.nest ')') 0 inner
    obtain ⟨hinside, hnone⟩ := Scan.inside_of_nest [] hfold
    have hfirst := Span.first?_of_opener ')' hstep
    have hopened : Scan.outside.calls (variableLexis.pieces (variableMarker.locate t).2) =
        (Scan.inside depth (variableLexis.cut (Span.nest ')') 0 inner).1).calls
          (variableLexis.pieces (variableLexis.cut (Span.nest ')') 0 inner).2) := by
      rw [Lexis.pieces_of_step hstep, hpieces', ← hbody]
      change (Scan.inside 0 []).calls (qs ++ _) = _
      rw [Scan.calls_append, hinside, hnone]
      rfl
    rw [hopened]
    generalize variableLexis.cut (Span.nest ')') 0 inner = split at *
    obtain ⟨body, after⟩ := split
    rcases hstop with hend | ⟨p, post, hclose, hnest⟩
    · obtain rfl : after = [] := hend
      rw [hfirst, Lexis.pieces_nil]
      rfl
    · obtain ⟨rfl, rfl⟩ := eq_char_of_nest hnest
      obtain rfl : ')' :: post = after := Lexis.append_of_step hclose
      rw [Lexis.pieces_of_step hclose]
      dsimp only [List.head?_cons, List.tail_cons, Option.map_some] at hfirst
      have := Span.length_post_lt hfirst
      rw [hfirst]
      exact congrArg (body :: ·) (map_body_all post)
termination_by t.length

end CssInliner
