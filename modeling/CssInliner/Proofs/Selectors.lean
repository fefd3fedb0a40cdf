import CssInliner.Grammar.Selector
import CssInliner.Proofs.Text.Weight

/-!
The selectors of a list: trimmed texts that are not empty and weigh, together, no
more than the list they were cut from.
-/

namespace CssInliner

namespace Grammar

theorem splitPieces_ne_nil (depth : Nat) (ps : List Piece) : splitPieces depth ps ≠ [] := by
  induction ps generalizing depth with
  | nil => simp [splitPieces]
  | cons p ps ih =>
      simp only [splitPieces]
      split
      · simp
      · split <;> simp

theorem splitPieces_comma (ps : List Piece) :
    splitPieces 0 (.char ',' :: ps) = [] :: splitPieces 0 ps := by
  simp [splitPieces]

theorem splitPieces_cons {depth : Nat} {p : Piece} (h : ¬ (p = .char ',' ∧ depth = 0))
    (ps : List Piece) :
    splitPieces depth (p :: ps) =
      (splitPieces (selectorDepth depth p) ps).modifyHead (p.text ++ ·) := by
  obtain ⟨part, parts, hparts⟩ :=
    List.exists_cons_of_ne_nil (splitPieces_ne_nil (selectorDepth depth p) ps)
  rw [splitPieces, if_neg (by simpa using h), hparts]
  rfl

theorem join_nil_cons {separator : Text} {ts : List Text} (h : ts ≠ []) :
    Text.join separator ([] :: ts) = separator ++ Text.join separator ts := by
  obtain ⟨t, ts, rfl⟩ := List.exists_cons_of_ne_nil h
  rfl

theorem join_modifyHead {separator : Text} {ts : List Text} (h : ts ≠ []) (s : Text) :
    Text.join separator (ts.modifyHead (s ++ ·)) = s ++ Text.join separator ts := by
  obtain ⟨t, ts, rfl⟩ := List.exists_cons_of_ne_nil h
  cases ts with
  | nil => rfl
  | cons u ts => simp [Text.join]

theorem join_splitPieces (depth : Nat) (ps : List Piece) :
    Text.join [','] (splitPieces depth ps) = ps.flatMap Piece.text := by
  induction ps generalizing depth with
  | nil => rfl
  | cons p ps ih =>
      rw [List.flatMap_cons]
      by_cases hcut : p = .char ',' ∧ depth = 0
      · obtain ⟨rfl, rfl⟩ := hcut
        rw [splitPieces_comma, join_nil_cons (splitPieces_ne_nil 0 ps), ih]
        rfl
      · rw [splitPieces_cons hcut, join_modifyHead (splitPieces_ne_nil _ ps), ih]

/-- A text behind the last comma belongs to the last part. -/
theorem splitPieces_append {qs : List Piece} {s : Text}
    (hqs : ∀ depth, splitPieces depth qs = [s]) (depth : Nat) (ps : List Piece) :
    ∃ parts part, splitPieces depth ps = parts ++ [part] ∧
      splitPieces depth (ps ++ qs) = parts ++ [part ++ s] := by
  induction ps generalizing depth with
  | nil => exact ⟨[], [], rfl, hqs depth⟩
  | cons p ps ih =>
      rw [List.cons_append]
      by_cases hcut : p = .char ',' ∧ depth = 0
      · obtain ⟨parts, part, hps, hwhole⟩ := ih 0
        obtain ⟨rfl, rfl⟩ := hcut
        refine ⟨[] :: parts, part, ?_, ?_⟩
        · rw [splitPieces_comma, hps]
          rfl
        · rw [splitPieces_comma, hwhole]
          rfl
      · obtain ⟨parts, part, hps, hwhole⟩ := ih (selectorDepth depth p)
        rw [splitPieces_cons hcut, splitPieces_cons hcut, hps, hwhole]
        cases parts with
        | nil => exact ⟨[], p.text ++ part, rfl, by simp⟩
        | cons first parts => exact ⟨(p.text ++ first) :: parts, part, rfl, rfl⟩

theorem weight_splitSelectors_le (t : Text) :
    Text.weight (splitSelectors t).flatten ≤ t.weight := by
  calc Text.weight (splitSelectors t).flatten
      ≤ Text.weight (splitPieces 0 (selectorLexis.pieces t)).flatten :=
        Text.weight_filter_trim_le _
    _ = (Text.join [','] (splitPieces 0 (selectorLexis.pieces t))).weight :=
        (Text.weight_join rfl _).symm
    _ = t.weight := by rw [join_splitPieces, Lexis.flatMap_text_pieces]

theorem of_mem_splitSelectors {s t : Text} (h : s ∈ splitSelectors t) :
    s ≠ [] ∧ s.trim = s := by
  obtain ⟨hmem, hne⟩ := List.mem_filter.1 h
  obtain ⟨part, -, rfl⟩ := List.mem_map.1 hmem
  exact ⟨by simpa using hne, Text.trim_trim part⟩

theorem mem_of_mem_join {c : Char} {separator : Text} {ts : List Text}
    (h : c ∈ Text.join separator ts) : c ∈ separator ∨ ∃ t ∈ ts, c ∈ t := by
  fun_induction Text.join separator ts with
  | case1 => contradiction
  | case2 t => exact .inr ⟨t, by simp, h⟩
  | case3 t u ts ih =>
      rcases List.mem_append.1 h with h | h
      · rcases List.mem_append.1 h with h | h
        · exact .inr ⟨t, by simp, h⟩
        · exact .inl h
      · rcases ih h with h | ⟨s, hs, h⟩
        · exact .inl h
        · exact .inr ⟨s, List.mem_cons_of_mem _ hs, h⟩

/-- A list in which there is more than commas and blanks has a selector. -/
theorem splitSelectors_ne_nil {c : Char} {t : Text} (hmem : c ∈ t) (hc : Text.isBlank c = false)
    (hcomma : c ≠ ',') : splitSelectors t ≠ [] := by
  rw [← Lexis.flatMap_text_pieces selectorLexis t, ← join_splitPieces 0] at hmem
  rcases mem_of_mem_join hmem with hmem | ⟨part, hpart, hmem⟩
  · exact absurd (List.mem_singleton.1 hmem) hcomma
  · refine List.ne_nil_of_mem (List.mem_filter.2 ⟨List.mem_map_of_mem hpart, ?_⟩)
    simpa using Text.trim_ne_nil hmem hc

theorem splitSelectors_at (t : Text) :
    ∃ s ss, splitSelectors ('@' :: t) = ('@' :: s) :: ss := by
  have hstep : selectorLexis.step ('@' :: t) = some (.char '@', t) :=
    Lexis.step_char rfl (by decide) rfl (by decide) t
  obtain ⟨part, parts, hparts⟩ : ∃ part parts,
      splitPieces 0 (selectorLexis.pieces ('@' :: t)) = ('@' :: part) :: parts := by
    rw [Lexis.pieces_eq, hstep]
    obtain ⟨part, parts, hparts⟩ :=
      List.exists_cons_of_ne_nil (splitPieces_ne_nil 0 (selectorLexis.pieces t))
    exact ⟨part, parts, by simp [splitPieces, selectorDepth, hparts, Piece.text]⟩
  have htrim : Text.trim ('@' :: part) = '@' :: Text.trimEnd part := Text.trim_cons rfl part
  refine ⟨Text.trimEnd part, (parts.map Text.trim).filter fun s => !s.isEmpty, ?_⟩
  rw [splitSelectors, hparts, List.map_cons, htrim]
  rfl

end Grammar

end CssInliner
