import CssInliner.Grammar.Defect
import Mathlib.Data.List.DropRight
import Mathlib.Data.Prod.Lex

/-!
Lines and columns as counts: a position tells how many line feeds there are before it,
and how many characters there are behind the last of them. Every character leads to a later
position, so the positions in a text are in the order of the offsets.
-/

namespace CssInliner

namespace Text

/-- The offset is in the text and splits no character. -/
def IsBoundary (t : Text) (offset : Nat) : Prop :=
  ∃ before behind, t = before ++ behind ∧ before.byteLength = offset

theorem takeBytes_of_byteLength_le {t : Text} {n : Nat} (h : t.byteLength ≤ n) :
    takeBytes n t = t := by
  induction t generalizing n with
  | nil => cases n <;> rfl
  | cons c t ih =>
      rw [byteLength_cons] at h
      rw [takeBytes, if_pos (by omega), ih (by omega)]

/-- Of two beginnings of a text the one with fewer bytes is the beginning of the other. -/
theorem exists_append_of_byteLength_lt {s s' u u' : Text} (h : s ++ u = s' ++ u')
    (hlt : s.byteLength < s'.byteLength) : ∃ t, t ≠ [] ∧ s' = s ++ t := by
  rcases List.append_eq_append_iff.1 h with ⟨t, rfl, -⟩ | ⟨t, rfl, -⟩
  · refine ⟨t, ?_, rfl⟩
    rintro rfl
    simp at hlt
  · rw [byteLength_append] at hlt
    omega

end Text

namespace Position

theorem after_concat (t : Text) (c : Char) : after (t ++ [c]) = (after t).next c :=
  List.foldl_concat next first c t

theorem line_after (t : Text) : (after t).line = 1 + t.count '\n' := by
  induction t using List.reverseRecOn with
  | nil => rfl
  | append_singleton t c ih =>
      rw [after_concat, next, List.count_append, List.count_singleton]
      by_cases hc : c = '\n'
      · simp [hc, ih, Nat.add_assoc]
      · simp [hc, ih]

theorem column_after (t : Text) :
    (after t).column = 1 + (t.rtakeWhile (· ≠ '\n')).length := by
  induction t using List.reverseRecOn with
  | nil => rfl
  | append_singleton t c ih =>
      rw [after_concat, next]
      by_cases hc : c = '\n'
      · rw [List.rtakeWhile_concat_neg _ _ _ (by simp [hc]), if_pos hc]
        rfl
      · rw [List.rtakeWhile_concat_pos _ _ _ (by simp [hc]), if_neg hc, ih, List.length_append]
        rfl

/-- The order of reading: line by line, and column by column in a line. -/
instance : Preorder Position := Preorder.lift fun p => toLex (p.line, p.column)

theorem lt_iff {p q : Position} :
    p < q ↔ p.line < q.line ∨ p.line = q.line ∧ p.column < q.column :=
  Prod.Lex.toLex_lt_toLex

theorem lt_next (p : Position) (c : Char) : p < p.next c := by
  rw [lt_iff, next]
  by_cases hc : c = '\n'
  · simp [hc]
  · simp [hc]

theorem after_lt_after_append (s : Text) {t : Text} (ht : t ≠ []) :
    after s < after (s ++ t) := by
  induction t using List.reverseRecOn with
  | nil => contradiction
  | append_singleton t c ih =>
      rw [← List.append_assoc, after_concat]
      by_cases hnil : t = []
      · rw [hnil, List.append_nil]
        exact lt_next (after s) c
      · exact (ih hnil).trans (lt_next (after (s ++ t)) c)

/-- Further on in a text is later. -/
theorem strictMonoOn_atOffset (source : Text) :
    StrictMonoOn (atOffset source) {o | Text.IsBoundary source o} := by
  rintro o ⟨s, u, rfl, rfl⟩ o' ⟨s', u', hsource, rfl⟩ hlt
  obtain ⟨t, ht, rfl⟩ := Text.exists_append_of_byteLength_lt hsource hlt
  rw [atOffset_byteLength_append, hsource, atOffset_byteLength_append]
  exact after_lt_after_append s ht

theorem atOffset_of_byteLength_le {source : Text} {o : Nat} (h : source.byteLength ≤ o) :
    atOffset source o = after source := by
  rw [atOffset, Text.takeBytes_of_byteLength_le h]

theorem one_le_after (t : Text) : 1 ≤ (after t).line ∧ 1 ≤ (after t).column := by
  rw [line_after, column_after]
  omega

end Position

open Text (IsBoundary) in
/-- In a source the defects are reported in the order of their offsets, so that a line and a
column tell the offset. What is past the end is reported at the end, and lines and columns
count from one. -/
theorem SyntaxError.position_order (source : Text) (d d' : Defect) :
    (∀ o o', IsBoundary source o → IsBoundary source o' →
      ((atOffset d source o).position < (atOffset d' source o').position ↔ o < o') ∧
        ((atOffset d source o).position = (atOffset d' source o').position ↔ o = o')) ∧
      (∀ o, source.byteLength ≤ o →
        (atOffset d source o).position = (atOffset d' source source.byteLength).position) ∧
        ∀ o, 1 ≤ (atOffset d source o).position.line ∧
          1 ≤ (atOffset d source o).position.column := by
  have hmono := Position.strictMonoOn_atOffset source
  refine ⟨fun o o' ho ho' => ⟨hmono.lt_iff_lt ho ho', hmono.eq_iff_eq ho ho'⟩,
    fun o ho => ?_, fun o => Position.one_le_after _⟩
  exact (Position.atOffset_of_byteLength_le ho).trans
    (Position.atOffset_of_byteLength_le (Nat.le_refl _)).symm

open Text (IsBoundary) in
/-- Behind a character of two bytes, and at the start of the second line. -/
theorem SyntaxError.position_order_sample :
    let source := "é\nb".toList
    IsBoundary source 2 ∧ IsBoundary source 3 ∧
      (atOffset .missingColon source 2).position = ⟨1, 2⟩ ∧
        (atOffset .missingColon source 3).position = ⟨2, 1⟩ ∧
          (atOffset .missingColon source 2).position < (atOffset .missingColon source 3).position ∧
            (atOffset .missingColon source 9).position =
              (atOffset .missingColon source 4).position := by
  intro source
  have h2 : IsBoundary source 2 := ⟨['é'], ['\n', 'b'], rfl, rfl⟩
  have h3 : IsBoundary source 3 := ⟨['é', '\n'], ['b'], rfl, rfl⟩
  have horder := position_order source .missingColon .missingColon
  exact ⟨h2, h3, by decide, by decide, (horder.1 2 3 h2 h3).1.2 (by decide),
    horder.2.1 9 (by decide)⟩

end CssInliner
