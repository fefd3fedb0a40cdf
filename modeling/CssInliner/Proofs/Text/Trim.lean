import CssInliner.Text.Blank
import Mathlib.Data.List.DropRight
import Mathlib.Data.List.TakeWhile

/-!
What trimming leaves: a text that is empty or has no blank at either end.
-/

namespace CssInliner.Text

/-- What stands before a character that stays is not touched. -/
theorem trimEnd_append_cons (s : Text) {c : Char} (hc : isBlank c = false) (t : Text) :
    trimEnd (s ++ c :: t) = s ++ c :: trimEnd t := by
  have hlast : (c :: s.reverse).dropWhile isBlank = c :: s.reverse := by simp [hc]
  have hreverse : (s ++ c :: t).reverse = t.reverse ++ c :: s.reverse := by simp
  rw [trimEnd, trimEnd, hreverse, List.dropWhile_append, hlast]
  cases t.reverse.dropWhile isBlank with
  | nil => simp
  | cons d u => simp

theorem trimEnd_cons {c : Char} (hc : isBlank c = false) (t : Text) :
    trimEnd (c :: t) = c :: trimEnd t := trimEnd_append_cons [] hc t

theorem trim_cons {c : Char} (hc : isBlank c = false) (t : Text) :
    trim (c :: t) = c :: trimEnd t := by
  have hstart : trimStart (c :: t) = c :: t := by simp [trimStart, hc]
  rw [trim, hstart, trimEnd_cons hc]

theorem trim_cons_of_isBlank {c : Char} (hc : isBlank c = true) (t : Text) :
    trim (c :: t) = trim t := by
  simp [trim, trimStart, hc]

theorem trim_blank_append {blank : Text} (hblank : ∀ c ∈ blank, isBlank c = true) (t : Text) :
    trim (blank ++ t) = trim t := by
  rw [trim, trimStart, List.dropWhile_append_of_pos hblank]
  rfl

theorem trimEnd_concat (t : Text) {c : Char} (hc : isBlank c = false) :
    trimEnd (t ++ [c]) = t ++ [c] := by
  simp [trimEnd, hc]

theorem trim_eq_self {t : Text} (h : ∀ c ∈ t, isBlank c = false) : trim t = t := by
  cases t with
  | nil => rfl
  | cons c t =>
      have hend : trimEnd t = t := by
        refine List.rdropWhile_eq_self_iff.2 fun hne => ?_
        simp [h _ (List.mem_cons_of_mem c (List.getLast_mem hne))]
      rw [trim_cons (h c List.mem_cons_self), hend]

theorem exists_blank_of_trimEnd (t : Text) :
    ∃ blank, t = trimEnd t ++ blank ∧ ∀ c ∈ blank, isBlank c = true := by
  refine ⟨(t.reverse.takeWhile isBlank).reverse, ?_, fun c hc => ?_⟩
  · rw [trimEnd, ← List.reverse_append, List.takeWhile_append_dropWhile, List.reverse_reverse]
  · exact List.mem_takeWhile_imp (List.mem_reverse.1 hc)

theorem trim_append_blank (t : Text) {blank : Text} (hblank : ∀ c ∈ blank, isBlank c = true) :
    trim (t ++ blank) = trim t := by
  have hend : ∀ s : Text, trimEnd (s ++ blank) = trimEnd s := by
    intro s
    rw [trimEnd, List.reverse_append, List.dropWhile_append_of_pos (by simpa using hblank), trimEnd]
  rw [trim, trimStart, List.dropWhile_append, trim, trimStart]
  cases hstart : t.dropWhile isBlank with
  | nil => simp [List.dropWhile_eq_nil_iff.2 hblank]
  | cons c s => exact hend (c :: s)

theorem trimEnd_trimEnd (t : Text) : trimEnd (trimEnd t) = trimEnd t :=
  List.rdropWhile_idempotent isBlank t

theorem isBlank_of_trimStart_eq_cons {c : Char} {s t : Text} (h : trimStart t = c :: s) :
    isBlank c = false := by
  have := List.head?_dropWhile_not isBlank t
  rw [show t.dropWhile isBlank = c :: s from h] at this
  simpa using this

/-- A text is blank throughout, or blank up to the first character that stays. -/
theorem trim_eq_nil_or_cons (t : Text) :
    trim t = [] ∨ ∃ c s, isBlank c = false ∧ trim t = c :: trimEnd s := by
  cases hstart : trimStart t with
  | nil =>
      left
      rw [trim, hstart]
      rfl
  | cons c s =>
      right
      have hc := isBlank_of_trimStart_eq_cons hstart
      exact ⟨c, s, hc, by rw [trim, hstart, trimEnd_cons hc]⟩

theorem trim_trim (t : Text) : trim (trim t) = trim t := by
  rcases trim_eq_nil_or_cons t with h | ⟨c, s, hc, h⟩
  · rw [h]
    rfl
  · rw [h, trim_cons hc, trimEnd_trimEnd]

theorem isBlank_of_trim_eq_cons {c : Char} {s t : Text} (h : trim t = c :: s) :
    isBlank c = false := by
  rcases trim_eq_nil_or_cons t with hnil | ⟨d, u, hd, hcons⟩
  · rw [hnil] at h
    contradiction
  · rw [hcons] at h
    obtain ⟨rfl, -⟩ := List.cons.inj h
    exact hd

theorem trim_ne_nil {c : Char} {t : Text} (hmem : c ∈ t) (hc : isBlank c = false) :
    trim t ≠ [] := by
  cases hstart : trimStart t with
  | nil =>
      have hblank := List.dropWhile_eq_nil_iff.1 hstart c hmem
      rw [hc] at hblank
      contradiction
  | cons d s =>
      rw [trim, hstart, trimEnd_cons (isBlank_of_trimStart_eq_cons hstart)]
      exact List.cons_ne_nil _ _

theorem length_trim_le (t : Text) : (trim t).length ≤ t.length := by
  have hstart : (trimStart t).length ≤ t.length :=
    (List.dropWhile_suffix isBlank).length_le
  have hend : (trim t).length ≤ (trimStart t).length :=
    (List.rdropWhile_prefix isBlank (trimStart t)).length_le
  omega

theorem mem_of_mem_trim {c : Char} {t : Text} (h : c ∈ trim t) : c ∈ t :=
  (List.dropWhile_suffix isBlank).subset ((List.rdropWhile_prefix isBlank (trimStart t)).subset h)

theorem isLayout_eq_false {c : Char} (hc : isBlank c = false) : isLayout c = false := by
  cases h : isLayout c with
  | false => rfl
  | true => rw [← hc, isBlank_of_isLayout h]

end CssInliner.Text
