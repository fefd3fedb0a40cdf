import CssInliner.Proofs.Lookahead.Lexis
import CssInliner.Proofs.Text.Trim

/-!
The weight of a text counts neither spaces nor commas, which is what printing
adds by itself and reading takes away. Trimming, cutting at commas and joining
never make a text heavier.
-/

namespace CssInliner.Text

def weighs (c : Char) : Bool := c ≠ ' ' && c ≠ ','

def weight (t : Text) : Nat := t.countP weighs

@[simp] theorem weight_nil : weight [] = 0 := rfl

@[simp] theorem weight_append (s t : Text) : (s ++ t).weight = s.weight + t.weight :=
  List.countP_append

@[simp] theorem weight_cons (c : Char) (t : Text) :
    weight (c :: t) = t.weight + if weighs c then 1 else 0 :=
  List.countP_cons

theorem weight_le_of_sublist {s t : Text} (h : s.Sublist t) : s.weight ≤ t.weight := h.countP_le

theorem weight_le_of_suffix {s t : Text} (h : s <:+ t) : s.weight ≤ t.weight :=
  weight_le_of_sublist h.sublist

theorem weight_trim_le (t : Text) : t.trim.weight ≤ t.weight := by
  have hstart : (trimStart t).Sublist t := (List.dropWhile_suffix isBlank).sublist
  have hend : (trim t).Sublist (trimStart t) :=
    (List.rdropWhile_prefix isBlank (trimStart t)).sublist
  exact weight_le_of_sublist (hend.trans hstart)

theorem weighs_of_bound {c : Char} (hc : isBound c = true) : weighs c = true := by
  simp only [isBound, Bool.or_eq_true, decide_eq_true_eq] at hc
  rcases hc with (rfl | rfl) | rfl
  all_goals rfl

theorem weight_join {separator : Text} (h : separator.weight = 0) (ts : List Text) :
    (join separator ts).weight = weight ts.flatten := by
  induction ts with
  | nil => rfl
  | cons t ts ih =>
      cases ts with
      | nil => simp [join]
      | cons u ts =>
          rw [join, weight_append, weight_append, h, ih, Nat.add_zero, List.flatten_cons (l := t),
            weight_append]

/-- Trimmed parts without the empty ones weigh no more than the parts. -/
theorem weight_filter_trim_le (parts : List Text) :
    weight ((parts.map trim).filter fun s => !s.isEmpty).flatten ≤ weight parts.flatten := by
  induction parts with
  | nil => exact Nat.le_refl 0
  | cons part parts ih =>
      have hpart := weight_trim_le part
      simp only [List.map_cons, List.filter_cons, List.flatten_cons, weight_append]
      split
      · rw [List.flatten_cons, weight_append]
        omega
      · omega

end CssInliner.Text
