import CssInliner.Proofs.Text.Trim
import CssInliner.Variables.Expansion

/-!
The calls in a text: which variables they name, those inside fallbacks included,
and what each of them is to be replaced by.
-/

namespace CssInliner

theorem Span.length_body_lt_of_mem {marker : Marker} {close : Char} {t : Text} {s : Span}
    (h : s ∈ (all marker close t).1) : s.body.length < t.length := by
  rw [all_eq] at h
  cases hfirst : first? marker close t with
  | none =>
      rw [hfirst] at h
      contradiction
  | some s' =>
      rw [hfirst] at h
      have hlen := congrArg List.length (append_of_first? hfirst)
      have hpost := length_post_lt hfirst
      simp only [List.length_append, List.length_cons] at hlen
      rcases List.mem_cons.1 h with rfl | h
      · omega
      · have := length_body_lt_of_mem h
        omega
termination_by t.length

namespace Expansion

theorem length_of_splitArguments {arguments fallback : Text}
    (h : (splitArguments arguments).2 = some fallback) : fallback.length ≤ arguments.length := by
  unfold splitArguments at h
  cases hsplit : Text.splitFirst? [','] arguments with
  | none =>
      rw [hsplit] at h
      contradiction
  | some pair =>
      obtain ⟨name, behind⟩ := pair
      rw [hsplit] at h
      have hbehind := congrArg List.length (Text.eq_append_of_splitFirst? hsplit)
      have htrim := Text.length_trim_le behind
      obtain rfl : behind.trim = fallback := by
        simp only [Text.nonempty?] at h
        split at h
        · contradiction
        · exact Option.some.inj h
      simp only [List.length_append] at hbehind
      omega

theorem length_fallback_lt {t fallback : Text} {s : Span}
    (hs : s ∈ (Span.all variableMarker ')' t).1)
    (h : (splitArguments s.body).2 = some fallback) : fallback.length < t.length :=
  Nat.lt_of_le_of_lt (length_of_splitArguments h) (Span.length_body_lt_of_mem hs)

/-- The names that the calls of a text give, and those in their fallbacks. -/
def callNames (t : Text) : List Text :=
  (Span.all variableMarker ')' t).1.attach.flatMap fun ⟨s, hs⟩ =>
    if s.body.isBlankOnly then []
    else
      (splitArguments s.body).1 ::
        match h : (splitArguments s.body).2 with
        | some fallback =>
            have := length_fallback_lt hs h
            callNames fallback
        | none => []
termination_by t.length

theorem mem_callNames {m t : Text} :
    m ∈ callNames t ↔ ∃ s ∈ (Span.all variableMarker ')' t).1, s.body.isBlankOnly = false ∧
      (m = (splitArguments s.body).1 ∨
        ∃ fallback, (splitArguments s.body).2 = some fallback ∧ m ∈ callNames fallback) := by
  rw [callNames, List.mem_flatMap]
  constructor
  · rintro ⟨⟨s, hs⟩, -, hm⟩
    dsimp only at hm
    refine ⟨s, hs, ?_⟩
    cases hblank : s.body.isBlankOnly with
    | true => simp [hblank] at hm
    | false =>
        refine ⟨rfl, ?_⟩
        simp only [hblank, Bool.false_eq_true, if_false, List.mem_cons] at hm
        rcases hm with rfl | hm
        · exact .inl rfl
        · right
          split at hm
          · next fallback hfallback => exact ⟨fallback, hfallback, hm⟩
          · contradiction
  · rintro ⟨s, hs, hblank, hm⟩
    refine ⟨⟨s, hs⟩, List.mem_attach .., ?_⟩
    simp only [hblank, Bool.false_eq_true, if_false, List.mem_cons]
    rcases hm with rfl | ⟨fallback, hfallback, hm⟩
    · exact .inl rfl
    · right
      split
      · next other hother =>
          rw [hfallback] at hother
          obtain rfl := Option.some.inj hother
          exact hm
      · next hnone =>
          rw [hfallback] at hnone
          contradiction

theorem name_mem_callNames {t : Text} {s : Span} (hs : s ∈ (Span.all variableMarker ')' t).1)
    (hblank : s.body.isBlankOnly = false) : (splitArguments s.body).1 ∈ callNames t :=
  mem_callNames.2 ⟨s, hs, hblank, .inl rfl⟩

theorem mem_callNames_of_fallback {t fallback m : Text} {s : Span}
    (hs : s ∈ (Span.all variableMarker ')' t).1) (hblank : s.body.isBlankOnly = false)
    (hfallback : (splitArguments s.body).2 = some fallback) (hm : m ∈ callNames fallback) :
    m ∈ callNames t :=
  mem_callNames.2 ⟨s, hs, hblank, .inr ⟨fallback, hfallback, hm⟩⟩

/-- What a call is to be replaced by: the value of its variable, or else its
fallback if that has any text. -/
def replacement (vars : VariableMap) (arguments : Text) : Option Text :=
  vars[(splitArguments arguments).1]?.or (splitArguments arguments).2

end Expansion

end CssInliner
