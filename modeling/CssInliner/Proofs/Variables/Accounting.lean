import CssInliner.Proofs.Variables.Context
import CssInliner.Variables.Resolution

/-!
Nothing is left unresolved in silence. A reference that stays in a text is counted,
and each that is counted has a warning of its own: a call that is left as it is was
warned of on the spot, or the text that it was to be replaced with came to nothing,
which takes a reference left in there.
-/

namespace CssInliner

namespace Expansion

/-- How many references are left where a call stands: the call itself, or those in what
it is replaced with. -/
def left : Option Expansion → Nat
  | none => 1
  | some e => e.unresolved

/-- There is a warning for each of what is counted. -/
def Accounted {α : Type} (count : α → Nat) (r : Noted α) : Prop :=
  count r.value ≤ r.warnings.length

section assemble

variable {call : Text → Noted (Option Expansion)}

theorem unresolved_consSpan (s : Span) (rest : Noted Expansion) :
    (consSpan call s rest).value.unresolved =
      left (call s.body).value + rest.value.unresolved := by
  rw [consSpan]
  cases (call s.body).value <;> rfl

theorem accounted_ofTail (value tail : Text) : Accounted unresolved (ofTail value tail) := by
  rw [ofTail]
  split <;> exact Nat.le_refl _

theorem accounted_assemble (h : ∀ arguments, Accounted left (call arguments)) (t : Text) :
    Accounted unresolved (assemble call t) := by
  rw [assemble_eq]
  generalize (Span.all variableMarker ')' t).1 = spans
  induction spans with
  | nil => exact accounted_ofTail _ _
  | cons s spans ih =>
      rw [List.foldr_cons, Accounted, unresolved_consSpan, warnings_consSpan, List.length_append]
      exact Nat.add_le_add (h s.body) ih

end assemble

theorem accounted_refuse (arguments : Text) : Accounted left (refuse arguments) := by
  rw [refuse]
  split <;> exact Nat.le_refl _

/-- A text that comes to nothing has a reference left in it. -/
theorem accounted_unlessFailed {e : Noted Expansion} (h : Accounted unresolved e) :
    Accounted left ⟨e.value.unlessFailed, e.warnings⟩ := by
  rw [Accounted, unlessFailed]
  cases hfailed : e.value.failed with
  | false => exact h
  | true =>
      have hpos : 0 < e.value.unresolved := by
        simp only [failed, Bool.and_eq_true, decide_eq_true_eq] at hfailed
        exact hfailed.1
      exact Nat.le_trans hpos h

section answer

variable {vars : VariableMap} {active : List Text} {expand : List Text → Text → Noted Expansion}

/-- A variable that is held and comes to nothing is warned of: as part of a cycle, or for
what is left in its value. -/
theorem accounted_ofVariable (h : ∀ active t, Accounted unresolved (expand active t))
    {name : Text} (hname : name ∈ vars) :
    Accounted left (ofVariable vars active expand name) := by
  obtain ⟨value, hvalue⟩ := Option.isSome_iff_exists.1 (Std.TreeMap.mem_iff_isSome_getElem?.1 hname)
  simp only [ofVariable, hvalue]
  split
  · exact Nat.le_refl _
  · exact accounted_unlessFailed (h (name :: active) value)

/-- Without a fallback there is a warning only of a variable that is not held. -/
theorem accounted_ofFallback (h : ∀ active t, Accounted unresolved (expand active t))
    {name : Text} {fallback : Option Text} (hname : fallback = none → name ∉ vars) :
    Accounted left (ofFallback vars active expand name fallback) := by
  cases fallback with
  | some fallback => exact accounted_unlessFailed (h active fallback)
  | none => simp [Accounted, ofFallback, hname rfl, left]

theorem accounted_answer (h : ∀ active t, Accounted unresolved (expand active t))
    (arguments : Text) : Accounted left (answer vars active expand arguments) := by
  cases hblank : arguments.isBlankOnly with
  | true =>
      rw [answer_of_blank hblank]
      exact Nat.le_refl _
  | false =>
      cases hheld : (ofVariable vars active expand (splitArguments arguments).1).value with
      | some e =>
          rw [answer_of_some hblank hheld]
          refine accounted_ofVariable h (Decidable.by_contra fun hname => ?_)
          simp [ofVariable, Std.TreeMap.getElem?_eq_none hname] at hheld
      | none =>
          rw [answer_of_none hblank hheld, Accounted, List.length_append]
          by_cases hquiet : (splitArguments arguments).2 = none ∧
              (splitArguments arguments).1 ∈ vars
          · -- nothing is said in the end, but the variable was warned of before
            have hvariable : Accounted left
                (ofVariable vars active expand (splitArguments arguments).1) :=
              accounted_ofVariable h hquiet.2
            rw [Accounted, hheld] at hvariable
            rw [hquiet.1]
            exact Nat.le_trans hvariable (Nat.le_add_right _ _)
          · have hfallback : Accounted left (ofFallback vars active expand
                (splitArguments arguments).1 (splitArguments arguments).2) :=
              accounted_ofFallback h fun hnone hname => hquiet ⟨hnone, hname⟩
            exact Nat.le_trans hfallback (Nat.le_add_left _ _)

end answer

/-- An expansion counts no more references as unresolved than it warns of. -/
theorem accounted_expand (vars : VariableMap) (levels : Nat) (active : List Text) (t : Text) :
    Accounted unresolved (expand vars levels active t) := by
  induction levels generalizing active t with
  | zero => exact accounted_assemble accounted_refuse t
  | succ levels ih => exact accounted_assemble (accounted_answer ih) t

end Expansion

/-- A value is resolved, or a warning says that it is not. In any text that is expanded
on the way, at any depth and whatever is being expanded around it, the references that
are left are no more than the warnings of them. -/
theorem resolved_or_warned (vars : VariableMap) :
    (∀ value, (∃ text, (resolveValue vars value).value = .resolved text) ∨
      (resolveValue vars value).warnings ≠ []) ∧
      ∀ levels active t, (Expansion.expand vars levels active t).value.unresolved ≤
        (Expansion.expand vars levels active t).warnings.length := by
  refine ⟨fun value => ?_, Expansion.accounted_expand vars⟩
  let e := Expansion.expand vars maxDepth [] value
  have hle : e.value.unresolved ≤ e.warnings.length :=
    Expansion.accounted_expand vars maxDepth [] value
  by_cases hnone : e.value.unresolved = 0
  · exact .inl ⟨e.value.text, if_pos hnone⟩
  · refine .inr fun hwarnings => hnone ?_
    change e.warnings = [] at hwarnings
    rw [hwarnings] at hle
    exact Nat.le_zero.1 hle

end CssInliner
