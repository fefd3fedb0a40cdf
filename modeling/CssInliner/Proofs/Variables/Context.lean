import CssInliner.Variables.Expansion

/-!
What an answer owes to where its call stands. The names that are being expanded
around a call, and how deep it stands, can only make expansion give up earlier, and
then a warning says so. Where no warning puts it down to the place of the call, the
call comes to the same at the top of a value.
-/

namespace CssInliner

/-- The warning is about a name that is being expanded around the place, or about its
depth, if there are places above it. -/
def Warning.Blames (active : List Text) (above : Nat) : Warning → Prop
  | cycle name => name ∈ active
  | depthExceeded _ _ => 0 < above
  | _ => False

namespace Expansion

/-- What a call comes to where `levels` more levels are allowed and the names in
`active` are being expanded. -/
def respond (vars : VariableMap) :
    (levels : Nat) → (active : List Text) → Text → Noted (Option Expansion)
  | 0, _ => refuse
  | levels + 1, active => answer vars active (expand vars levels)

theorem expand_eq_assemble (vars : VariableMap) (levels : Nat) (active : List Text) (t : Text) :
    expand vars levels active t = assemble (respond vars levels active) t := by
  cases levels <;> rfl

section assemble

variable {call call' : Text → Noted (Option Expansion)} {t : Text}

theorem assemble_eq (call : Text → Noted (Option Expansion)) (t : Text) :
    assemble call t = (Span.all variableMarker ')' t).1.foldr (consSpan call)
      (ofTail t (Span.all variableMarker ')' t).2) := rfl

theorem warnings_consSpan (s : Span) (rest : Noted Expansion) :
    (consSpan call s rest).warnings = (call s.body).warnings ++ rest.warnings := by
  simp only [consSpan]
  split <;> rfl

theorem mem_warnings_assemble_iff {w : Warning} :
    w ∈ (assemble call t).warnings ↔
      (∃ s ∈ (Span.all variableMarker ')' t).1, w ∈ (call s.body).warnings) ∨
        w ∈ (ofTail t (Span.all variableMarker ')' t).2).warnings := by
  rw [assemble_eq]
  generalize (Span.all variableMarker ')' t).1 = spans
  induction spans with
  | nil => simp
  | cons s spans ih =>
      rw [List.foldr_cons, warnings_consSpan, List.mem_append, ih]
      simp only [List.mem_cons, exists_eq_or_imp, or_assoc]

theorem mem_warnings_assemble {s : Span} (hs : s ∈ (Span.all variableMarker ')' t).1)
    {w : Warning} (hw : w ∈ (call s.body).warnings) : w ∈ (assemble call t).warnings :=
  mem_warnings_assemble_iff.2 (.inl ⟨s, hs, hw⟩)

theorem assemble_congr
    (h : ∀ s ∈ (Span.all variableMarker ')' t).1, call s.body = call' s.body) :
    assemble call t = assemble call' t := by
  rw [assemble_eq, assemble_eq]
  generalize (Span.all variableMarker ')' t).1 = spans at h ⊢
  induction spans with
  | nil => rfl
  | cons s spans ih =>
      rw [List.foldr_cons, List.foldr_cons, ih fun s' hs' => h s' (List.mem_cons_of_mem s hs'),
        consSpan, consSpan, h s List.mem_cons_self]

end assemble

section answer

variable {vars vars' : VariableMap} {active active' : List Text}
  {expand expand' : List Text → Text → Noted Expansion} {arguments : Text}

/-- What a variable comes to hangs on the variables and on the names that are being
expanded only as far as its own name and its value do. -/
theorem ofVariable_congr {name : Text} (hvars : vars[name]? = vars'[name]?)
    (hactive : name ∈ vars → (name ∈ active ↔ name ∈ active'))
    (hexpand : ∀ value, vars[name]? = some value → name ∉ active →
      expand (name :: active) value = expand' (name :: active') value) :
    ofVariable vars active expand name = ofVariable vars' active' expand' name := by
  simp only [ofVariable, ← hvars]
  cases hvalue : vars[name]? with
  | none => rfl
  | some value =>
      have hmem : name ∈ vars := (Std.TreeMap.getElem?_eq_some_iff.1 hvalue).1
      by_cases hname : name ∈ active
      · simp only [hname, (hactive hmem).1 hname, if_true]
      · simp only [hname, mt (hactive hmem).2 hname, if_false, hexpand value hvalue hname]

theorem answer_of_blank (h : arguments.isBlankOnly = true) :
    answer vars active expand arguments = ⟨none, [.emptyCall]⟩ := by
  rw [answer, if_pos h]

theorem answer_of_some {e : Expansion} (hblank : arguments.isBlankOnly = false)
    (h : (ofVariable vars active expand (splitArguments arguments).1).value = some e) :
    answer vars active expand arguments =
      ofVariable vars active expand (splitArguments arguments).1 := by
  rw [answer, if_neg (by simp [hblank])]
  simp only [h]
  rw [← h]

theorem answer_of_none (hblank : arguments.isBlankOnly = false)
    (h : (ofVariable vars active expand (splitArguments arguments).1).value = none) :
    answer vars active expand arguments =
      ⟨(ofFallback vars active expand (splitArguments arguments).1
          (splitArguments arguments).2).value,
        (ofVariable vars active expand (splitArguments arguments).1).warnings ++
          (ofFallback vars active expand (splitArguments arguments).1
            (splitArguments arguments).2).warnings⟩ := by
  rw [answer, if_neg (by simp [hblank])]
  simp only [h]

theorem mem_warnings_answer_of_variable (hblank : arguments.isBlankOnly = false) {w : Warning}
    (hw : w ∈ (ofVariable vars active expand (splitArguments arguments).1).warnings) :
    w ∈ (answer vars active expand arguments).warnings := by
  cases h : (ofVariable vars active expand (splitArguments arguments).1).value with
  | some e => rwa [answer_of_some hblank h]
  | none =>
      rw [answer_of_none hblank h]
      exact List.mem_append_left _ hw

theorem of_mem_warnings_ofVariable {name : Text} {w : Warning}
    (hw : w ∈ (ofVariable vars active expand name).warnings) :
    ∃ value, vars[name]? = some value ∧
      ((name ∈ active ∧ w = .cycle name) ∨
        (name ∉ active ∧ w ∈ (expand (name :: active) value).warnings)) := by
  rw [ofVariable] at hw
  cases hvalue : vars[name]? with
  | none =>
      rw [hvalue] at hw
      contradiction
  | some value =>
      rw [hvalue] at hw
      by_cases hactive : name ∈ active
      · simp only [hactive, if_true] at hw
        exact ⟨value, rfl, .inl ⟨hactive, List.mem_singleton.1 hw⟩⟩
      · simp only [hactive, if_false] at hw
        exact ⟨value, rfl, .inr ⟨hactive, hw⟩⟩

theorem of_mem_warnings_ofFallback {name : Text} {fallback : Option Text} {w : Warning}
    (hw : w ∈ (ofFallback vars active expand name fallback).warnings) :
    (∃ t, fallback = some t ∧ w ∈ (expand active t).warnings) ∨
      (fallback = none ∧ name ∉ vars ∧ w = .undefined name) := by
  cases fallback with
  | some t => exact .inl ⟨t, rfl, hw⟩
  | none =>
      rw [ofFallback] at hw
      by_cases hname : name ∈ vars
      · simp [hname] at hw
      · simp only [hname, if_false] at hw
        exact .inr ⟨rfl, hname, List.mem_singleton.1 hw⟩

theorem of_mem_warnings_answer (hblank : arguments.isBlankOnly = false) {w : Warning}
    (hw : w ∈ (answer vars active expand arguments).warnings) :
    w ∈ (ofVariable vars active expand (splitArguments arguments).1).warnings ∨
      w ∈ (ofFallback vars active expand (splitArguments arguments).1
        (splitArguments arguments).2).warnings := by
  cases h : (ofVariable vars active expand (splitArguments arguments).1).value with
  | some e =>
      rw [answer_of_some hblank h] at hw
      exact .inl hw
  | none =>
      rw [answer_of_none hblank h] at hw
      exact List.mem_append.1 hw

theorem answer_congr (hblank : arguments.isBlankOnly = false)
    (hvariable : ofVariable vars active expand (splitArguments arguments).1 =
      ofVariable vars' active' expand' (splitArguments arguments).1)
    (hfallback : (ofVariable vars active expand (splitArguments arguments).1).value = none →
      ofFallback vars active expand (splitArguments arguments).1 (splitArguments arguments).2 =
        ofFallback vars' active' expand' (splitArguments arguments).1
          (splitArguments arguments).2) :
    answer vars active expand arguments = answer vars' active' expand' arguments := by
  cases h : (ofVariable vars active expand (splitArguments arguments).1).value with
  | some e => rw [answer_of_some hblank h, answer_of_some hblank (hvariable ▸ h), hvariable]
  | none =>
      rw [answer_of_none hblank h, answer_of_none hblank (hvariable ▸ h), hfallback h, hvariable]

end answer

variable {vars : VariableMap} {active : List Text} {above : Nat}

/-- A call without blame on its place comes to the same further up, where fewer names
are being expanded. -/
theorem respond_eq {levels : Nat} {inner : List Text} {arguments : Text}
    (h : ∀ w ∈ (respond vars levels (inner ++ active) arguments).warnings,
      ¬ w.Blames active above) :
    respond vars (levels + above) inner arguments =
      respond vars levels (inner ++ active) arguments := by
  induction levels generalizing inner arguments with
  | zero =>
      cases above with
      | zero => rfl
      | succ above =>
          cases hblank : arguments.isBlankOnly with
          | true => simp only [respond, answer, refuse, hblank, if_true]
          | false =>
              -- without blanks, the depth is to blame
              have hdepth : .depthExceeded (splitArguments arguments).1 maxDepth ∈
                  (respond vars 0 (inner ++ active) arguments).warnings := by
                simp [respond, refuse, hblank]
              exact absurd (Nat.succ_pos above) (h _ hdepth)
  | succ levels ih =>
      have hexpand : ∀ {inner : List Text} {t : Text},
          (∀ w ∈ (expand vars levels (inner ++ active) t).warnings, ¬ w.Blames active above) →
            expand vars (levels + above) inner t = expand vars levels (inner ++ active) t := by
        intro inner t ht
        rw [expand_eq_assemble] at ht
        rw [expand_eq_assemble, expand_eq_assemble]
        exact assemble_congr fun s hs => ih fun w hw => ht w (mem_warnings_assemble hs hw)
      rw [Nat.succ_add]
      simp only [respond] at h ⊢
      cases hblank : arguments.isBlankOnly with
      | true => rw [answer_of_blank hblank, answer_of_blank hblank]
      | false =>
          refine (answer_congr hblank ?_ fun hnone => ?_).symm
          · -- a name that is being expanded around the place would be a cycle with blame
            have hcycle : ∀ value, vars[(splitArguments arguments).1]? = some value →
                (splitArguments arguments).1 ∉ inner → (splitArguments arguments).1 ∉ active := by
              intro value hvalue hinner hactive
              refine h (.cycle (splitArguments arguments).1)
                (mem_warnings_answer_of_variable hblank ?_) hactive
              simp [ofVariable, hvalue, hactive]
            refine ofVariable_congr rfl (fun hvars => ?_) fun value hvalue hname => ?_
            · obtain ⟨value, hvalue⟩ := Option.isSome_iff_exists.1
                (Std.TreeMap.mem_iff_isSome_getElem?.1 hvars)
              rw [List.mem_append]
              refine ⟨fun hname => hname.elim id fun hname => ?_, .inl⟩
              by_cases hinner : (splitArguments arguments).1 ∈ inner
              · exact hinner
              · exact absurd hname (hcycle value hvalue hinner)
            · refine (@hexpand ((splitArguments arguments).1 :: inner) value fun w hw => ?_).symm
              refine h w (mem_warnings_answer_of_variable hblank ?_)
              simpa [ofVariable, hvalue, hname] using hw
          · rw [answer_of_none hblank hnone] at h
            cases hfallback : (splitArguments arguments).2 with
            | none => rfl
            | some fallback =>
                rw [hfallback] at h
                simp only [ofFallback]
                rw [hexpand fun w hw => h w (List.mem_append_right _ hw)]

end Expansion

end CssInliner
