import CssInliner.Proofs.Variables.References
import CssInliner.Proofs.Variables.Sites
import Mathlib.Logic.Relation

/-!
Where warnings come from, and what a warning of a cycle says. Resolving a value expands
texts one inside another, and each warning is about a call, or the tail, of one of them.
The names that are being expanded around a text lead to whatever it calls, by the
references between variables. So a name that turns up again leads back to itself.
-/

namespace CssInliner

open Expansion

/-- For a call in the one text the other is expanded: the value of the variable or, where
that comes to nothing, the fallback. -/
inductive Tries (vars : VariableMap) : Site → Site → Prop
  | value {levels : Nat} {active : List Text} {t value : Text} {s : Span}
      (hs : s ∈ (Span.all variableMarker ')' t).1) (hblank : s.body.isBlankOnly = false)
      (hvalue : vars[(splitArguments s.body).1]? = some value)
      (hactive : (splitArguments s.body).1 ∉ active) :
      Tries vars ⟨levels + 1, active, t⟩ ⟨levels, (splitArguments s.body).1 :: active, value⟩
  | fallback {levels : Nat} {active : List Text} {t fallback : Text} {s : Span}
      (hs : s ∈ (Span.all variableMarker ')' t).1) (hblank : s.body.isBlankOnly = false)
      (hfallback : (splitArguments s.body).2 = some fallback) :
      Tries vars ⟨levels + 1, active, t⟩ ⟨levels, active, fallback⟩

inductive Raises (vars : VariableMap) (x : Site) : Warning → Prop
  | missingClosingParen (htail : variableMarker.occursIn x.tail = true) :
      Raises vars x (.missingClosingParen x.text)
  | emptyCall {s : Span} (hs : s ∈ x.calls) (hblank : s.body.isBlankOnly = true) :
      Raises vars x .emptyCall
  | depthExceeded {s : Span} (hs : s ∈ x.calls) (hblank : s.body.isBlankOnly = false)
      (hlevels : x.levels = 0) :
      Raises vars x (.depthExceeded (splitArguments s.body).1 maxDepth)
  | cycle {s : Span} (hs : s ∈ x.calls) (hblank : s.body.isBlankOnly = false)
      (hname : (splitArguments s.body).1 ∈ vars) (hactive : (splitArguments s.body).1 ∈ x.active) :
      Raises vars x (.cycle (splitArguments s.body).1)
  | undefined {s : Span} (hs : s ∈ x.calls) (hblank : s.body.isBlankOnly = false)
      (hname : (splitArguments s.body).1 ∉ vars) (hfallback : (splitArguments s.body).2 = none) :
      Raises vars x (.undefined (splitArguments s.body).1)

variable {vars : VariableMap}

theorem Raises.of_mem_ofTail {x : Site} {w : Warning}
    (hw : w ∈ (ofTail x.text x.tail).warnings) : Raises vars x w := by
  rw [ofTail] at hw
  split at hw
  · next htail =>
      obtain rfl := List.mem_singleton.1 hw
      exact .missingClosingParen htail
  · contradiction

theorem Raises.of_mem_refuse {x : Site} {s : Span} (hs : s ∈ x.calls) (hlevels : x.levels = 0)
    {w : Warning} (hw : w ∈ (refuse s.body).warnings) : Raises vars x w := by
  rw [refuse] at hw
  split at hw
  · next hblank =>
      obtain rfl := List.mem_singleton.1 hw
      exact .emptyCall hs hblank
  · next hblank =>
      obtain rfl := List.mem_singleton.1 hw
      exact .depthExceeded hs (Bool.not_eq_true _ ▸ hblank) hlevels

theorem raises_or_tries {x : Site} {w : Warning} (hw : w ∈ (x.expansion vars).warnings) :
    Raises vars x w ∨ ∃ y, Tries vars x y ∧ w ∈ (y.expansion vars).warnings := by
  obtain ⟨levels, active, t⟩ := x
  rw [Site.expansion, expand_eq_assemble] at hw
  rcases mem_warnings_assemble_iff.1 hw with ⟨s, hs, hw⟩ | hw
  · cases levels with
    | zero => exact .inl (.of_mem_refuse hs rfl hw)
    | succ levels =>
        cases hblank : s.body.isBlankOnly with
        | true =>
            rw [respond, answer_of_blank hblank] at hw
            obtain rfl := List.mem_singleton.1 hw
            exact .inl (.emptyCall hs hblank)
        | false =>
            rcases of_mem_warnings_answer hblank hw with hw | hw
            · obtain ⟨value, hvalue, ⟨hactive, rfl⟩ | ⟨hactive, hw⟩⟩ :=
                of_mem_warnings_ofVariable hw
              · have hname := (Std.TreeMap.getElem?_eq_some_iff.1 hvalue).1
                exact .inl (.cycle hs hblank hname hactive)
              · exact .inr ⟨_, .value hs hblank hvalue hactive, hw⟩
            · rcases of_mem_warnings_ofFallback hw with
                ⟨fallback, hfallback, hw⟩ | ⟨hfallback, hname, rfl⟩
              · exact .inr ⟨_, .fallback hs hblank hfallback, hw⟩
              · exact .inl (.undefined hs hblank hname hfallback)
  · exact .inl (.of_mem_ofTail hw)

theorem Tries.levels_lt {x y : Site} (h : Tries vars x y) : y.levels < x.levels := by
  cases h <;> exact Nat.lt_succ_self _

/-- Every warning of an expansion is raised at a site that its calls lead to. -/
theorem exists_raises {x : Site} {w : Warning} (hw : w ∈ (x.expansion vars).warnings) :
    ∃ y, Relation.ReflTransGen (Tries vars) x y ∧ Raises vars y w := by
  rcases raises_or_tries hw with hraises | ⟨y, htries, hw⟩
  · exact ⟨x, .refl, hraises⟩
  · have := htries.levels_lt
    obtain ⟨z, hz, hraises⟩ := exists_raises hw
    exact ⟨z, .head htries hz, hraises⟩
termination_by x.levels

/-- The names that are being expanded around a site lead to whatever is called there. -/
def Site.Traced (vars : VariableMap) (x : Site) : Prop :=
  ∀ n ∈ x.active, ∀ m ∈ callNames x.text, Relation.TransGen (Refers vars) n m

theorem Tries.traced {x y : Site} (h : Tries vars x y) (hx : x.Traced vars) : y.Traced vars := by
  cases h with
  | value hs hblank hvalue hactive =>
      intro n hn m hm
      rcases List.mem_cons.1 hn with rfl | hn
      · exact .single ⟨_, hvalue, hm⟩
      · exact .tail (hx n hn _ (name_mem_callNames hs hblank)) ⟨_, hvalue, hm⟩
  | fallback hs hblank hfallback =>
      intro n hn m hm
      exact hx n hn m (mem_callNames_of_fallback hs hblank hfallback hm)

theorem traced_of_tries {x y : Site} (h : Relation.ReflTransGen (Tries vars) x y)
    (hx : x.Traced vars) : y.Traced vars := by
  induction h with
  | refl => exact hx
  | tail _ htries ih => exact htries.traced ih

/-- A variable of which a warning says that it is part of a cycle is there and leads back
to itself. So nothing warns of a cycle where the variables do not refer to each other in a
circle. -/
theorem cycle_of_mem_warnings (vars : VariableMap) :
    (∀ value name, .cycle name ∈ (resolveValue vars value).warnings →
      name ∈ vars ∧ Relation.TransGen (Refers vars) name name) ∧
      ((∀ name, ¬ Relation.TransGen (Refers vars) name name) →
        ∀ value name, .cycle name ∉ (resolveValue vars value).warnings) := by
  have hsound : ∀ value name, .cycle name ∈ (resolveValue vars value).warnings →
      name ∈ vars ∧ Relation.TransGen (Refers vars) name name := by
    intro value name hw
    obtain ⟨y, hy, hraises⟩ := exists_raises (x := .top value) hw
    have htop : (Site.top value).Traced vars := fun n hn => absurd hn List.not_mem_nil
    cases hraises with
    | cycle hs hblank hname hactive =>
        exact ⟨hname, traced_of_tries hy htop _ hactive _ (name_mem_callNames hs hblank)⟩
  refine ⟨hsound, fun hacyclic value name hw => ?_⟩
  exact hacyclic name (hsound value name hw).2

/-- A variable that calls itself in the fallback of another; and one that is called three
times side by side and one inside another, and is no part of a cycle. -/
theorem cycle_of_mem_warnings_sample :
    let circular := VariableMap.insertAll ∅
      [("--a".toList, "var(--b)".toList), ("--b".toList, "var(--c, var(--a))".toList)]
    let plain := VariableMap.insertAll ∅ [("--a".toList, "var(--b)".toList)]
    (.cycle "--a".toList ∈ (resolveValue circular "var(--a)".toList).warnings ∧
      Relation.TransGen (Refers circular) "--a".toList "--a".toList) ∧
      (∀ name, ¬ Relation.TransGen (Refers plain) name name) ∧
        .cycle "--a".toList ∉
          (resolveValue plain "var(--a) var(--c, var(--a, var(--a)))".toList).warnings := by
  intro circular plain
  have hwarned : .cycle "--a".toList ∈ (resolveValue circular "var(--a)".toList).warnings := by
    decide +kernel
  have hrefers : ∀ {n m : Text}, Refers plain n m → n = "--a".toList ∧ m = "--b".toList := by
    rintro n m ⟨value, hvalue, hm⟩
    simp only [plain, VariableMap.insertAll, List.foldl_cons, List.foldl_nil,
      Std.TreeMap.getElem?_insert, Std.TreeMap.getElem?_emptyc] at hvalue
    split at hvalue
    · next hname =>
        obtain rfl := Option.some.inj hvalue
        have hcalls : callNames "var(--b)".toList = ["--b".toList] := by decide +kernel
        rw [hcalls] at hm
        exact ⟨(Std.LawfulEqCmp.eq_of_compare hname).symm, List.mem_singleton.1 hm⟩
    · contradiction
  have hacyclic : ∀ name, ¬ Relation.TransGen (Refers plain) name name := by
    intro name hcircle
    obtain ⟨m, hfirst, -⟩ := Relation.TransGen.head'_iff.1 hcircle
    obtain ⟨n, -, hlast⟩ := Relation.TransGen.tail'_iff.1 hcircle
    obtain rfl := (hrefers hfirst).1
    exact absurd (hrefers hlast).2 (by decide)
  exact ⟨⟨hwarned, ((cycle_of_mem_warnings circular).1 _ _ hwarned).2⟩, hacyclic,
    (cycle_of_mem_warnings plain).2 hacyclic _ _⟩

end CssInliner
