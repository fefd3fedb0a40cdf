import CssInliner.Proofs.Variables.Calls
import CssInliner.Proofs.Variables.Context
import CssInliner.Variables.Resolution

/-!
Which variables a value depends on. A variable refers to those that its value calls, and
what a value leads to that way is all that counts: other variables may be there or not,
with whatever value, and neither what the value comes to nor what is warned of changes.
-/

namespace CssInliner

open Expansion

def Refers (vars : VariableMap) (n m : Text) : Prop :=
  ∃ value, vars[n]? = some value ∧ m ∈ callNames value

/-- The names that a text calls, and those that the variables among them lead to. -/
inductive Reachable (vars : VariableMap) (t : Text) : Text → Prop
  | called {m : Text} (hm : m ∈ callNames t) : Reachable vars t m
  | onward {n m : Text} (hn : Reachable vars t n) (hm : Refers vars n m) : Reachable vars t m

/-- A text leads to all that one leads to whose calls it leads to. -/
theorem Reachable.of_forall {vars : VariableMap} {t u m : Text}
    (h : ∀ n ∈ callNames u, Reachable vars t n) (hm : Reachable vars u m) :
    Reachable vars t m := by
  induction hm with
  | called hm => exact h _ hm
  | onward _ hrefers ih => exact .onward ih hrefers

namespace Expansion

variable {vars vars' : VariableMap}

/-- Maps that agree on what a text leads to make the same of it, at any depth and
whatever is being expanded around it. -/
theorem expand_congr {levels : Nat} {active : List Text} {t : Text}
    (h : ∀ m, Reachable vars t m → vars[m]? = vars'[m]?) :
    expand vars levels active t = expand vars' levels active t := by
  induction levels generalizing active t with
  | zero => rfl
  | succ levels ih =>
      rw [expand, expand]
      apply assemble_congr
      intro s hs
      cases hblank : s.body.isBlankOnly with
      | true => rw [answer_of_blank hblank, answer_of_blank hblank]
      | false =>
          have hname : Reachable vars t (splitArguments s.body).1 :=
            .called (name_mem_callNames hs hblank)
          apply answer_congr hblank
          · apply ofVariable_congr (h _ hname) (fun _ => Iff.rfl)
            intro value hvalue _
            apply ih
            intro m hm
            exact h m (hm.of_forall fun n hn => .onward hname ⟨value, hvalue, hn⟩)
          · intro _
            cases hfallback : (splitArguments s.body).2 with
            | none =>
                simp only [ofFallback, Std.TreeMap.mem_iff_isSome_getElem?, h _ hname]
            | some fallback =>
                have hexpand : expand vars levels active fallback =
                    expand vars' levels active fallback := by
                  apply ih
                  intro m hm
                  exact h m (hm.of_forall fun n hn =>
                    .called (mem_callNames_of_fallback hs hblank hfallback hn))
                simp only [ofFallback, hexpand]

end Expansion

/-- Resolving a value comes to the same, with the same warnings in the same order, under
all maps that agree on the names that the value leads to. -/
theorem resolveValue_eq_of_reachable {vars vars' : VariableMap} {value : Text}
    (h : ∀ name, Reachable vars value name → vars[name]? = vars'[name]?) :
    resolveValue vars value = resolveValue vars' value := by
  rw [resolveValue, expand_congr h, resolveValue]

/-- A value that calls an undefined variable by way of another; the maps differ in the
variables that it does not lead to. -/
theorem resolveValue_eq_of_reachable_sample :
    let vars := VariableMap.insertAll ∅
      [("--a".toList, "1 var(--b)".toList), ("--c".toList, "var(--a)".toList)]
    let vars' := VariableMap.insertAll ∅
      [("--a".toList, "1 var(--b)".toList), ("--c".toList, "2".toList), ("--d".toList, [])]
    let value := "var(--a, 3)".toList
    (∀ name, Reachable vars value name → vars[name]? = vars'[name]?) ∧
      resolveValue vars value = resolveValue vars' value ∧
        resolveValue vars value = ⟨.resolved "3".toList, [.undefined "--b".toList]⟩ := by
  intro vars vars' value
  have hlookup : vars["--a".toList]? = some "1 var(--b)".toList ∧ vars["--b".toList]? = none := by
    decide +kernel
  have hcalls : callNames value = ["--a".toList] ∧
      callNames "1 var(--b)".toList = ["--b".toList] := by
    decide +kernel
  have hreachable : ∀ name, Reachable vars value name →
      name = "--a".toList ∨ name = "--b".toList := by
    intro name hname
    induction hname with
    | called hm =>
        rw [hcalls.1] at hm
        exact .inl (List.mem_singleton.1 hm)
    | onward _ hrefers ih =>
        obtain ⟨text, htext, hm⟩ := hrefers
        rcases ih with rfl | rfl
        · obtain rfl := Option.some.inj (hlookup.1.symm.trans htext)
          rw [hcalls.2] at hm
          exact .inr (List.mem_singleton.1 hm)
        · rw [hlookup.2] at htext
          contradiction
  have hagree : ∀ name, Reachable vars value name → vars[name]? = vars'[name]? := by
    intro name hname
    rcases hreachable name hname with rfl | rfl
    · decide +kernel
    · decide +kernel
  exact ⟨hagree, resolveValue_eq_of_reachable hagree, by decide +kernel⟩

end CssInliner
