import CssInliner.Proofs.Lexis.Nesting
import CssInliner.Proofs.Variables.Context
import Mathlib.Data.List.Basic
import Mathlib.Data.List.Flatten
import Mathlib.Logic.Relation

/-!
What an expansion is put together from. A call is answered from a text that is expanded
in its place, one level further down: the value of its variable or its fallback. So the
texts that resolving a value uses are those that such steps lead to.
-/

namespace CssInliner

namespace Expansion

theorem text_ofTail (value tail : Text) : (ofTail value tail).value.text = tail := by
  rw [ofTail]
  split <;> rfl

section assemble

variable {call : Text → Noted (Option Expansion)}

/-- What a call is replaced by, or else the call itself. -/
def shown (call : Text → Noted (Option Expansion)) (s : Span) : Text :=
  ((call s.body).value.map Expansion.text).getD s.whole

theorem text_assemble (t : Text) :
    (assemble call t).value.text =
      ((Span.all variableMarker ')' t).1.flatMap fun s => s.pre ++ shown call s) ++
        (Span.all variableMarker ')' t).2 := by
  rw [assemble_eq]
  generalize Span.all variableMarker ')' t = split
  obtain ⟨spans, tail⟩ := split
  induction spans with
  | nil => exact text_ofTail t tail
  | cons s spans ih =>
      dsimp only at ih ⊢
      rw [List.foldr_cons, consSpan, List.flatMap_cons, List.append_assoc (_ ++ _), ← ih, shown]
      cases (call s.body).value <;> rfl

theorem text_assemble_of_none {t : Text}
    (h : ∀ s ∈ (Span.all variableMarker ')' t).1, (call s.body).value = none) :
    (assemble call t).value.text = t := by
  have hshown : ∀ s ∈ (Span.all variableMarker ')' t).1,
      s.pre ++ shown call s = s.pre ++ s.whole := by
    intro s hs
    rw [shown, h s hs]
    rfl
  rw [text_assemble, List.flatMap_congr hshown, Span.flatMap_all]

end assemble

end Expansion

open Expansion

/-- A text, with the place where it is expanded. -/
structure Site where
  levels : Nat
  active : List Text
  text : Text
deriving DecidableEq

namespace Site

def calls (x : Site) : List Span := (Span.all variableMarker ')' x.text).1

def tail (x : Site) : Text := (Span.all variableMarker ')' x.text).2

def expansion (vars : VariableMap) (x : Site) : Noted Expansion :=
  expand vars x.levels x.active x.text

/-- What a call with these arguments comes to at the site. -/
def answer (vars : VariableMap) (x : Site) (arguments : Text) : Noted (Option Expansion) :=
  respond vars x.levels x.active arguments

/-- Whether anything comes of the text. -/
def stands (vars : VariableMap) (x : Site) : Bool := !(x.expansion vars).value.failed

/-- The value of a variable in place of a call, unless it is being expanded already. -/
def value? (vars : VariableMap) (levels : Nat) (active : List Text) (name : Text) : Option Site :=
  if active.contains name then none
  else vars[name]?.map fun value => ⟨levels, name :: active, value⟩

/-- The text that a call with these arguments is answered from: the value of its variable
or else its fallback, if anything comes of it. -/
def source? (vars : VariableMap) (x : Site) (arguments : Text) : Option Site :=
  match x.levels with
  | 0 => none
  | levels + 1 =>
      if arguments.isBlankOnly then none
      else
        let (name, fallback) := splitArguments arguments
        ((value? vars levels x.active name).filter (stands vars)).or
          ((fallback.map fun text => ⟨levels, x.active, text⟩).filter (stands vars))

variable {vars : VariableMap} {x y : Site} {arguments : Text}

theorem value?_eq_some_iff {levels : Nat} {active : List Text} {name : Text} :
    value? vars levels active name = some y ↔
      name ∉ active ∧ ∃ value, vars[name]? = some value ∧ ⟨levels, name :: active, value⟩ = y := by
  by_cases hactive : name ∈ active <;> simp [value?, hactive]

/-- A source is the value of the variable or, where nothing comes of that, the fallback;
and it is one level further down. -/
theorem source?_cases (h : x.source? vars arguments = some y) :
    ∃ levels, x.levels = levels + 1 ∧ arguments.isBlankOnly = false ∧
      ((∃ value, vars[(splitArguments arguments).1]? = some value ∧
          (splitArguments arguments).1 ∉ x.active ∧
            y = ⟨levels, (splitArguments arguments).1 :: x.active, value⟩) ∨
        ((value? vars levels x.active (splitArguments arguments).1).filter (stands vars) = none ∧
          ∃ fallback, (splitArguments arguments).2 = some fallback ∧
            y = ⟨levels, x.active, fallback⟩)) := by
  rw [source?] at h
  split at h
  · contradiction
  · next levels hlevels =>
      cases hblank : arguments.isBlankOnly with
      | true => simp [hblank] at h
      | false =>
          refine ⟨levels, hlevels, rfl, ?_⟩
          rw [hblank, if_neg Bool.false_ne_true] at h
          rcases Option.or_eq_some_iff.1 h with h | ⟨hnone, h⟩
          · obtain ⟨hactive, value, hvalue, rfl⟩ :=
              value?_eq_some_iff.1 (Option.filter_eq_some_iff.1 h).1
            exact .inl ⟨value, hvalue, hactive, rfl⟩
          · obtain ⟨fallback, hfallback, rfl⟩ :=
              Option.map_eq_some_iff.1 (Option.filter_eq_some_iff.1 h).1
            exact .inr ⟨hnone, fallback, hfallback, rfl⟩

theorem levels_of_source? (h : x.source? vars arguments = some y) : y.levels + 1 = x.levels := by
  obtain ⟨levels, hlevels, -, ⟨value, -, -, rfl⟩ | ⟨-, fallback, -, rfl⟩⟩ := source?_cases h
  all_goals exact hlevels.symm

theorem unlessFailed_expansion (vars : VariableMap) (x : Site) :
    (x.expansion vars).value.unlessFailed =
      ((some x).filter (stands vars)).map fun y => (y.expansion vars).value := by
  rw [unlessFailed, Option.filter_some, stands]
  cases (x.expansion vars).value.failed <;> rfl

theorem value_ofVariable (vars : VariableMap) (levels : Nat) (active : List Text) (name : Text) :
    (ofVariable vars active (expand vars levels) name).value =
      ((value? vars levels active name).filter (stands vars)).map
        fun y => (y.expansion vars).value := by
  rw [ofVariable, value?]
  cases vars[name]? with
  | none => simp
  | some value =>
      by_cases hactive : name ∈ active
      · simp [hactive]
      · simp only [hactive, List.contains_iff_mem, if_false, Option.map_some]
        exact unlessFailed_expansion vars ⟨levels, name :: active, value⟩

theorem value_ofFallback (vars : VariableMap) (levels : Nat) (active : List Text) (name : Text)
    (fallback : Option Text) :
    (ofFallback vars active (expand vars levels) name fallback).value =
      ((fallback.map fun text => (⟨levels, active, text⟩ : Site)).filter (stands vars)).map
        fun y => (y.expansion vars).value := by
  cases fallback with
  | none => rfl
  | some text => exact unlessFailed_expansion vars ⟨levels, active, text⟩

theorem value_answer (vars : VariableMap) (x : Site) (arguments : Text) :
    (x.answer vars arguments).value =
      (x.source? vars arguments).map fun y => (y.expansion vars).value := by
  obtain ⟨levels, active, text⟩ := x
  cases levels with
  | zero =>
      simp only [answer, respond, refuse]
      split <;> rfl
  | succ levels =>
      simp only [answer, respond, source?]
      cases hblank : arguments.isBlankOnly with
      | true =>
          rw [answer_of_blank hblank]
          rfl
      | false =>
          rw [if_neg Bool.false_ne_true, Option.map_or, ← value_ofVariable,
            ← value_ofFallback vars levels active (splitArguments arguments).1]
          cases hheld : (ofVariable vars active (expand vars levels)
              (splitArguments arguments).1).value with
          | some e =>
              rw [answer_of_some hblank hheld, hheld]
              rfl
          | none =>
              rw [answer_of_none hblank hheld]
              rfl

/-- What is put in the place of a call, or else the call itself. -/
def shown (vars : VariableMap) (x : Site) (s : Span) : Text :=
  match x.source? vars s.body with
  | some y => (y.expansion vars).value.text
  | none => s.whole

theorem text_expansion (vars : VariableMap) (x : Site) :
    (x.expansion vars).value.text =
      (x.calls.flatMap fun s => s.pre ++ x.shown vars s) ++ x.tail := by
  have hshown : Expansion.shown (respond vars x.levels x.active) = x.shown vars := by
    funext s
    have hvalue := value_answer vars x s.body
    rw [answer] at hvalue
    rw [Expansion.shown, shown, hvalue]
    cases x.source? vars s.body <;> rfl
  rw [expansion, expand_eq_assemble, text_assemble, hshown]
  rfl

end Site

/-- A call of the one text is answered from the other. -/
def Pastes (vars : VariableMap) (x y : Site) : Prop :=
  ∃ s ∈ x.calls, x.source? vars s.body = some y

def Site.top (value : Text) : Site := ⟨maxDepth, [], value⟩

/-- What is used in resolving a value, itself included. -/
def Uses (vars : VariableMap) (x y : Site) : Prop := Relation.ReflTransGen (Pastes vars) x y

theorem Uses.levels_le {vars : VariableMap} {x y : Site} (h : Uses vars x y) :
    y.levels ≤ x.levels := by
  induction h with
  | refl => exact Nat.le_refl _
  | tail _ hpastes ih =>
      obtain ⟨s, -, hsource⟩ := hpastes
      have := Site.levels_of_source? hsource
      omega

end CssInliner
