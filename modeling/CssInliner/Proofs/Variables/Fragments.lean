import CssInliner.Proofs.Variables.Accounting
import CssInliner.Proofs.Variables.Joints
import CssInliner.Proofs.Variables.Sites
import Mathlib.Data.List.Induction

/-!
The texts that a resolved value is put together from. Each of them comes as it is written
from the value, from a variable or from a fallback, and none of them shows a reference.
So a reference that the whole shows has come about at a joint: behind a text that is not
sealed, such as one that ends in the beginning of an opener or inside a string.
-/

namespace CssInliner

open Expansion

/-- The texts that an expansion is put together from: what lies between the calls and
behind the last of them, in the text itself and in those that are put in, and the calls
that are left. -/
def fragments (vars : VariableMap) (x : Site) : List Text :=
  (x.calls.flatMap fun s => s.pre ::
      match h : x.source? vars s.body with
      | some y =>
          have := Site.levels_of_source? h
          fragments vars y
      | none => [s.whole]) ++
    [x.tail]
termination_by x.levels

theorem fragments_eq (vars : VariableMap) (x : Site) :
    fragments vars x =
      (x.calls.flatMap fun s => s.pre ::
          match x.source? vars s.body with
          | some y => fragments vars y
          | none => [s.whole]) ++
        [x.tail] := by
  rw [fragments]
  congr 1
  refine List.flatMap_congr fun s _ => ?_
  congr 1
  split <;> simp [*]

theorem flatten_fragments (vars : VariableMap) (x : Site) :
    (fragments vars x).flatten = (x.expansion vars).value.text := by
  have hcall : ∀ s ∈ x.calls, (s.pre :: match x.source? vars s.body with
      | some y => fragments vars y
      | none => [s.whole]).flatten = s.pre ++ x.shown vars s := by
    intro s _
    rw [List.flatten_cons, Site.shown]
    cases h : x.source? vars s.body with
    | none => simp
    | some y =>
        have := Site.levels_of_source? h
        rw [flatten_fragments vars y]
  rw [fragments_eq, Site.text_expansion, List.flatten_append, List.flatten_singleton,
    List.flatMap_def, List.flatten_flatten, List.map_map, ← List.flatMap_def]
  exact congrArg (· ++ x.tail) (List.flatMap_congr hcall)
termination_by x.levels

/-- Where nothing is left unresolved, no call leaves anything, nor does the text behind
the last. -/
theorem resolved_assemble {call : Text → Noted (Option Expansion)} {t : Text}
    (h : (assemble call t).value.unresolved = 0) :
    (∀ s ∈ (Span.all variableMarker ')' t).1, left (call s.body).value = 0) ∧
      variableMarker.occursIn (Span.all variableMarker ')' t).2 = false := by
  rw [assemble_eq] at h
  generalize Span.all variableMarker ')' t = split at h ⊢
  obtain ⟨spans, tail⟩ := split
  induction spans with
  | nil =>
      refine ⟨by simp, ?_⟩
      cases htail : variableMarker.occursIn tail with
      | false => rfl
      | true => simp [ofTail, htail] at h
  | cons s spans ih =>
      rw [List.foldr_cons, unresolved_consSpan, Nat.add_eq_zero_iff] at h
      obtain ⟨hrest, htail⟩ := ih h.2
      refine ⟨fun s' hs' => ?_, htail⟩
      rcases List.mem_cons.1 hs' with rfl | hs'
      · exact h.1
      · exact hrest s' hs'

theorem Site.exists_source? {vars : VariableMap} {x : Site}
    (h : (x.expansion vars).value.unresolved = 0) {s : Span} (hs : s ∈ x.calls) :
    ∃ y, x.source? vars s.body = some y ∧ (y.expansion vars).value.unresolved = 0 := by
  rw [expansion, expand_eq_assemble] at h
  have hleft : left (x.answer vars s.body).value = 0 := (resolved_assemble h).1 s hs
  rw [x.value_answer vars s.body] at hleft
  cases hsource : x.source? vars s.body with
  | none => simp [hsource, left] at hleft
  | some y => exact ⟨y, rfl, by simpa [hsource, left] using hleft⟩

theorem occursIn_pre {t : Text} {s : Span} (hs : s ∈ (Span.all variableMarker ')' t).1) :
    variableMarker.occursIn s.pre = false := by
  obtain ⟨u, hfirst⟩ := Span.first?_of_mem_all hs
  have hspares := (Span.leads_of_first? opensCalls_variableMarker hfirst).spares
  exact opensCalls_variableMarker.occursIn_eq_false_iff.2
    (Marker.Spares.of_append opensCalls_variableMarker (z := []) hspares)

theorem occursIn_of_mem_fragments {vars : VariableMap} {x : Site}
    (h : (x.expansion vars).value.unresolved = 0) {f : Text} (hf : f ∈ fragments vars x) :
    variableMarker.occursIn f = false := by
  rw [fragments_eq] at hf
  rcases List.mem_append.1 hf with hf | hf
  · obtain ⟨s, hs, hf⟩ := List.mem_flatMap.1 hf
    obtain ⟨y, hsource, hy⟩ := Site.exists_source? h hs
    have := Site.levels_of_source? hsource
    rw [hsource] at hf
    rcases List.mem_cons.1 hf with rfl | hf
    · exact occursIn_pre hs
    · exact occursIn_of_mem_fragments hy hf
  · obtain rfl := List.mem_singleton.1 hf
    rw [Site.expansion, expand_eq_assemble] at h
    exact (resolved_assemble h).2
termination_by x.levels

section joints

/-- Behind a sealed text, no reference comes about. -/
theorem Sealed.occursIn_append {s t : Text} (hs : Sealed s)
    (h : variableMarker.occursIn s = false) (ht : variableMarker.occursIn t = false) :
    variableMarker.occursIn (s ++ t) = false := by
  rw [occursIn_eq_false_iff_pieces] at h ht ⊢
  rw [hs]
  intro p hp
  exact (List.mem_append.1 hp).elim (h p) (ht p)

/-- Texts without a reference show one together if they do so at a joint. -/
theorem occursIn_flatten_iff {fs : List Text} (h : ∀ f ∈ fs, variableMarker.occursIn f = false) :
    variableMarker.occursIn fs.flatten = false ↔
      ∀ before f after, fs = before ++ f :: after → ¬ Sealed before.flatten →
        variableMarker.occursIn (before.flatten ++ f) = false := by
  constructor
  · rintro hnone before f after rfl -
    rw [List.flatten_append, List.flatten_cons, ← List.append_assoc] at hnone
    exact opensCalls_variableMarker.occursIn_of_append hnone
  · intro hjoints
    -- each text meets all those before it together, so the last is taken off
    induction fs using List.reverseRecOn with
    | nil => simp [Marker.occursIn, Marker.locate_nil]
    | append_singleton fs f ih =>
        have hnone := ih (fun g hg => h g (List.mem_append_left _ hg))
          fun before g after hfs => hjoints before g (after ++ [f]) (by simp [hfs])
        rw [List.flatten_append, List.flatten_singleton]
        by_cases hsealed : Sealed fs.flatten
        · exact hsealed.occursIn_append hnone (h f (by simp))
        · exact hjoints fs f [] rfl hsealed

end joints

theorem fragments_of_resolved {vars : VariableMap} {value t : Text}
    (h : (resolveValue vars value).value = .resolved t) :
    (fragments vars (.top value)).flatten = t ∧
      ∀ f ∈ fragments vars (.top value), variableMarker.occursIn f = false := by
  have hresolved : ((Site.top value).expansion vars).value.unresolved = 0 ∧
      ((Site.top value).expansion vars).value.text = t := by
    change Resolution.ofExpansion _ = _ at h
    rw [Resolution.ofExpansion] at h
    repeat' split at h
    · next hnone => exact ⟨hnone, Resolution.resolved.inj h⟩
    all_goals contradiction
  refine ⟨(flatten_fragments vars (.top value)).trans hresolved.2, fun f hf => ?_⟩
  exact occursIn_of_mem_fragments hresolved.1 hf

/-- A value that is resolved is put together from texts that show no reference, as they
are written in the value, in variables and in fallbacks. It shows one only where texts
meet of which the first is not sealed. -/
theorem reference_in_resolved_iff {vars : VariableMap} {value t : Text}
    (h : (resolveValue vars value).value = .resolved t) :
    (fragments vars (.top value)).flatten = t ∧
      (∀ f ∈ fragments vars (.top value), variableMarker.find? f = none) ∧
      (variableMarker.find? t = none ↔
        ∀ before f after, fragments vars (.top value) = before ++ f :: after →
          ¬ Sealed before.flatten → variableMarker.find? (before.flatten ++ f) = none) := by
  obtain ⟨htext, hplain⟩ := fragments_of_resolved h
  simp only [Marker.find?_eq_none_iff]
  refine ⟨htext, hplain, ?_⟩
  rw [← htext]
  exact occursIn_flatten_iff hplain

/-- A fallback that ends like the beginning of an opener does no harm where no other text
completes it. -/
theorem reference_in_resolved_iff_sample :
    let vars := VariableMap.insertAll ∅ [("--a".toList, "\"var(--b)\" var(--b)".toList),
      ("--b".toList, "1px".toList)]
    let value : Site := .top "var(--c, va)lue var(--a)".toList
    (resolveValue vars value.text).value = .resolved "value \"var(--b)\" 1px".toList ∧
      fragments vars value =
        [[], "va".toList, "lue ".toList, "\"var(--b)\" ".toList, "1px".toList, [], []] ∧
      (variableMarker.find? "value \"var(--b)\" 1px".toList = none ↔
        ∀ before f after, fragments vars value = before ++ f :: after →
          ¬ Sealed before.flatten → variableMarker.find? (before.flatten ++ f) = none) := by
  intro vars value
  have h : (resolveValue vars value.text).value = .resolved "value \"var(--b)\" 1px".toList := by
    decide +kernel
  exact ⟨h, by decide +kernel, (reference_in_resolved_iff h).2.2⟩

/-- Two variables that make an opener together. -/
theorem reference_in_resolved_sample :
    let vars := VariableMap.insertAll ∅ [("--a".toList, "va".toList),
      ("--b".toList, "r(--c)".toList), ("--c".toList, "red".toList)]
    resolveValue vars "var(--a)var(--b)".toList = ⟨.resolved "var(--c)".toList, []⟩ ∧
      variableMarker.find? "var(--c)".toList = some 0 := by
  decide +kernel

end CssInliner
