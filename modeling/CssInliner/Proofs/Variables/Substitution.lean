import CssInliner.Proofs.Variables.Calls
import CssInliner.Variables.Resolution

/-!
Resolution as plain substitution. Where the variables can be ranked so that each
refers to lower ones only, substituting values for calls until none is left needs
neither a record of what is being expanded nor a limit. On values that give no
cause for a warning the resolver computes just that.
-/

namespace CssInliner

open Expansion

/-- A rank for every name, lower for the variables that a value calls than for the
variable whose value it is. -/
structure Ranking (vars : VariableMap) where
  rank : Text → Nat
  descends : ∀ {name value : Text}, vars[name]? = some value →
    ∀ m ∈ callNames value, m ∈ vars → rank m < rank name

namespace Ranking

variable {vars : VariableMap} (r : Ranking vars)

/-- The least rank above those of all variables among the names. -/
def ceiling : List Text → Nat
  | [] => 0
  | m :: ms => if m ∈ vars then max (r.rank m + 1) (ceiling ms) else ceiling ms

theorem rank_lt_ceiling {m : Text} {names : List Text} (hm : m ∈ names) (hvars : m ∈ vars) :
    r.rank m < r.ceiling names := by
  induction names with
  | nil => contradiction
  | cons n names ih =>
      rw [ceiling]
      rcases List.mem_cons.1 hm with rfl | hm
      · rw [if_pos hvars]
        omega
      · have := ih hm
        split <;> omega

theorem ceiling_le {bound : Nat} {names : List Text}
    (h : ∀ m ∈ names, m ∈ vars → r.rank m < bound) : r.ceiling names ≤ bound := by
  induction names with
  | nil => exact Nat.zero_le bound
  | cons n names ih =>
      have hrest := ih fun m hm => h m (List.mem_cons_of_mem n hm)
      rw [ceiling]
      split
      · next hvars =>
          have := h n List.mem_cons_self hvars
          omega
      · exact hrest

/-- What replaces a call in a text calls lower variables, or no higher ones in a
shorter text. -/
theorem descends_replacement {t u : Text} {s : Span}
    (hs : s ∈ (Span.all variableMarker ')' t).1) (hblank : s.body.isBlankOnly = false)
    (hu : replacement vars s.body = some u) :
    Prod.Lex (· < ·) (· < ·) (r.ceiling (callNames u), u.length)
      (r.ceiling (callNames t), t.length) := by
  rw [replacement] at hu
  cases hvalue : vars[(splitArguments s.body).1]? with
  | some value =>
      rw [hvalue] at hu
      obtain rfl : value = u := Option.some.inj hu
      have hname : (splitArguments s.body).1 ∈ callNames t :=
        name_mem_callNames hs hblank
      have hvars : (splitArguments s.body).1 ∈ vars :=
        (Std.TreeMap.getElem?_eq_some_iff.1 hvalue).1
      -- the value of a variable calls lower ones only, so the rank alone goes down
      apply Prod.Lex.left
      exact Nat.lt_of_le_of_lt (r.ceiling_le (r.descends hvalue)) (r.rank_lt_ceiling hname hvars)
  | none =>
      rw [hvalue] at hu
      have hlength : u.length < t.length := length_fallback_lt hs hu
      have hceiling : r.ceiling (callNames u) ≤ r.ceiling (callNames t) := by
        refine r.ceiling_le fun m hm hvars => r.rank_lt_ceiling ?_ hvars
        exact mem_callNames_of_fallback hs hblank hu hm
      -- a fallback calls nothing but what the text called, but it is shorter
      rcases Nat.lt_or_eq_of_le hceiling with hlt | heq
      · exact Prod.Lex.left _ _ hlt
      · rw [heq]
        exact Prod.Lex.right _ hlength

/-- Every call replaced and what replaces it treated likewise; all other text is
copied. A call that nothing replaces stays. -/
def naive (t : Text) : Text :=
  ((Span.all variableMarker ')' t).1.attach.flatMap fun ⟨s, hs⟩ =>
      s.pre ++
        if hblank : s.body.isBlankOnly = false then
          match hu : replacement vars s.body with
          | some u =>
              have := r.descends_replacement hs hblank hu
              naive u
          | none => s.whole
        else s.whole) ++
    (Span.all variableMarker ')' t).2
termination_by (r.ceiling (callNames t), t.length)
decreasing_by exact this

def substitute (s : Span) : Text :=
  if s.body.isBlankOnly then s.whole
  else
    match replacement vars s.body with
    | some u => r.naive u
    | none => s.whole

theorem naive_eq (t : Text) :
    r.naive t = ((Span.all variableMarker ')' t).1.flatMap fun s => s.pre ++ r.substitute s) ++
      (Span.all variableMarker ')' t).2 := by
  have hspans : (Span.all variableMarker ')' t).1 =
      (Span.all variableMarker ')' t).1.attach.map Subtype.val :=
    (List.attach_map_subtype_val _).symm
  conv_rhs => rw [hspans, List.flatMap_map]
  rw [naive]
  congr 1
  refine List.flatMap_congr fun ⟨s, hs⟩ _ => ?_
  cases hblank : s.body.isBlankOnly with
  | true => simp [substitute, hblank]
  | false =>
      simp only [substitute, hblank, dif_pos, Bool.false_eq_true, if_false]
      congr 1
      split
      · next u hu => simp [hu]
      · next hu => simp [hu]

end Ranking

/-- Naive expansion of the text meets no opener that is never closed, no call
without arguments and no call that nothing replaces, and calls nest no deeper than
`levels`. -/
def Regular (vars : VariableMap) : (levels : Nat) → Text → Prop
  | 0, t => variableMarker.occursIn t = false
  | levels + 1, t =>
      variableMarker.occursIn (Span.all variableMarker ')' t).2 = false ∧
        ∀ s ∈ (Span.all variableMarker ')' t).1, s.body.isBlankOnly = false ∧
          ∃ u, replacement vars s.body = some u ∧ Regular vars levels u

namespace Expansion

theorem all_eq_of_not_occursIn {t : Text} (h : variableMarker.occursIn t = false) :
    Span.all variableMarker ')' t = ([], t) := by
  have hfound : (variableMarker.locate t).2 = [] := by
    simpa [Marker.occursIn] using h
  have hfirst : Span.first? variableMarker ')' t = none := by
    simp [Span.first?, hfound]
  rw [Span.all_eq, hfirst]

theorem regular_of_not_occursIn {vars : VariableMap} {t : Text}
    (h : variableMarker.occursIn t = false) (levels : Nat) : Regular vars levels t := by
  cases levels with
  | zero => exact h
  | succ levels =>
      rw [Regular, all_eq_of_not_occursIn h]
      exact ⟨h, by simp⟩

theorem ofTail_eq {value tail : Text} (h : variableMarker.occursIn tail = false) :
    ofTail value tail = ⟨⟨tail, 0, 0⟩, []⟩ := by
  rw [ofTail, h]
  rfl

theorem foldr_consSpan_eq {call : Text → Noted (Option Expansion)} {answerOf : Span → Text}
    (tail : Text) {spans : List Span}
    (h : ∀ s ∈ spans, ∃ k, call s.body = ⟨some ⟨answerOf s, k, 0⟩, []⟩) :
    ∃ k, spans.foldr (consSpan call) ⟨⟨tail, 0, 0⟩, []⟩ =
      ⟨⟨(spans.flatMap fun s => s.pre ++ answerOf s) ++ tail, k, 0⟩, []⟩ := by
  induction spans with
  | nil => exact ⟨0, rfl⟩
  | cons s spans ih =>
      obtain ⟨k, hrest⟩ := ih fun s' hs' => h s' (List.mem_cons_of_mem s hs')
      obtain ⟨j, hcall⟩ := h s List.mem_cons_self
      refine ⟨1 + j + k, ?_⟩
      rw [List.foldr_cons, hrest, consSpan, hcall]
      simp

theorem unlessFailed_eq (t : Text) (k : Nat) :
    (⟨t, k, 0⟩ : Expansion).unlessFailed = some ⟨t, k, 0⟩ := rfl

variable {vars : VariableMap}

theorem answer_of_held {active : List Text} {expand : List Text → Text → Noted Expansion}
    {arguments value t : Text} {k : Nat} (hblank : arguments.isBlankOnly = false)
    (hvalue : vars[(splitArguments arguments).1]? = some value)
    (hactive : (splitArguments arguments).1 ∉ active)
    (hexpand : expand ((splitArguments arguments).1 :: active) value = ⟨⟨t, k, 0⟩, []⟩) :
    answer vars active expand arguments = ⟨some ⟨t, k, 0⟩, []⟩ := by
  have hheld : ofVariable vars active expand (splitArguments arguments).1 =
      ⟨some ⟨t, k, 0⟩, []⟩ := by
    rw [ofVariable, hvalue]
    simp only [hactive, if_false, hexpand, unlessFailed_eq]
  rw [answer, hblank]
  simp only [Bool.false_eq_true, if_false, hheld]

theorem answer_of_fallback {active : List Text} {expand : List Text → Text → Noted Expansion}
    {arguments fallback t : Text} {k : Nat} (hblank : arguments.isBlankOnly = false)
    (hvalue : vars[(splitArguments arguments).1]? = none)
    (hfallback : (splitArguments arguments).2 = some fallback)
    (hexpand : expand active fallback = ⟨⟨t, k, 0⟩, []⟩) :
    answer vars active expand arguments = ⟨some ⟨t, k, 0⟩, []⟩ := by
  have hheld : ofVariable vars active expand (splitArguments arguments).1 = ⟨none, []⟩ := by
    rw [ofVariable, hvalue]
  rw [answer, hblank]
  simp only [Bool.false_eq_true, if_false, hheld, hfallback, ofFallback, hexpand, unlessFailed_eq,
    List.nil_append]

/-- The stack is never in the way: whatever a text calls ranks below every variable
that is being expanded around it. -/
theorem expand_eq_naive (r : Ranking vars) {levels : Nat} (active : List Text) {t : Text}
    (ht : Regular vars levels t)
    (hactive : ∀ a ∈ active, ∀ m ∈ callNames t, m ∈ vars → r.rank m < r.rank a) :
    ∃ k, expand vars levels active t = ⟨⟨r.naive t, k, 0⟩, []⟩ := by
  induction levels generalizing active t with
  | zero =>
      refine ⟨0, ?_⟩
      rw [expand, assemble, r.naive_eq, all_eq_of_not_occursIn ht]
      exact ofTail_eq ht
  | succ levels ih =>
      obtain ⟨htail, hspans⟩ := ht
      have hcalls : ∀ s ∈ (Span.all variableMarker ')' t).1, ∃ k,
          answer vars active (expand vars levels) s.body = ⟨some ⟨r.substitute s, k, 0⟩, []⟩ := by
        intro s hs
        obtain ⟨hblank, u, hu, hregular⟩ := hspans s hs
        have hsubstitute : r.substitute s = r.naive u := by
          rw [Ranking.substitute, hblank, hu]
          rfl
        have hname : (splitArguments s.body).1 ∈ callNames t :=
          name_mem_callNames hs hblank
        rw [hsubstitute]
        rw [replacement] at hu
        cases hvalue : vars[(splitArguments s.body).1]? with
        | some value =>
            rw [hvalue] at hu
            obtain rfl : value = u := Option.some.inj hu
            have hvars : (splitArguments s.body).1 ∈ vars :=
              (Std.TreeMap.getElem?_eq_some_iff.1 hvalue).1
            -- the name goes on the stack: what its value calls is below it and below all else there
            have hbelow : ∀ a ∈ (splitArguments s.body).1 :: active,
                ∀ m ∈ callNames value, m ∈ vars → r.rank m < r.rank a := by
              intro a ha m hm hmvars
              have hlower := r.descends hvalue m hm hmvars
              rcases List.mem_cons.1 ha with rfl | ha
              · exact hlower
              · exact hlower.trans (hactive a ha _ hname hvars)
            obtain ⟨k, hexpand⟩ := ih _ hregular hbelow
            refine ⟨k, answer_of_held hblank hvalue (fun hmem => ?_) hexpand⟩
            exact Nat.lt_irrefl _ (hactive _ hmem _ hname hvars)
        | none =>
            rw [hvalue] at hu
            obtain ⟨k, hexpand⟩ := ih active hregular fun a ha m hm hmvars =>
              hactive a ha m (mem_callNames_of_fallback hs hblank hu hm) hmvars
            exact ⟨k, answer_of_fallback hblank hvalue hu hexpand⟩
      -- every call is answered, so the spans are put together without a warning
      obtain ⟨k, hfold⟩ := foldr_consSpan_eq (Span.all variableMarker ')' t).2 hcalls
      refine ⟨k, ?_⟩
      rw [r.naive_eq, ← hfold, ← ofTail_eq htail]
      rfl

end Expansion

/-- On variables that can be ranked, resolving is substituting, wherever there is
nothing to warn of. -/
theorem resolveValue_eq_naive {vars : VariableMap} (r : Ranking vars) {value : Text}
    (h : Regular vars maxDepth value) :
    resolveValue vars value = ⟨.resolved (r.naive value), []⟩ := by
  obtain ⟨k, hexpand⟩ := expand_eq_naive r [] h (by simp)
  rw [resolveValue, hexpand]
  rfl

/-- A variable that calls another, and a call that comes to its fallback. -/
theorem resolveValue_eq_naive_sample :
    let vars := VariableMap.insertAll ∅
      [("--a".toList, "1 var(--b)".toList), ("--b".toList, "2".toList)]
    let value := "var(--a) var(--c, 3)".toList
    ∃ r : Ranking vars, resolveValue vars value = ⟨.resolved (r.naive value), []⟩ ∧
      r.naive value = "1 2 3".toList := by
  intro vars value
  have hlookup : ∀ {name text : Text}, vars[name]? = some text →
      name = "--b".toList ∧ text = "2".toList ∨
        name = "--a".toList ∧ text = "1 var(--b)".toList := by
    intro name text h
    simp only [vars, VariableMap.insertAll, List.foldl_cons, List.foldl_nil,
      Std.TreeMap.getElem?_insert, Std.TreeMap.getElem?_emptyc] at h
    split at h
    · next hb =>
        exact .inl ⟨(Std.LawfulEqCmp.eq_of_compare hb).symm, (Option.some.inj h).symm⟩
    · split at h
      · next ha =>
          exact .inr ⟨(Std.LawfulEqCmp.eq_of_compare ha).symm, (Option.some.inj h).symm⟩
      · contradiction
  have hcalls : callNames "1 var(--b)".toList = ["--b".toList] ∧ callNames "2".toList = [] := by
    decide +kernel
  have r : Ranking vars :=
    { rank := fun name => if name = "--a".toList then 1 else 0
      descends := by
        intro name text htext m hm _
        rcases hlookup htext with ⟨rfl, rfl⟩ | ⟨rfl, rfl⟩
        · rw [hcalls.2] at hm
          contradiction
        · rw [hcalls.1] at hm
          obtain rfl := List.mem_singleton.1 hm
          decide }
  have hregular : Regular vars maxDepth value := by
    have hspans : Span.all variableMarker ')' value =
        ([⟨[], "var(".toList, "--a".toList, ')', " var(--c, 3)".toList⟩,
          ⟨" ".toList, "var(".toList, "--c, 3".toList, ')', []⟩], []) := by
      decide +kernel
    have hinner : Span.all variableMarker ')' "1 var(--b)".toList =
        ([⟨"1 ".toList, "var(".toList, "--b".toList, ')', []⟩], []) := by
      decide +kernel
    have hcall : ∀ levels, Regular vars (levels + 1) "1 var(--b)".toList := by
      intro levels
      refine ⟨by rw [hinner]; decide +kernel, ?_⟩
      rw [hinner]
      intro s hs
      obtain rfl := List.mem_singleton.1 hs
      exact ⟨by decide, "2".toList, by decide +kernel,
        regular_of_not_occursIn (by decide +kernel) levels⟩
    refine ⟨by rw [hspans]; decide +kernel, ?_⟩
    rw [hspans]
    intro s hs
    rcases List.mem_cons.1 hs with rfl | hs
    · exact ⟨by decide, "1 var(--b)".toList, by decide +kernel, hcall _⟩
    · obtain rfl := List.mem_singleton.1 hs
      exact ⟨by decide, "3".toList, by decide +kernel,
        regular_of_not_occursIn (by decide +kernel) _⟩
  have hresolved := resolveValue_eq_naive r hregular
  have hvalue : resolveValue vars value = ⟨.resolved "1 2 3".toList, []⟩ := by decide +kernel
  refine ⟨r, hresolved, ?_⟩
  rw [hresolved] at hvalue
  exact Resolution.resolved.inj (congrArg Noted.value hvalue)

end CssInliner
