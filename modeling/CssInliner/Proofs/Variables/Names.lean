import CssInliner.Proofs.Text.Trim
import CssInliner.Variables.Basic

/-!
Looking up variables in maps that are filled one pair after another, and names in
their normal form. A name has its normal form once and for all; of the spellings
that a map has for one name, the greatest decides.
-/

namespace CssInliner

namespace Text

/-- The keys of a map stand in the order of their code points. -/
theorem compare_eq_lt_iff {s t : Text} : compare s t = .lt ↔ s < t := by
  induction s generalizing t with
  | nil => cases t <;> simp
  | cons c s ih =>
      cases t with
      | nil => simp
      | cons d t =>
          have hchar : compare c d = compareOfLessAndEq c d := rfl
          have heq : compare c d = .eq ↔ c = d := Std.compare_eq_iff_eq
          rw [List.compare_cons_cons, Ordering.then_eq_lt, ih, List.cons_lt_cons_iff, heq, hchar,
            compareOfLessAndEq_eq_lt]

theorem trimEnd_eq_self_of_suffix {s t : Text} (hs : s <:+ t) (ht : trimEnd t = t) :
    trimEnd s = s := by
  refine List.rdropWhile_eq_self_iff.2 fun hne => ?_
  have hlast := List.rdropWhile_eq_self_iff.1 ht (hs.ne_nil hne)
  rwa [← hs.getLast hne] at hlast

end Text

theorem normalizeName_eq (name : Text) :
    normalizeName name = '-' :: '-' :: name.trim.dropWhile (· = '-') := rfl

/-- The normal form of a name is its own normal form. -/
theorem normalizeName_normalizeName (name : Text) :
    normalizeName (normalizeName name) = normalizeName name := by
  have hend : Text.trimEnd (name.trim.dropWhile (· = '-')) = name.trim.dropWhile (· = '-') :=
    Text.trimEnd_eq_self_of_suffix (List.dropWhile_suffix _) (Text.trimEnd_trimEnd _)
  have hdash : Text.isBlank '-' = false := rfl
  rw [normalizeName_eq (normalizeName name), normalizeName_eq name, Text.trim_cons hdash,
    Text.trimEnd_cons hdash, hend]
  simp only [List.dropWhile_cons_of_pos, decide_true, List.dropWhile_idempotent]

def lastValue? (name : Text) (pairs : List (Text × Text)) : Option Text :=
  (pairs.filter fun pair => pair.1 = name).getLast?.map Prod.snd

theorem lastValue?_cons (name : Text) (pair : Text × Text) (pairs : List (Text × Text)) :
    lastValue? name (pair :: pairs) =
      (lastValue? name pairs).or (if pair.1 = name then some pair.2 else none) := by
  simp only [lastValue?, List.getLast?_filter, List.reverse_cons, List.find?_append,
    Option.map_or]
  congr 1
  by_cases h : pair.1 = name <;> simp [h]

theorem lastValue?_append (name : Text) (before after : List (Text × Text)) :
    lastValue? name (before ++ after) = (lastValue? name after).or (lastValue? name before) := by
  simp only [lastValue?, List.filter_append, List.getLast?_append, Option.map_or]

/-- Dropping other names changes nothing, dropping the name leaves it without a value. -/
theorem lastValue?_filter (keep : Text → Bool) (name : Text) (pairs : List (Text × Text)) :
    lastValue? name (pairs.filter fun pair => keep pair.1) =
      if keep name then lastValue? name pairs else none := by
  induction pairs with
  | nil => simp [lastValue?]
  | cons pair pairs ih =>
      rw [List.filter_cons, lastValue?_cons]
      by_cases hname : pair.1 = name
      · subst hname
        cases hkeep : keep pair.1 with
        | true => simp [lastValue?_cons, ih, hkeep]
        | false => simp [ih, hkeep]
      · cases hkeep : keep pair.1 with
        | true => simp [lastValue?_cons, ih, hname]
        | false => simp [ih, hname]

theorem lastValue?_eq_none_iff {name : Text} {pairs : List (Text × Text)} :
    lastValue? name pairs = none ↔ ∀ pair ∈ pairs, pair.1 ≠ name := by
  simp [lastValue?]

theorem lastValue?_eq_some_iff {name value : Text} {pairs : List (Text × Text)} :
    lastValue? name pairs = some value ↔ ∃ before after,
      pairs = before ++ (name, value) :: after ∧ ∀ pair ∈ after, pair.1 ≠ name := by
  constructor
  · intro h
    induction pairs with
    | nil => contradiction
    | cons pair pairs ih =>
        rw [lastValue?_cons] at h
        cases hlast : lastValue? name pairs with
        | some later =>
            rw [hlast, Option.some_or] at h
            obtain ⟨before, after, rfl, hafter⟩ := ih (hlast.trans h)
            exact ⟨pair :: before, after, rfl, hafter⟩
        | none =>
            rw [hlast, Option.none_or] at h
            obtain ⟨rfl, rfl⟩ : pair.1 = name ∧ pair.2 = value := by simpa using h
            exact ⟨[], pairs, rfl, lastValue?_eq_none_iff.1 hlast⟩
  · rintro ⟨before, after, rfl, hafter⟩
    rw [lastValue?_append, lastValue?_cons, lastValue?_eq_none_iff.2 hafter]
    simp

namespace VariableMap

theorem getElem?_insertAll (m : VariableMap) (pairs : List (Text × Text)) (name : Text) :
    (m.insertAll pairs)[name]? = (lastValue? name pairs).or m[name]? := by
  induction pairs generalizing m with
  | nil => rfl
  | cons pair pairs ih =>
      have hstep : m.insertAll (pair :: pairs) =
          VariableMap.insertAll (m.insert pair.1 pair.2) pairs := rfl
      rw [hstep, ih, Std.TreeMap.getElem?_insert, lastValue?_cons, Option.or_assoc]
      congr 1
      by_cases h : pair.1 = name
      · simp [h]
      · have hne : compare pair.1 name ≠ .eq := fun heq => h (Std.LawfulEqCmp.eq_of_compare heq)
        simp [h, hne]

theorem pairwise_toList (m : VariableMap) : m.toList.Pairwise fun a b => a.1 < b.1 :=
  Std.TreeMap.ordered_keys_toList.imp Text.compare_eq_lt_iff.1

theorem mem_of_mem_toList {m : VariableMap} {pair : Text × Text} (h : pair ∈ m.toList) :
    pair.1 ∈ m := by
  rw [Std.TreeMap.mem_iff_isSome_getElem?, Std.TreeMap.mem_toList_iff_getElem?_eq_some.1 h]
  rfl

theorem lastValue?_toList (m : VariableMap) (name : Text) :
    lastValue? name m.toList = m[name]? := by
  ext value
  rw [lastValue?_eq_some_iff, ← Std.TreeMap.mem_toList_iff_getElem?_eq_some]
  constructor
  · rintro ⟨before, after, hsplit, -⟩
    rw [hsplit]
    simp
  · intro hmem
    obtain ⟨before, after, hsplit⟩ := List.append_of_mem hmem
    refine ⟨before, after, hsplit, fun pair hpair heq => ?_⟩
    have hordered := m.pairwise_toList
    rw [hsplit] at hordered
    have hlt := List.rel_of_pairwise_cons (List.pairwise_append.1 hordered).2.1 hpair
    rw [heq] at hlt
    exact List.lt_irrefl _ hlt

/-- The value under the greatest of the keys that are spellings of the name. -/
def effective (m : VariableMap) (name : Text) : Option Text :=
  lastValue? name (normalizePairs m.toList)

theorem getElem?_normalize (m : VariableMap) (name : Text) :
    m.normalize[name]? = m.effective name := by
  rw [normalize, getElem?_insertAll, Std.TreeMap.getElem?_emptyc, Option.or_none, effective]

theorem effective_eq_some_iff {m : VariableMap} {name value : Text} :
    m.effective name = some value ↔ ∃ key, m[key]? = some value ∧ normalizeName key = name ∧
      ∀ other ∈ m, normalizeName other = name → ¬ key < other := by
  have hordered := m.pairwise_toList
  rw [effective, lastValue?_eq_some_iff]
  constructor
  · rintro ⟨before, after, hsplit, hafter⟩
    obtain ⟨front, back, htoList, rfl, hback⟩ := List.map_eq_append_iff.1 hsplit
    obtain ⟨⟨key, value'⟩, rest, rfl, hpair, rfl⟩ := List.map_eq_cons_iff.1 hback
    obtain ⟨hkey, rfl⟩ := Prod.mk.inj hpair
    refine ⟨key, ?_, hkey, fun other hother hname hlt => ?_⟩
    · rw [← Std.TreeMap.mem_toList_iff_getElem?_eq_some, htoList]
      simp
    · obtain ⟨held, hheld⟩ := Option.isSome_iff_exists.1
        (Std.TreeMap.mem_iff_isSome_getElem?.1 hother)
      rw [← Std.TreeMap.mem_toList_iff_getElem?_eq_some, htoList] at hheld
      rw [htoList] at hordered
      obtain ⟨-, -, hfront⟩ := List.pairwise_append.1 hordered
      -- a greater key would stand behind this one, where no other spelling is
      rcases List.mem_append.1 hheld with hin | hin
      · exact List.lt_irrefl _ (List.lt_trans hlt (hfront _ hin _ List.mem_cons_self))
      · rcases List.mem_cons.1 hin with heq | hin
        · rw [(Prod.mk.inj heq).1] at hlt
          exact List.lt_irrefl _ hlt
        · exact hafter (normalizeName other, held) (List.mem_map_of_mem hin) hname
  · rintro ⟨key, hvalue, rfl, hgreatest⟩
    rw [← Std.TreeMap.mem_toList_iff_getElem?_eq_some] at hvalue
    obtain ⟨front, back, hsplit⟩ := List.append_of_mem hvalue
    refine ⟨normalizePairs front, normalizePairs back, by rw [hsplit]; simp [normalizePairs], ?_⟩
    intro pair hpair hname
    obtain ⟨original, horiginal, rfl⟩ := List.mem_map.1 hpair
    rw [hsplit] at hordered
    have hlt := List.rel_of_pairwise_cons (List.pairwise_append.1 hordered).2.1 horiginal
    refine hgreatest original.1 (mem_of_mem_toList (m := m) ?_) hname hlt
    rw [hsplit]
    simp [horiginal]

end VariableMap

end CssInliner
