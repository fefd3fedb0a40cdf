import CssInliner.Proofs.Variables.Names
import CssInliner.Variables.Harvest

/-!
Which source a variable comes from. A store takes in the overrides for names it
does not hold; what it holds then goes before the overrides, and these go before
what the document declares for itself.
-/

namespace CssInliner

theorem VariableMap.normalizeName_of_mem_normalize {m : VariableMap} {name : Text}
    (h : name ∈ m.normalize) : normalizeName name = name := by
  obtain ⟨value, hvalue⟩ := Option.isSome_iff_exists.1 (Std.TreeMap.mem_iff_isSome_getElem?.1 h)
  rw [getElem?_normalize, effective_eq_some_iff] at hvalue
  obtain ⟨key, -, rfl, -⟩ := hvalue
  exact normalizeName_normalizeName key

namespace Store

/-- Names are stored in their normal form only. -/
def Normal (s : Store) : Prop := ∀ name ∈ s.entries, normalizeName name = name

theorem getElem?_merge (s : Store) (pairs : List (Text × Text)) (name : Text) :
    (s.merge pairs).entries[name]? =
      (lastValue? name (normalizePairs pairs)).or s.entries[name]? :=
  VariableMap.getElem?_insertAll ..

theorem normal_empty : empty.Normal := by
  intro name h
  exact absurd h Std.TreeMap.not_mem_emptyc

theorem Normal.merge {s : Store} (hs : s.Normal) (pairs : List (Text × Text)) :
    (s.merge pairs).Normal := by
  intro name h
  rw [Std.TreeMap.mem_iff_isSome_getElem?, getElem?_merge] at h
  cases hlast : lastValue? name (normalizePairs pairs) with
  | some value =>
      obtain ⟨before, after, hsplit, -⟩ := lastValue?_eq_some_iff.1 hlast
      have hmem : (name, value) ∈ normalizePairs pairs := by
        rw [hsplit]
        simp
      obtain ⟨pair, -, hpair⟩ := List.mem_map.1 hmem
      obtain ⟨rfl, -⟩ := Prod.mk.inj hpair
      exact normalizeName_normalizeName pair.1
  | none =>
      rw [hlast, Option.none_or, ← Std.TreeMap.mem_iff_isSome_getElem?] at h
      exact hs name h

/-- Overrides are taken in for the names that the store does not hold. -/
theorem getElem?_supplement (s : Store) {m : VariableMap}
    (hm : ∀ name ∈ m, normalizeName name = name) (name : Text) :
    (s.supplement m).entries[name]? = s.entries[name]?.or m[name]? := by
  have hpairs : normalizePairs (m.toList.filter fun pair => (s.get? pair.1).isNone) =
      m.toList.filter fun pair => (s.entries[pair.1]?).isNone := by
    have hnames : ∀ pair ∈ m.toList, normalizeName pair.1 = pair.1 := fun pair hpair =>
      hm pair.1 (VariableMap.mem_of_mem_toList hpair)
    rw [normalizePairs, List.filter_congr fun pair hpair => by
      rw [get?, hnames pair hpair]]
    refine (List.map_congr_left fun pair hpair => ?_).trans (List.map_id _)
    rw [hnames pair (List.mem_filter.1 hpair).1]
    rfl
  rw [supplement, getElem?_merge, hpairs, lastValue?_filter fun name => (s.entries[name]?).isNone,
    VariableMap.lastValue?_toList]
  cases s.entries[name]? <;> simp

end Store

namespace Stylesheet

def rootDeclarations (sheet : Stylesheet) (name : Text) : List Declaration :=
  sheet.flatMap fun
    | .style selectors ds =>
        if selectors = [rootSelector] then ds.filter fun d => d.isCustom && d.property = name
        else []
    | _ => []

theorem filter_rootVariables (sheet : Stylesheet) (name : Text) :
    (sheet.flatMap Rule.rootVariables).filter (fun d => d.property = name) =
      sheet.rootDeclarations name := by
  rw [List.filter_flatMap]
  refine List.flatMap_congr fun rule _ => ?_
  cases rule with
  | style selectors ds =>
      by_cases hroot : selectors = [rootSelector]
      · simp [Rule.rootVariables, isRoot, hroot, Bool.and_comm]
      · simp [Rule.rootVariables, isRoot, hroot]
  | _ => rfl

theorem getElem?_rootVariables (sheet : Stylesheet) (name : Text) :
    sheet.rootVariables[name]? =
      (sheet.rootDeclarations name).getLast?.map Declaration.value := by
  rw [rootVariables, VariableMap.getElem?_insertAll, Std.TreeMap.getElem?_emptyc, Option.or_none,
    lastValue?, List.filter_map, List.getLast?_map, Option.map_map, ← filter_rootVariables]
  rfl

/-- A variable has the value that the store holds once it has taken in what it
lacks, else that of the overrides, else that of its last declaration for the whole
document. -/
theorem harvest_precedence (sheet : Stylesheet) (overrides : VariableMap) (preserve : Bool)
    (store : Option Store) :
    let harvest := sheet.harvest overrides preserve store
    (∀ name value, overrides.effective name = some value ↔
      ∃ key, overrides[key]? = some value ∧ normalizeName key = name ∧
        ∀ other ∈ overrides, normalizeName other = name → ¬ key < other) ∧
    Option.Rel (fun before after => ∀ name,
      after.entries[name]? = before.entries[name]?.or (overrides.effective name))
        store harvest.store ∧
    ∀ name, harvest.bindings[name]? =
      ((harvest.store.bind fun s => s.entries[name]?).or (overrides.effective name)).or
        ((sheet.rootDeclarations name).getLast?.map Declaration.value) := by
  intro harvest
  have hsupplement : ∀ (s : Store) (name : Text),
      (s.supplement overrides.normalize).entries[name]? =
        s.entries[name]?.or (overrides.effective name) := by
    intro s name
    rw [Store.getElem?_supplement s fun _ => VariableMap.normalizeName_of_mem_normalize,
      VariableMap.getElem?_normalize]
  have hbindings : ∀ name, (sheet.rootVariables.insertAll overrides.normalize.toList)[name]? =
      (overrides.effective name).or
        ((sheet.rootDeclarations name).getLast?.map Declaration.value) := by
    intro name
    rw [VariableMap.getElem?_insertAll, VariableMap.lastValue?_toList,
      VariableMap.getElem?_normalize, getElem?_rootVariables]
  refine ⟨fun _ _ => VariableMap.effective_eq_some_iff, ?_, fun name => ?_⟩
  · cases store with
    | none => exact .none
    | some s => exact .some (hsupplement s)
  · cases store with
    | none => exact hbindings name
    | some s =>
        have hstore : harvest.store = some (s.supplement overrides.normalize) := rfl
        have hall : harvest.bindings =
            (sheet.rootVariables.insertAll overrides.normalize.toList).insertAll
              (s.supplement overrides.normalize).toList := rfl
        rw [hall, hstore, VariableMap.getElem?_insertAll, Store.toList,
          VariableMap.lastValue?_toList, hbindings, Option.bind_some, Option.or_assoc]

end Stylesheet

end CssInliner
