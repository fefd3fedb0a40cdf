import CssInliner.Proofs.Filter
import CssInliner.Proofs.Tree
import CssInliner.Proofs.Variables.Leftovers
import CssInliner.Proofs.Variables.Substitution

/-!
What a run leaves alone. Where it neither filters nor preserves, the sheet that is
written has the rules of the sheet that was read; the variables for the whole document
are gone, and of the other declarations only a value that holds a reference or a
calculation may be another one. What a scan takes for either is all that counts: the
test on the raw text, which also finds references in strings, lets pass more values
than are changed.
-/

namespace CssInliner

/-- What a run may put in the place of a declaration: one with the same property, and
with the same value unless that holds a reference or a calculation outside strings and
escapes. -/
structure Declaration.MayBecome (d d' : Declaration) : Prop where
  property : d'.property = d.property
  value : d'.value ≠ d.value →
    variableMarker.occursIn d.value = true ∨ Calc.marker.occursIn d.value = true

/-- Whether the custom properties of a top-level rule hold for the whole document. -/
def Rule.isRootRule : Rule → Bool
  | .style selectors _ => selectors = [rootSelector]
  | _ => false

/-- What a run may put in the place of a top-level rule: the same rule but for its
declarations, of which there are all except the variables of a rule for the whole
document. -/
def Rule.MayBecome (rule : Rule) : Rule → Prop :=
  rule.Corresponds fun ds ds' =>
    List.Forall₂ Declaration.MayBecome (ds.filter fun d => !(rule.isRootRule && d.isCustom)) ds'

section resolve

variable (vars : VariableMap) (d : Declaration)

theorem resolveDeclaration_of_not_occursIn {d : Declaration}
    (h : variableMarker.occursIn d.value = false) (preserve : Bool) :
    (resolveDeclaration vars preserve d).1 = [d] := by
  refine resolveDeclaration_of_none (fun s hs => ?_) preserve
  rw [Expansion.all_eq_of_not_occursIn h] at hs
  contradiction

theorem exists_of_resolveDeclaration :
    ∃ d', (resolveDeclaration vars false d).1 = [d'] ∧ d'.property = d.property ∧
      (variableMarker.occursIn d.value = false → d' = d) := by
  rcases resolveDeclaration_eq_or vars d with hsame | hnew
  · exact ⟨d, hsame, rfl, fun _ => rfl⟩
  · refine ⟨_, hnew, rfl, fun hnone => ?_⟩
    rw [resolveDeclaration_of_not_occursIn vars hnone] at hnew
    exact (List.singleton_inj.1 hnew).symm

end resolve

theorem Calc.property_flattenDeclaration (d : Declaration) :
    (flattenDeclaration d).property = d.property := by
  rw [flattenDeclaration]
  split <;> rfl

/-- The declaration that stands in the end where another one stood. -/
theorem exists_mayBecome (vars : VariableMap) (flat : Bool) (d : Declaration) :
    ∃ d', (resolveDeclaration vars false d).1.map
        (fun d => if flat then Calc.flattenDeclaration d else d) = [d'] ∧ d.MayBecome d' := by
  obtain ⟨d', hd', hproperty, hvalue⟩ := exists_of_resolveDeclaration vars d
  rw [hd']
  refine ⟨_, rfl, ?_, fun hchanged => ?_⟩
  · cases flat with
    | false => exact hproperty
    | true => exact (Calc.property_flattenDeclaration d').trans hproperty
  · cases hvariable : variableMarker.occursIn d.value with
    | true => exact .inl rfl
    | false =>
        -- the value has come through resolution, so it was flattened
        obtain rfl := hvalue hvariable
        refine .inr (by_contra fun hcalc => hchanged ?_)
        cases flat with
        | false => rfl
        | true => simp only [if_true, Calc.flattenDeclaration, hcalc, Bool.false_eq_true, if_false]

namespace Rule

/-- It is no more than this to take the variables for the whole document out of a rule
and to replace the other declarations one by one. -/
theorem mayBecome_withoutRootVariables {f : Declaration → List Declaration}
    (h : ∀ d, ∃ d', f d = [d'] ∧ d.MayBecome d') (rule : Rule) :
    rule.MayBecome (rule.withoutRootVariables.mapBlocks fun ds => ds.flatMap f) := by
  cases rule with
  | style selectors ds =>
      rw [withoutRootVariables_style]
      exact .style selectors (forall₂_flatMap h _)
  | _ =>
      refine corresponds_mapBlocks (fun ds => ?_) _
      have hall : ds.filter (fun d => !(false && d.isCustom)) = ds :=
        List.filter_eq_self.2 fun _ _ => rfl
      simp only [isRootRule, hall]
      exact forall₂_flatMap h ds

end Rule

namespace Stylesheet

theorem sheet_harvest_replacing (sheet : Stylesheet) (overrides : VariableMap)
    (store : Option Store) :
    (sheet.harvest overrides false store).sheet = sheet.map Rule.withoutRootVariables := by
  cases store with
  | none => rfl
  | some store => exact List.append_nil _

/-- The sheet that is written, where nothing is filtered and nothing preserved, as one
change of every list after the variables are taken out. -/
theorem final_transform {s : Settings} (hall : s.onlyVariables = false)
    (hreplace : s.preserve = false) (store : Option Store) (sheet : Stylesheet) :
    ∃ vars, (sheet.transform s store).final =
      (sheet.map Rule.withoutRootVariables).map (Rule.mapBlocks fun ds => ds.flatMap fun d =>
        (resolveDeclaration vars false d).1.map
          fun d => if s.fixNestedCalc then Calc.flattenDeclaration d else d) := by
  let given := if s.persist then store else none
  let harvest := sheet.harvest s.overrides false given
  have hfinal : (sheet.transform s store).final =
      if s.fixNestedCalc then (harvest.sheet.resolve harvest.bindings false).1.flattenCalc
      else (harvest.sheet.resolve harvest.bindings false).1 := by
    simp only [transform, selected, hall, hreplace, Bool.false_eq_true, if_false]
    rfl
  have hsheet : harvest.sheet = sheet.map Rule.withoutRootVariables :=
    sheet.sheet_harvest_replacing s.overrides given
  refine ⟨harvest.bindings, ?_⟩
  rw [hfinal, resolve_eq, hsheet]
  cases s.fixNestedCalc with
  | false => simp [mapBlocks_eq_map]
  | true =>
      rw [if_pos rfl, flattenCalc, mapBlocks_mapBlocks, mapBlocks_eq_map]
      simp only [List.map_flatMap, if_true]

end Stylesheet

/-- A run that neither filters nor preserves writes the rules that it has read, in their
order and nesting, with all they hold besides declarations. -/
theorem transform_frame {s : Settings} (hall : s.onlyVariables = false)
    (hreplace : s.preserve = false) (store : Option Store) {source : Text}
    {sheet : Stylesheet} (h : Stylesheet.parse source = .ok sheet) :
    ∃ r, transform s store source = .ok r ∧ r.css = r.final.render s.delimiter ∧
      List.Forall₂ Rule.MayBecome sheet r.final := by
  refine ⟨sheet.transform s store, ?_, rfl, ?_⟩
  · rw [transform, h]
    rfl
  · obtain ⟨vars, hfinal⟩ := Stylesheet.final_transform hall hreplace store sheet
    rw [hfinal, List.map_map]
    refine List.forall₂_map_right_iff.2 (List.forall₂_same.2 fun rule _ => ?_)
    exact rule.mayBecome_withoutRootVariables (exists_mayBecome vars s.fixNestedCalc)

/-- The variable of the root rule goes and that of the same rule inside a group stays; a
reference in a string stays too. -/
theorem transform_frame_sample :
    let source := ":root\x7b--a:1;b:var(--c)\x7d@media x\x7b:root\x7b--a:2\x7d\x7d".toList ++
      "d\x7be:'var(--a)' calc(calc(1))\x7d".toList
    let css := ":root\x7bb:3\x7d@media x\x7b:root\x7b--a:2\x7d\x7d".toList ++
      "d\x7be:'var(--a)' calc((1))\x7d".toList
    let s : Settings := { Settings.standard with persist := true }
    let store : Store := Store.empty.merge [("c".toList, "3".toList)]
    ∃ sheet r, Stylesheet.parse source = .ok sheet ∧ transform s (some store) source = .ok r ∧
      r.css = css ∧ List.Forall₂ Rule.MayBecome sheet r.final := by
  intro source css s store
  have hparse : Stylesheet.parse source = .ok
      [.style [rootSelector] [⟨"--a".toList, "1".toList⟩, ⟨"b".toList, "var(--c)".toList⟩],
        .group .media "x".toList [.style [rootSelector] [⟨"--a".toList, "2".toList⟩]],
        .style ["d".toList] [⟨"e".toList, "'var(--a)' calc(calc(1))".toList⟩]] := by
    decide +kernel
  obtain ⟨r, hr, -, hframe⟩ := transform_frame (s := s) rfl rfl (some store) hparse
  have hcss : (transform s (some store) source).toOption.map Transformation.css = some css := by
    decide +kernel
  rw [hr] at hcss
  exact ⟨_, r, hparse, hr, Option.some.inj hcss, hframe⟩

end CssInliner
