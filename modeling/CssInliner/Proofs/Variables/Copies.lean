import CssInliner.Proofs.Declarations
import CssInliner.Proofs.Tree
import CssInliner.Stylesheet.Equality
import Mathlib.Data.List.Zip

/-!
Resolving a sheet in place and resolving it into copies. Either way it is told the same,
and the copies are the declarations that stand in the place of others otherwise: each
goes right behind the declaration that it was made from.
-/

namespace CssInliner

/-- The declarations of a list, each with its counterpart behind it if that is another. -/
def withCopies (ds ds' : List Declaration) : List Declaration :=
  (List.zipWith (fun d d' => if d' = d then [d] else [d, d']) ds ds').flatten

section resolveDeclaration

variable (vars : VariableMap)

/-- A declaration has a counterpart, which goes in its place or behind it. -/
theorem exists_counterpart (d : Declaration) :
    ∃ d', (resolveDeclaration vars false d).1 = [d'] ∧ d'.property = d.property ∧
      (resolveDeclaration vars true d).1 = if d' = d then [d] else [d, d'] := by
  cases hmentions : d.mentionsVariable with
  | false =>
      refine ⟨d, ?_, rfl, ?_⟩
      · rw [resolveDeclaration_of_not_mentions hmentions]
      · rw [resolveDeclaration_of_not_mentions hmentions, if_pos rfl]
  | true =>
      cases htext : (resolveValue vars d.value).value.text? with
      | none => exact ⟨d, by simp [resolveDeclaration, hmentions, htext]⟩
      | some value =>
          by_cases hsame : value = d.value
          · exact ⟨d, by simp [resolveDeclaration, hmentions, htext, hsame]⟩
          · have hne : (⟨d.property, value⟩ : Declaration) ≠ d :=
              fun h => hsame (congrArg Declaration.value h)
            refine ⟨⟨d.property, value⟩, ?_, rfl, ?_⟩
            · simp [resolveDeclaration, hmentions, htext, hsame]
            · simp [resolveDeclaration, hmentions, htext, hsame, hne]

theorem events_resolveDeclaration (preserve : Bool) (d : Declaration) :
    (resolveDeclaration vars preserve d).2 = (resolveDeclaration vars false d).2 := by
  simp only [resolveDeclaration]
  repeat' split
  all_goals rfl

/-- The list with copies, from the list that is resolved in place. -/
theorem flatMap_resolveDeclaration_preserve (ds : List Declaration) :
    (ds.flatMap fun d => (resolveDeclaration vars true d).1) =
      withCopies ds (ds.flatMap fun d => (resolveDeclaration vars false d).1) := by
  induction ds with
  | nil => rfl
  | cons d ds ih =>
      obtain ⟨d', hplace, -, hcopy⟩ := exists_counterpart vars d
      rw [List.flatMap_cons, List.flatMap_cons, ih, hplace, hcopy]
      rfl

theorem sublist_resolveDeclaration_preserve (ds : List Declaration) :
    ds.Sublist (ds.flatMap fun d => (resolveDeclaration vars true d).1) := by
  induction ds with
  | nil => exact .slnil
  | cons d ds ih =>
      obtain ⟨d', -, -, hcopy⟩ := exists_counterpart vars d
      have hfirst : [d].Sublist (resolveDeclaration vars true d).1 := by
        rw [hcopy]
        split <;> simp
      rw [List.flatMap_cons]
      exact hfirst.append ih

end resolveDeclaration

/-- A sheet that is resolved into copies has the rules and the declarations of the sheet,
and behind each declaration, where that is another, the one that it is resolved to in
place. The same is told of it, the warnings among the rest. -/
theorem Stylesheet.resolve_preserve (vars : VariableMap) (sheet : Stylesheet) :
    let replaced := sheet.resolve vars false
    let copied := sheet.resolve vars true
    copied.2 = replaced.2 ∧
      List.Forall₂ (Rule.Corresponds (List.Forall₂ fun d d' => d'.property = d.property))
        sheet replaced.1 ∧
      List.Forall₂ (Rule.Corresponds List.Sublist) sheet copied.1 ∧
      blocks copied.1 = List.zipWith withCopies (blocks sheet) (blocks replaced.1) := by
  intro replaced copied
  have hreplaced : replaced = _ := sheet.resolve_eq vars false
  have hcopied : copied = _ := sheet.resolve_eq vars true
  refine ⟨?_, ?_, ?_, ?_⟩
  · rw [hcopied, hreplaced]
    exact List.flatMap_congr fun d _ => events_resolveDeclaration vars true d
  · rw [hreplaced]
    refine corresponds_mapBlocks (fun ds => forall₂_flatMap (fun d => ?_) ds) sheet
    obtain ⟨d', hplace, hproperty, -⟩ := exists_counterpart vars d
    exact ⟨d', hplace, hproperty⟩
  · rw [hcopied]
    exact corresponds_mapBlocks (sublist_resolveDeclaration_preserve vars) sheet
  · rw [hcopied, hreplaced, blocks_mapBlocks, blocks_mapBlocks, List.zipWith_map_right,
      List.zipWith_self]
    exact List.map_congr_left fun ds _ => flatMap_resolveDeclaration_preserve vars ds

example : (Stylesheet.resolve (VariableMap.insertAll ∅ [("--a".toList, "red".toList)]) true
      [.fontFace [⟨"a".toList, "var(--a)".toList⟩, ⟨"b".toList, "var(--b)".toList⟩]]).1 =
    [.fontFace [⟨"a".toList, "var(--a)".toList⟩, ⟨"a".toList, "red".toList⟩,
      ⟨"b".toList, "var(--b)".toList⟩]] := by decide +kernel

end CssInliner
