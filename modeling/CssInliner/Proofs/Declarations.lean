import CssInliner.Variables.Resolution
import Mathlib.Data.List.Basic
import Mathlib.Data.List.Flatten

/-!
The declarations of a tree in document order, and resolution as what it does to
one declaration after another.
-/

namespace CssInliner

/-- The declarations of the rules in document order, those inside groups included. -/
def declarations (rules : List Rule) : List Declaration := (blocks rules).flatten

@[simp] theorem declarations_nil : declarations [] = [] := rfl

theorem declarations_cons (rule : Rule) (rules : List Rule) :
    declarations (rule :: rules) = rule.blocks.flatten ++ declarations rules := by
  rw [declarations, blocks, List.flatten_append, declarations]

theorem declarations_append (rules more : List Rule) :
    declarations (rules ++ more) = declarations rules ++ declarations more := by
  induction rules with
  | nil => rfl
  | cons rule rules ih =>
      rw [List.cons_append, declarations_cons, declarations_cons, ih, List.append_assoc]

theorem flatMap_declarations {β : Type} (f : Declaration → List β) (rules : List Rule) :
    (declarations rules).flatMap f = (blocks rules).flatMap fun ds => ds.flatMap f := by
  rw [declarations, ← List.flatMap_id, List.flatMap_assoc]
  rfl

mutual

theorem Rule.blocks_mapBlocks (f : List Declaration → List Declaration) (rule : Rule) :
    (rule.mapBlocks f).blocks = rule.blocks.map f := by
  cases rule with
  | group kind header rules =>
      rw [Rule.mapBlocks, Rule.blocks, Rule.blocks, CssInliner.blocks_mapBlocks f rules]
  | keyframes vendor name frames => simp [Rule.mapBlocks, Rule.blocks]
  | _ => rfl

theorem blocks_mapBlocks (f : List Declaration → List Declaration) (rules : List Rule) :
    blocks (mapBlocks f rules) = (blocks rules).map f := by
  cases rules with
  | nil => rfl
  | cons rule rules =>
      rw [mapBlocks, blocks, blocks, rule.blocks_mapBlocks f, blocks_mapBlocks f rules,
        List.map_append]

end

mutual

theorem Rule.mapBlocks_mapBlocks (f g : List Declaration → List Declaration) (rule : Rule) :
    (rule.mapBlocks g).mapBlocks f = rule.mapBlocks fun ds => f (g ds) := by
  cases rule with
  | group kind header rules =>
      rw [Rule.mapBlocks, Rule.mapBlocks, Rule.mapBlocks, CssInliner.mapBlocks_mapBlocks f g rules]
  | keyframes vendor name frames => simp [Rule.mapBlocks]
  | _ => rfl

theorem mapBlocks_mapBlocks (f g : List Declaration → List Declaration) (rules : List Rule) :
    mapBlocks f (mapBlocks g rules) = mapBlocks (fun ds => f (g ds)) rules := by
  cases rules with
  | nil => rfl
  | cons rule rules =>
      rw [mapBlocks, mapBlocks, mapBlocks, rule.mapBlocks_mapBlocks f g,
        mapBlocks_mapBlocks f g rules]

end

mutual

theorem Rule.mapBlocks_congr {f g : List Declaration → List Declaration} {rule : Rule}
    (h : ∀ ds ∈ rule.blocks, f ds = g ds) : rule.mapBlocks f = rule.mapBlocks g := by
  cases rule with
  | style selectors ds | page selectors ds | fontFace ds =>
      simp only [Rule.mapBlocks, h ds List.mem_cons_self]
  | keyframes vendor name frames =>
      simp only [Rule.mapBlocks, Rule.keyframes.injEq, true_and]
      refine List.map_congr_left fun frame hframe => ?_
      rw [h frame.declarations (List.mem_map_of_mem hframe)]
  | group kind header rules => rw [Rule.mapBlocks, Rule.mapBlocks, CssInliner.mapBlocks_congr h]
  | customMedia name media | statement kind value | comment text => rfl

theorem mapBlocks_congr {f g : List Declaration → List Declaration} {rules : List Rule}
    (h : ∀ ds ∈ blocks rules, f ds = g ds) : mapBlocks f rules = mapBlocks g rules := by
  cases rules with
  | nil => rfl
  | cons rule rules =>
      rw [mapBlocks, mapBlocks,
        rule.mapBlocks_congr fun ds hds => h ds (List.mem_append_left _ hds),
        mapBlocks_congr fun ds hds => h ds (List.mem_append_right _ hds)]

end

theorem declarations_mapBlocks (f : Declaration → List Declaration) (rules : List Rule) :
    declarations (mapBlocks (fun ds => ds.flatMap f) rules) = (declarations rules).flatMap f := by
  rw [declarations, blocks_mapBlocks, flatMap_declarations, List.flatMap_def]

theorem resolveDeclaration_of_not_mentions {d : Declaration} (h : d.mentionsVariable = false)
    (vars : VariableMap) (preserve : Bool) : resolveDeclaration vars preserve d = ([d], []) := by
  rw [resolveDeclaration, h]
  rfl

namespace Stylesheet

variable (vars : VariableMap) (preserve : Bool) (sheet : Stylesheet)

theorem resolve_eq :
    sheet.resolve vars preserve =
      (mapBlocks (fun ds => ds.flatMap fun d => (resolveDeclaration vars preserve d).1) sheet,
        (declarations sheet).flatMap fun d => (resolveDeclaration vars preserve d).2) := by
  have hblock : resolveBlock vars preserve = fun events ds =>
      (ds.flatMap fun d => (resolveDeclaration vars preserve d).1,
        events ++ ds.flatMap fun d => (resolveDeclaration vars preserve d).2) := by
    funext events ds
    simp only [resolveBlock, List.flatMap_map]
  rw [resolve, hblock, visitRules_eq, List.nil_append, flatMap_declarations]

/-- A second resolution changes nothing where it changes no declaration that the first
one leaves. -/
theorem resolve_resolve_of_forall
    (h : ∀ d ∈ declarations sheet, ∀ d' ∈ (resolveDeclaration vars preserve d).1,
      (resolveDeclaration vars preserve d').1 = [d']) :
    ((sheet.resolve vars preserve).1.resolve vars preserve).1 =
      (sheet.resolve vars preserve).1 := by
  rw [resolve_eq, resolve_eq]
  dsimp only
  rw [mapBlocks_mapBlocks]
  refine mapBlocks_congr fun ds hds => ?_
  rw [List.flatMap_assoc]
  refine List.flatMap_congr fun d hd => ?_
  rw [List.flatMap_congr (h d (List.mem_flatten_of_mem hds hd)), List.flatMap_singleton']

theorem declarations_resolve :
    declarations (sheet.resolve vars preserve).1 =
      (declarations sheet).flatMap fun d => (resolveDeclaration vars preserve d).1 := by
  rw [resolve_eq, declarations_mapBlocks]

end Stylesheet

end CssInliner
