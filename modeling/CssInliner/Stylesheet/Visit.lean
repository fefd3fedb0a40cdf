import CssInliner.Stylesheet.Basic

/-!
Going through the declaration lists of a tree in document order. Each frame of
a keyframes rule has a list of its own. `visitRules_eq` splits a visit whose
answers do not depend on what came before into a map over the tree and a
concatenation over its lists.
-/

namespace CssInliner

mutual

/-- Replaces every declaration list of the rule, with a state carried along. -/
def Rule.visit {σ : Type} (f : σ → List Declaration → List Declaration × σ) (s : σ) :
    Rule → Rule × σ
  | .style selectors ds => let (ds, s) := f s ds; (.style selectors ds, s)
  | .page selectors ds => let (ds, s) := f s ds; (.page selectors ds, s)
  | .fontFace ds => let (ds, s) := f s ds; (.fontFace ds, s)
  | .keyframes vendor name frames =>
      let (frames, s) := visitFrames f s frames
      (.keyframes vendor name frames, s)
  | .group kind prelude rules =>
      let (rules, s) := visitRules f s rules
      (.group kind prelude rules, s)
  | .customMedia name media => (.customMedia name media, s)
  | .statement kind value => (.statement kind value, s)
  | .comment text => (.comment text, s)

def visitFrames {σ : Type} (f : σ → List Declaration → List Declaration × σ) (s : σ) :
    List Keyframe → List Keyframe × σ
  | [] => ([], s)
  | frame :: frames =>
      let (ds, s) := f s frame.declarations
      let (frames, s) := visitFrames f s frames
      (⟨frame.selectors, ds⟩ :: frames, s)

def visitRules {σ : Type} (f : σ → List Declaration → List Declaration × σ) (s : σ) :
    List Rule → List Rule × σ
  | [] => ([], s)
  | rule :: rules =>
      let (rule, s) := rule.visit f s
      let (rules, s) := visitRules f s rules
      (rule :: rules, s)

end

mutual

/-- The declaration lists of the rule, in document order. -/
def Rule.blocks : Rule → List (List Declaration)
  | .style _ ds => [ds]
  | .page _ ds => [ds]
  | .fontFace ds => [ds]
  | .keyframes _ _ frames => frames.map Keyframe.declarations
  | .group _ _ rules => blocks rules
  | .customMedia _ _ => []
  | .statement _ _ => []
  | .comment _ => []

def blocks : List Rule → List (List Declaration)
  | [] => []
  | rule :: rules => rule.blocks ++ blocks rules

end

mutual

def Rule.mapBlocks (f : List Declaration → List Declaration) : Rule → Rule
  | .style selectors ds => .style selectors (f ds)
  | .page selectors ds => .page selectors (f ds)
  | .fontFace ds => .fontFace (f ds)
  | .keyframes vendor name frames =>
      .keyframes vendor name (frames.map fun frame => ⟨frame.selectors, f frame.declarations⟩)
  | .group kind prelude rules => .group kind prelude (mapBlocks f rules)
  | .customMedia name media => .customMedia name media
  | .statement kind value => .statement kind value
  | .comment text => .comment text

def mapBlocks (f : List Declaration → List Declaration) : List Rule → List Rule
  | [] => []
  | rule :: rules => rule.mapBlocks f :: mapBlocks f rules

end

theorem visitFrames_eq {ε : Type} (f : List Declaration → List Declaration)
    (g : List Declaration → List ε) (s : List ε) (frames : List Keyframe) :
    visitFrames (fun s ds => (f ds, s ++ g ds)) s frames =
      (frames.map fun frame => ⟨frame.selectors, f frame.declarations⟩,
        s ++ (frames.map Keyframe.declarations).flatMap g) := by
  induction frames generalizing s with
  | nil => simp [visitFrames]
  | cons frame frames ih => simp [visitFrames, ih]

mutual

theorem Rule.visit_eq {ε : Type} (f : List Declaration → List Declaration)
    (g : List Declaration → List ε) (s : List ε) (rule : Rule) :
    rule.visit (fun s ds => (f ds, s ++ g ds)) s =
      (rule.mapBlocks f, s ++ rule.blocks.flatMap g) := by
  cases rule with
  | group kind prelude rules =>
      simp [Rule.visit, Rule.mapBlocks, Rule.blocks, visitRules_eq f g s rules]
  | _ => simp [Rule.visit, Rule.mapBlocks, Rule.blocks, visitFrames_eq]

theorem visitRules_eq {ε : Type} (f : List Declaration → List Declaration)
    (g : List Declaration → List ε) (s : List ε) (rules : List Rule) :
    visitRules (fun s ds => (f ds, s ++ g ds)) s rules =
      (mapBlocks f rules, s ++ (blocks rules).flatMap g) := by
  cases rules with
  | nil => simp [visitRules, mapBlocks, blocks]
  | cons rule rules =>
      simp [visitRules, mapBlocks, blocks, rule.visit_eq f g s,
        visitRules_eq f g (s ++ rule.blocks.flatMap g) rules]

end

end CssInliner
