import CssInliner.Stylesheet.Basic

/-!
Keeping what has to do with variables. Style and page rules keep the
declarations that define or mention a variable; font faces and keyframes are
kept whole or not at all; groups stay if more than comments is left in them.
-/

namespace CssInliner

mutual

def Rule.keepVariables : Rule → Option Rule
  | .style selectors ds =>
      let kept := ds.filter Declaration.involvesVariables
      if kept.isEmpty then none else some (.style selectors kept)
  | .page selectors ds =>
      let kept := ds.filter Declaration.involvesVariables
      if kept.isEmpty then none else some (.page selectors kept)
  | .fontFace ds =>
      if ds.any Declaration.involvesVariables then some (.fontFace ds) else none
  | .keyframes vendor name frames =>
      if frames.any fun frame => frame.declarations.any Declaration.involvesVariables then
        some (.keyframes vendor name frames)
      else none
  | .group kind header rules =>
      let kept := keepVariables rules
      if kept.all Rule.isComment then none else some (.group kind header kept)
  | .customMedia name media => some (.customMedia name media)
  | .statement kind value => some (.statement kind value)
  | .comment text => some (.comment text)

/-- The rules that have to do with variables, each cut down to what does. -/
def keepVariables : List Rule → List Rule
  | [] => []
  | rule :: rules => rule.keepVariables.toList ++ keepVariables rules

end

end CssInliner
