import CssInliner.Stylesheet.Basic

/-!
Equality of trees can be decided. Rules nest in lists, so the test goes through
rules and lists of rules together.
-/

namespace CssInliner

mutual

def Rule.decideEq : (r s : Rule) → Decidable (r = s)
  | .style ss ds, .style ss' ds' => decidable_of_iff (ss = ss' ∧ ds = ds') (by simp)
  | .page ss ds, .page ss' ds' => decidable_of_iff (ss = ss' ∧ ds = ds') (by simp)
  | .fontFace ds, .fontFace ds' => decidable_of_iff (ds = ds') (by simp)
  | .keyframes v n fs, .keyframes v' n' fs' =>
      decidable_of_iff (v = v' ∧ n = n' ∧ fs = fs') (by simp)
  | .group k h rs, .group k' h' rs' =>
      match decideEqRules rs rs' with
      | isTrue hrs => decidable_of_iff (k = k' ∧ h = h') (by simp [hrs])
      | isFalse hrs => isFalse (by simp [hrs])
  | .customMedia n m, .customMedia n' m' => decidable_of_iff (n = n' ∧ m = m') (by simp)
  | .statement k v, .statement k' v' => decidable_of_iff (k = k' ∧ v = v') (by simp)
  | .comment t, .comment t' => decidable_of_iff (t = t') (by simp)
  | .style .., .page .. | .style .., .fontFace .. | .style .., .keyframes ..
  | .style .., .group .. | .style .., .customMedia .. | .style .., .statement ..
  | .style .., .comment .. => isFalse (by simp)
  | .page .., .style .. | .page .., .fontFace .. | .page .., .keyframes ..
  | .page .., .group .. | .page .., .customMedia .. | .page .., .statement ..
  | .page .., .comment .. => isFalse (by simp)
  | .fontFace .., .style .. | .fontFace .., .page .. | .fontFace .., .keyframes ..
  | .fontFace .., .group .. | .fontFace .., .customMedia .. | .fontFace .., .statement ..
  | .fontFace .., .comment .. => isFalse (by simp)
  | .keyframes .., .style .. | .keyframes .., .page .. | .keyframes .., .fontFace ..
  | .keyframes .., .group .. | .keyframes .., .customMedia .. | .keyframes .., .statement ..
  | .keyframes .., .comment .. => isFalse (by simp)
  | .group .., .style .. | .group .., .page .. | .group .., .fontFace ..
  | .group .., .keyframes .. | .group .., .customMedia .. | .group .., .statement ..
  | .group .., .comment .. => isFalse (by simp)
  | .customMedia .., .style .. | .customMedia .., .page .. | .customMedia .., .fontFace ..
  | .customMedia .., .keyframes .. | .customMedia .., .group .. | .customMedia .., .statement ..
  | .customMedia .., .comment .. => isFalse (by simp)
  | .statement .., .style .. | .statement .., .page .. | .statement .., .fontFace ..
  | .statement .., .keyframes .. | .statement .., .group .. | .statement .., .customMedia ..
  | .statement .., .comment .. => isFalse (by simp)
  | .comment .., .style .. | .comment .., .page .. | .comment .., .fontFace ..
  | .comment .., .keyframes .. | .comment .., .group .. | .comment .., .customMedia ..
  | .comment .., .statement .. => isFalse (by simp)

def decideEqRules : (rs ss : List Rule) → Decidable (rs = ss)
  | [], [] => isTrue rfl
  | [], _ :: _ => isFalse (by simp)
  | _ :: _, [] => isFalse (by simp)
  | r :: rs, s :: ss =>
      match r.decideEq s, decideEqRules rs ss with
      | isTrue hr, isTrue hrs => isTrue (by rw [hr, hrs])
      | isFalse hr, _ => isFalse (by simp [hr])
      | _, isFalse hrs => isFalse (by simp [hrs])

end

instance : DecidableEq Rule := Rule.decideEq

end CssInliner
