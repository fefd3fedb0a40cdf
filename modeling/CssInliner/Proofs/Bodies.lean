import CssInliner.Proofs.Calc
import CssInliner.Proofs.Variables.Scan

/-!
The bodies of calls. The search that finds a call reads its body one level down, and the body is
searched again from its own start. Both see the same, since the parentheses of a body pair up among
themselves; and since a turn of the rewriting takes a name and leaves its parenthesis, they go on to
do so after any number of turns, even where a turn puts a longer opener together.
-/

namespace CssInliner

/-- The markers of the calls that are looked for. -/
def callMarkers : List Marker := [variableMarker, Calc.marker]

theorem opensCalls_of_mem {M : Marker} (h : M ∈ callMarkers) : M.OpensCalls := by
  rcases List.mem_pair.1 h with rfl | rfl
  · exact opensCalls_variableMarker
  · exact Calc.opensCalls_marker

/-- In the body of a closed call, and in what any number of turns make of it, an opener is found
exactly if a closed call is. So the turns come to an end only where no opener is left. -/
theorem find?_body_iff {M N : Marker} (hM : M ∈ callMarkers) (hN : N ∈ callMarkers) {t body : Text}
    {s : Span} (h : Span.first? M ')' t = some s)
    (hturns : Relation.ReflTransGen Calc.Turns s.body body) :
    ((N.find? body).isSome ↔ (Span.first? N ')' body).isSome) ∧
      ((∀ after, ¬ Calc.Turns body after) ↔ Calc.marker.find? body = none) ∧
        Calc.marker.find? (Calc.unnest body) = none := by
  have hclosed : Closed body :=
    Calc.closed_of_run hturns (Span.leads_of_first? (opensCalls_of_mem hM) h).closed
  exact ⟨hclosed.isSome_find?_iff (opensCalls_of_mem hN), Calc.forall_not_turns_iff hclosed,
    Marker.find?_eq_none_iff.2 (Calc.occursIn_unnest hclosed)⟩

/-- A turn can put an opener together where none was before, and its call is closed as well. -/
theorem find?_body_sample :
    Span.first? variableMarker ')' "var(--b,varcalc(--a))".toList =
        some ⟨[], "var(".toList, "--b,varcalc(--a)".toList, ')', []⟩ ∧
      Calc.Turns "--b,varcalc(--a)".toList "--b,var(--a)".toList ∧
        variableMarker.find? "--b,varcalc(--a)".toList = none ∧
          (variableMarker.find? "--b,var(--a)".toList).isSome ∧
            (Span.first? variableMarker ')' "--b,var(--a)".toList).isSome := by
  have hfirst : Span.first? variableMarker ')' "var(--b,varcalc(--a))".toList =
      some ⟨[], "var(".toList, "--b,varcalc(--a)".toList, ')', []⟩ := by decide +kernel
  have hturn : Calc.Turns "--b,varcalc(--a)".toList "--b,var(--a)".toList :=
    ⟨⟨"--b,var".toList, "calc(".toList, "--a".toList, ')', []⟩, by decide +kernel, rfl⟩
  have hfound : (variableMarker.find? "--b,var(--a)".toList).isSome := by decide +kernel
  have hmem : variableMarker ∈ callMarkers := List.mem_cons_self
  have hclosed := (find?_body_iff hmem hmem hfirst (.single hturn)).1.1 hfound
  exact ⟨hfirst, hturn, by decide +kernel, hfound, hclosed⟩

end CssInliner
