import CssInliner.Proofs.Declarations
import CssInliner.Proofs.Variables.Joints
import CssInliner.Proofs.Variables.Sites
import CssInliner.Stylesheet.Equality

/-!
The calls that an expansion leaves in its text, and resolving a sheet twice. Where no
text that is put in runs into what stands beside it, the result shows no call but those
that were left. A call that was left for its own sake is left again, so that there is
nothing more to resolve. Other calls need not be: text from several places can show a
call that none of them held, and a call that was left because of the names being
expanded around it can come to something once it stands by itself.
-/

namespace CssInliner

open Expansion

/-- The arguments of a call that is left in the expansion of a text. -/
def Leaves (vars : VariableMap) (x : Site) (arguments : Text) : Prop :=
  ∃ y, Uses vars x y ∧ y.source? vars arguments = none ∧ ∃ s ∈ y.calls, s.body = arguments

theorem Leaves.of_pastes {vars : VariableMap} {x y : Site} {arguments : Text}
    (h : Leaves vars y arguments) (hxy : Pastes vars x y) : Leaves vars x arguments := by
  obtain ⟨z, hz, hleft⟩ := h
  exact ⟨z, .head hxy hz, hleft⟩

/-- The text between the calls of a text, and behind the last of them, stays apart from
what is put beside it, also in the texts that are put in. -/
structure Apart (vars : VariableMap) (x : Site) : Prop where
  between : ∀ y, Uses vars x y → ∀ s ∈ y.calls, Sealed s.pre
  behind : ∀ y, Uses vars x y → ∀ z, Pastes vars y z →
    Sealed z.tail ∧ variableMarker.occursIn z.tail = false

theorem Apart.of_pastes {vars : VariableMap} {x y : Site} (h : Apart vars x)
    (hxy : Pastes vars x y) : Apart vars y where
  between z hz := h.between z (.head hxy hz)
  behind z hz := h.behind z (.head hxy hz)

/-- Up to the last call, an expansion shows no call but those it leaves. -/
theorem showsOnly_leaves {vars : VariableMap} {x : Site} (h : Apart vars x) :
    ShowsOnly (Leaves vars x) (x.calls.flatMap fun s => s.pre ++ x.shown vars s) := by
  refine .flatMap fun s hs => ?_
  have hpre : ShowsOnly (Leaves vars x) s.pre :=
    ⟨[], shows_pre hs (h.between x .refl s hs), by simp⟩
  refine hpre.append ?_
  rw [Site.shown]
  cases hsource : x.source? vars s.body with
  | none =>
      refine ⟨[s.body], shows_whole hs, fun arguments harguments => ?_⟩
      obtain rfl := List.mem_singleton.1 harguments
      exact ⟨x, .refl, hsource, s, hs, rfl⟩
  | some y =>
      have hpastes : Pastes vars x y := ⟨s, hs, hsource⟩
      have hlevels := Site.levels_of_source? hsource
      obtain ⟨hsealed, hclosed⟩ := h.behind x .refl y hpastes
      dsimp only
      rw [Site.text_expansion]
      have hfront : ShowsOnly (Leaves vars x)
          (y.calls.flatMap fun s => s.pre ++ y.shown vars s) :=
        (showsOnly_leaves (h.of_pastes hpastes)).mono fun _ hleft => hleft.of_pastes hpastes
      have htail : ShowsOnly (Leaves vars x) y.tail :=
        ⟨[], shows_of_not_occursIn hsealed hclosed, by simp⟩
      exact hfront.append htail
termination_by x.levels

theorem leaves_of_mem_calls {vars : VariableMap} {x : Site} (h : Apart vars x) {s : Span}
    (hs : s ∈ (Span.all variableMarker ')' (x.expansion vars).value.text).1) :
    Leaves vars x s.body := by
  obtain ⟨bodies, hshows, hbodies⟩ := showsOnly_leaves h
  refine hbodies s.body ?_
  have hbody := List.mem_map_of_mem (f := Span.body) hs
  -- nothing but the text behind the last call may be cut anew
  rw [Site.text_expansion, map_body_all, hshows.sealed, Scan.calls_append, hshows.calls_eq,
    hshows.closed, ← map_body_all, Site.tail, Span.all_tail, List.map_nil,
    List.append_nil] at hbody
  exact hbody

/-- What is put together stays apart, and what is left in it is left for its own sake. -/
structure Settles (vars : VariableMap) (value : Text) : Prop where
  apart : Apart vars (.top value)
  blameless : ∀ x, Uses vars (.top value) x → ∀ s ∈ x.calls, x.source? vars s.body = none →
    ∀ w ∈ (x.answer vars s.body).warnings, ¬ w.Blames x.active (maxDepth - x.levels)

namespace Settles

variable {vars : VariableMap} {value : Text}

theorem respond_eq_none (h : Settles vars value) {arguments : Text}
    (hleft : Leaves vars (.top value) arguments) :
    (respond vars maxDepth [] arguments).value = none := by
  obtain ⟨x, hx, hsource, s, hs, rfl⟩ := hleft
  have hsame : respond vars (x.levels + (maxDepth - x.levels)) [] s.body =
      respond vars x.levels x.active s.body :=
    Expansion.respond_eq (h.blameless x hx s hs hsource)
  have hlevels : x.levels ≤ maxDepth := hx.levels_le
  rw [Nat.add_sub_cancel' hlevels] at hsame
  rw [hsame]
  exact (x.value_answer vars s.body).trans (by rw [hsource]; rfl)

end Settles

theorem text?_ofExpansion (e : Expansion) :
    (Resolution.ofExpansion e).text? = e.unlessFailed.map Expansion.text := by
  rw [Resolution.ofExpansion, unlessFailed, failed]
  by_cases hunresolved : e.unresolved = 0
  · simp [hunresolved, Resolution.text?]
  · have hpos : 0 < e.unresolved := Nat.pos_of_ne_zero hunresolved
    by_cases hsubstituted : e.substituted = 0 <;>
      simp [hunresolved, hpos, hsubstituted, Resolution.text?]

theorem resolveDeclaration_of_none {vars : VariableMap} {d : Declaration}
    (h : ∀ s ∈ (Span.all variableMarker ')' d.value).1,
      (respond vars maxDepth [] s.body).value = none) (preserve : Bool) :
    (resolveDeclaration vars preserve d).1 = [d] := by
  have htext := text_assemble_of_none h
  rw [← expand_eq_assemble] at htext
  cases hmentions : d.mentionsVariable with
  | false => rw [resolveDeclaration_of_not_mentions hmentions]
  | true =>
      simp only [resolveDeclaration, hmentions, resolveValue, text?_ofExpansion, unlessFailed]
      cases (expand vars maxDepth [] d.value).value.failed <;> simp [htext]

theorem resolveDeclaration_eq_or (vars : VariableMap) (d : Declaration) :
    (resolveDeclaration vars false d).1 = [d] ∨
      (resolveDeclaration vars false d).1 =
        [⟨d.property, ((Site.top d.value).expansion vars).value.text⟩] := by
  cases hmentions : d.mentionsVariable with
  | false => exact .inl (by rw [resolveDeclaration_of_not_mentions hmentions])
  | true =>
      have htext : (resolveValue vars d.value).value.text? =
          ((Site.top d.value).expansion vars).value.unlessFailed.map Expansion.text :=
        text?_ofExpansion _
      simp only [resolveDeclaration, hmentions, htext, unlessFailed]
      cases ((Site.top d.value).expansion vars).value.failed with
      | true => exact .inl rfl
      | false =>
          by_cases hsame : ((Site.top d.value).expansion vars).value.text = d.value
          · simp [hsame]
          · simp [hsame]

theorem resolveDeclaration_of_settles {vars : VariableMap} {d d' : Declaration}
    (h : (resolveDeclaration vars false d).1 ≠ [d] → Settles vars d.value)
    (hd' : d' ∈ (resolveDeclaration vars false d).1) :
    (resolveDeclaration vars false d').1 = [d'] := by
  by_cases hsame : (resolveDeclaration vars false d).1 = [d]
  · rw [hsame] at hd'
    rw [List.mem_singleton.1 hd', hsame]
  · have hsettles := h hsame
    rw [(resolveDeclaration_eq_or vars d).resolve_left hsame] at hd'
    obtain rfl := List.mem_singleton.1 hd'
    exact resolveDeclaration_of_none (fun s hs =>
      hsettles.respond_eq_none (leaves_of_mem_calls hsettles.apart hs)) false

/-- Resolving a sheet again changes nothing where every value that changes settles. -/
theorem Stylesheet.resolve_resolve {vars : VariableMap} {sheet : Stylesheet}
    (h : ∀ d ∈ declarations sheet, (resolveDeclaration vars false d).1 ≠ [d] →
      Settles vars d.value) :
    ((sheet.resolve vars false).1.resolve vars false).1 = (sheet.resolve vars false).1 :=
  sheet.resolve_resolve_of_forall vars false fun d hd _ => resolveDeclaration_of_settles (h d hd)

/-- Two variables that call each other keep a value from being resolved, but not from
settling. -/
theorem Stylesheet.resolve_resolve_sample :
    let vars := VariableMap.insertAll ∅
      [("--a".toList, "var(--b)".toList), ("--b".toList, "var(--a)".toList),
        ("--c".toList, "1px".toList)]
    let sheet : Stylesheet := [.style ["a".toList] [⟨"b".toList, "var(--c) var(--a)".toList⟩]]
    (sheet.resolve vars false).1 =
        [.style ["a".toList] [⟨"b".toList, "1px var(--a)".toList⟩]] ∧
      ((sheet.resolve vars false).1.resolve vars false).1 = (sheet.resolve vars false).1 := by
  intro vars sheet
  let top : Site := .top "var(--c) var(--a)".toList
  let inner : Site := ⟨31, ["--c".toList], "1px".toList⟩
  have hcalls : top.calls = [⟨[], "var(".toList, "--c".toList, ')', " var(--a)".toList⟩,
      ⟨" ".toList, "var(".toList, "--a".toList, ')', []⟩] := by decide +kernel
  have hinner : inner.calls = [] := by decide +kernel
  have hsources : top.source? vars "--c".toList = some inner ∧
      top.source? vars "--a".toList = none := by decide +kernel
  have hwarnings : (top.answer vars "--a".toList).warnings = [.cycle "--a".toList] := by
    decide +kernel
  have hpastes : ∀ {x}, Pastes vars top x → x = inner := by
    rintro x ⟨s, hs, hsource⟩
    simp only [hcalls, List.mem_cons, List.not_mem_nil, or_false] at hs
    rcases hs with rfl | rfl
    · exact Option.some.inj (hsource.symm.trans hsources.1)
    · exact absurd (hsource.symm.trans hsources.2) (Option.some_ne_none x)
  have huses : ∀ {x}, Uses vars top x → x = top ∨ x = inner := by
    intro x hx
    induction hx with
    | refl => exact .inl rfl
    | tail _ hstep ih =>
        rcases ih with rfl | rfl
        · exact .inr (hpastes hstep)
        · obtain ⟨s, hs, -⟩ := hstep
          simp [hinner] at hs
  have hsettles : Settles vars "var(--c) var(--a)".toList := by
    refine ⟨⟨fun x hx => ?_, fun x hx y hy => ?_⟩, fun x hx => ?_⟩
    · rcases huses hx with rfl | rfl
      · rw [hcalls]
        decide +kernel
      · simp [hinner]
    · rcases huses (hx.tail hy) with rfl | rfl
      · decide +kernel
      · decide +kernel
    · rcases huses hx with rfl | rfl
      · intro s hs hsource w hw
        simp only [hcalls, List.mem_cons, List.not_mem_nil, or_false] at hs
        rcases hs with rfl | rfl
        · exact absurd (hsources.1.symm.trans hsource) (Option.some_ne_none inner)
        · rw [hwarnings] at hw
          obtain rfl := List.mem_singleton.1 hw
          simp [Warning.Blames, top, Site.top]
      · simp [hinner]
  refine ⟨by decide +kernel, resolve_resolve fun d hd _ => ?_⟩
  have hd : d ∈ [⟨"b".toList, "var(--c) var(--a)".toList⟩] := hd
  obtain rfl := List.mem_singleton.1 hd
  exact hsettles

/-- A variable that refers to itself and to another grows with every run. -/
theorem Stylesheet.resolve_grows_sample :
    let vars := VariableMap.insertAll ∅
      [("--a".toList, "var(--a) var(--c)".toList), ("--c".toList, "1".toList)]
    let sheet : Stylesheet := [.style ["a".toList] [⟨"b".toList, "var(--a)".toList⟩]]
    (sheet.resolve vars false).1 =
        [.style ["a".toList] [⟨"b".toList, "var(--a) 1".toList⟩]] ∧
      ((sheet.resolve vars false).1.resolve vars false).1 =
        [.style ["a".toList] [⟨"b".toList, "var(--a) 1 1".toList⟩]] := by
  intro vars sheet
  refine ⟨?_, ?_⟩
  all_goals decide +kernel

end CssInliner
