import CssInliner.Calc
import CssInliner.Proofs.Lexis.Nesting
import Mathlib.Data.List.Basic
import Mathlib.Data.List.Flatten
import Mathlib.Logic.Relation

/-!
What flattening does to a value. One turn of the rewriting takes a name out of a body, up
to its parenthesis; the turns come to an end, where no call is left in the body. All the
parentheses stay, so the calls of the flattened value are those of the value.
-/

namespace CssInliner.Calc

open Lexis (bare)

/-- The names of a calculation: without a vendor mark, or with one. -/
def IsName (name : Text) : Prop :=
  name = "calc".toList ∨ ∃ letters, letters ≠ [] ∧ (∀ c ∈ letters, Text.isLowercase c = true) ∧
    name = '-' :: (letters ++ "-calc".toList)

section openers

theorem vendorLength_mark {letters : Text} (hne : letters ≠ [])
    (hletters : ∀ c ∈ letters, Text.isLowercase c = true) (t : Text) :
    vendorLength ('-' :: (letters ++ '-' :: t)) = letters.length + 2 := by
  have htake : (letters ++ '-' :: t).takeWhile Text.isLowercase = letters := by
    rw [List.takeWhile_append_of_pos hletters]
    exact List.append_nil letters
  have hdrop : (letters ++ '-' :: t).dropWhile Text.isLowercase = '-' :: t :=
    List.dropWhile_append_of_pos hletters
  have hempty : letters.isEmpty = false := by simpa using hne
  simp [vendorLength, htake, hdrop, hempty]

theorem exists_mark_of_vendorLength {t : Text} (h : vendorLength t ≠ 0) :
    ∃ letters rest, letters ≠ [] ∧ (∀ c ∈ letters, Text.isLowercase c = true) ∧
      '-' :: (letters ++ '-' :: rest) = t ∧ vendorLength t = letters.length + 2 := by
  unfold vendorLength at h ⊢
  split at h
  · next t =>
      dsimp only at h ⊢
      split at h
      · contradiction
      · next hmark =>
          rw [if_neg hmark]
          simp only [Bool.or_eq_true, List.isEmpty_iff, bne_iff_ne, not_or, ne_eq,
            Decidable.not_not] at hmark
          obtain ⟨rest, hrest⟩ := List.head?_eq_some_iff.1 hmark.2
          refine ⟨t.takeWhile Text.isLowercase, rest, hmark.1, ?_, ?_, rfl⟩
          · exact fun c hc => List.all_eq_true.1 List.all_takeWhile c hc
          · rw [← hrest, List.takeWhile_append_dropWhile]
  · contradiction

theorem isNameChar_of_isName {name : Text} (h : IsName name) :
    ∀ c ∈ name, Text.isNameChar c = true := by
  rcases h with rfl | ⟨letters, -, hletters, rfl⟩
  · exact List.all_eq_true.1 rfl
  · have hcalc : ∀ c ∈ "-calc".toList, Text.isNameChar c = true := List.all_eq_true.1 rfl
    intro c hc
    rcases List.mem_cons.1 hc with rfl | hc
    · rfl
    rcases List.mem_append.1 hc with hc | hc
    · rw [Text.isNameChar, hletters c hc]
      rfl
    · exact hcalc c hc

theorem matchAt_of_isName {name : Text} (h : IsName name) (rest : Text) :
    marker.matchAt (name ++ '(' :: rest) = some (name.length + 1) := by
  rcases h with rfl | ⟨letters, hne, hletters, rfl⟩
  · rfl
  · have htext : '-' :: (letters ++ "-calc".toList) ++ '(' :: rest =
        '-' :: (letters ++ '-' :: (calcCall ++ rest)) := by simp [calcCall]
    have hdrop : ('-' :: (letters ++ '-' :: (calcCall ++ rest))).drop (letters.length + 2) =
        calcCall ++ rest := by simp
    rw [htext, marker, Marker.matchAt, measureOpener, vendorLength_mark hne hletters, hdrop,
      Text.dropLead?_append]
    simp [calcCall]

theorem exists_isName_of_matchAt {t : Text} {n : Nat} (h : marker.matchAt t = some n) :
    ∃ name rest, IsName name ∧ name ++ '(' :: rest = t ∧ name.length + 1 = n := by
  simp only [marker, Marker.matchAt, Option.filter_eq_some_iff, measureOpener,
    Option.map_eq_some_iff] at h
  obtain ⟨⟨rest, hrest, rfl⟩, -⟩ := h
  have happend := Text.eq_append_of_dropLead? hrest
  by_cases hvendor : vendorLength t = 0
  · rw [hvendor] at happend ⊢
    exact ⟨"calc".toList, rest, .inl rfl, happend.symm, rfl⟩
  · obtain ⟨letters, behind, hne, hletters, htext, hlength⟩ := exists_mark_of_vendorLength hvendor
    rw [hlength, ← htext] at happend
    obtain rfl : behind = calcCall ++ rest := by simpa using happend
    refine ⟨_, rest, .inr ⟨letters, hne, hletters, rfl⟩, ?_, ?_⟩
    · rw [← htext]
      simp [calcCall]
    · rw [hlength]
      simp [calcCall]

end openers

theorem opensCalls_marker : marker.OpensCalls where
  name h := by
    obtain ⟨name, rest, hname, htext, hlength⟩ := exists_isName_of_matchAt h
    exact ⟨name, rest, htext, hlength, isNameChar_of_isName hname⟩
  anywhere h u := by
    obtain ⟨name, rest, hname, htext, hlength⟩ := exists_isName_of_matchAt h
    obtain ⟨rfl, -⟩ := List.append_inj htext (Nat.succ.inj hlength)
    exact matchAt_of_isName hname u

def Turns (before after : Text) : Prop :=
  ∃ s, Span.first? marker ')' before = some s ∧ parenthesize s = after

theorem Turns.exists_name {t u : Text} (h : Turns t u) :
    ∃ pre name rest, Complete pre ∧ (∀ c ∈ name, Text.isNameChar c = true) ∧
      pre ++ (name ++ '(' :: rest) = t ∧ pre ++ '(' :: rest = u := by
  obtain ⟨s, hs, rfl⟩ := h
  have hleads := Span.leads_of_first? opensCalls_marker hs
  obtain ⟨name, rest, hopener, hlength, hname⟩ := opensCalls_marker.name hleads.opens
  obtain rfl : rest = [] := by simpa [← hopener] using hlength
  refine ⟨s.pre, name, s.body ++ s.close :: s.post, hleads.complete, hname, ?_, ?_⟩
  · rw [← Span.append_of_first? hs, ← hopener]
    simp
  · rw [parenthesize, hleads.closes, List.append_assoc]
    rfl

theorem wellFounded_turns : WellFounded fun after before => Turns before after := by
  refine Subrelation.wf ?_ (InvImage.wf List.length Nat.lt_wfRel.wf)
  rintro after before ⟨s, hs, rfl⟩
  exact length_parenthesize_lt hs

/-- The rewriting ends with a body in which no call is left. -/
theorem turns_unnest (body : Text) : Relation.ReflTransGen Turns body (unnest body) ∧
    Span.first? marker ')' (unnest body) = none := by
  rw [unnest_eq]
  cases h : Span.first? marker ')' body with
  | none => exact ⟨.refl, h⟩
  | some s =>
      have := length_parenthesize_lt h
      obtain ⟨hturns, hlast⟩ := turns_unnest (parenthesize s)
      exact ⟨.head ⟨s, h, rfl⟩ hturns, hlast⟩
termination_by body.length

/-- Whether a piece is there to stay: characters of names may go. -/
def stays : Piece → Bool
  | .char c => !Text.isNameChar c
  | _ => true

section stays

theorem exists_of_not_stays {p : Piece} (h : ¬ stays p = true) :
    ∃ c, p = .char c ∧ Text.isNameChar c = true := by
  cases p with
  | char c => exact ⟨c, rfl, by simpa [stays] using h⟩
  | _ => exact absurd rfl h

theorem foldlM_nest_filter_stays (ps : List Piece) (depth : Nat) :
    (ps.filter stays).foldlM (Span.nest ')') depth = ps.foldlM (Span.nest ')') depth := by
  induction ps generalizing depth with
  | nil => rfl
  | cons p ps ih =>
      by_cases hp : stays p = true
      · rw [List.filter_cons_of_pos hp, List.foldlM_cons, List.foldlM_cons]
        exact congrArg _ (funext ih)
      · obtain ⟨c, rfl, hc⟩ := exists_of_not_stays hp
        rw [List.filter_cons_of_neg hp, ih, List.foldlM_cons, nest_nameChar hc]
        rfl

/-- Apart from the characters of names, a text is that of the pieces that stay. -/
theorem filter_flatMap_stays (ps : List Piece) :
    ((ps.filter stays).flatMap Piece.text).filter (fun c => !Text.isNameChar c) =
      (ps.flatMap Piece.text).filter (fun c => !Text.isNameChar c) := by
  induction ps with
  | nil => rfl
  | cons p ps ih =>
      by_cases hp : stays p = true
      · rw [List.filter_cons_of_pos hp, List.flatMap_cons, List.flatMap_cons, List.filter_append,
          List.filter_append, ih]
      · obtain ⟨c, rfl, hc⟩ := exists_of_not_stays hp
        rw [List.filter_cons_of_neg hp, List.flatMap_cons, List.filter_append, ih]
        simp [Piece.text, hc]

theorem filterMap_quoted_filter_stays (ps : List Piece) :
    (ps.filter stays).filterMap Piece.quoted? = ps.filterMap Piece.quoted? := by
  rw [List.filterMap_filter]
  refine List.filterMap_congr fun p _ => ?_
  by_cases hp : stays p = true
  · rw [if_pos hp]
  · obtain ⟨c, rfl, -⟩ := exists_of_not_stays hp
    rw [if_neg hp]
    rfl

end stays

/-- The second text is the first without some of the characters of its names. -/
structure Thins (t u : Text) : Prop where
  sublist : (bare.pieces u).Sublist (bare.pieces t)
  stay : (bare.pieces u).filter stays = (bare.pieces t).filter stays

namespace Thins

variable {s t u : Text}

theorem refl (t : Text) : Thins t t := ⟨List.Sublist.refl _, rfl⟩

theorem trans (hst : Thins s t) (htu : Thins t u) : Thins s u :=
  ⟨htu.sublist.trans hst.sublist, htu.stay.trans hst.stay⟩

theorem text_sublist (h : Thins t u) : u.Sublist t := by
  rw [← Lexis.flatMap_text_pieces bare u, ← Lexis.flatMap_text_pieces bare t]
  exact h.sublist.flatMap _

theorem filter_eq (h : Thins t u) :
    u.filter (fun c => !Text.isNameChar c) = t.filter (fun c => !Text.isNameChar c) := by
  rw [← Lexis.flatMap_text_pieces bare u, ← Lexis.flatMap_text_pieces bare t,
    ← filter_flatMap_stays, h.stay, filter_flatMap_stays]

theorem quotedIn_eq (h : Thins t u) : marker.quotedIn u = marker.quotedIn t := by
  rw [opensCalls_marker.quotedIn_eq, opensCalls_marker.quotedIn_eq,
    ← filterMap_quoted_filter_stays, h.stay, filterMap_quoted_filter_stays]

theorem foldlM_nest (h : Thins t u) (depth : Nat) :
    (bare.pieces u).foldlM (Span.nest ')') depth =
      (bare.pieces t).foldlM (Span.nest ')') depth := by
  rw [← foldlM_nest_filter_stays, h.stay, foldlM_nest_filter_stays]

end Thins

section turns

variable {t u : Text}

theorem Turns.thins (h : Turns t u) : Thins t u := by
  obtain ⟨pre, name, rest, hpre, hname, rfl, rfl⟩ := h.exists_name
  have hgone : (name.map Piece.char).filter stays = [] := by
    rw [List.filter_eq_nil_iff]
    intro p hp
    obtain ⟨c, hc, rfl⟩ := List.mem_map.1 hp
    simp [stays, hname c hc]
  constructor
  · rw [hpre, hpre, pieces_bare_name hname]
    exact (List.Sublist.refl _).append (List.sublist_append_right _ _)
  · rw [hpre, hpre, pieces_bare_name hname, List.filter_append, List.filter_append,
      List.filter_append, hgone, List.nil_append]

theorem Turns.closed (h : Turns t u) (ht : Closed t) : Closed u := by
  refine ⟨?_, (h.thins.foldlM_nest 0).trans ht.paired⟩
  obtain ⟨pre, name, rest, hpre, hname, rfl, rfl⟩ := h.exists_name
  exact hpre.append ((complete_name hname).of_append (hpre.of_append ht.complete))

theorem thins_of_run (h : Relation.ReflTransGen Turns t u) : Thins t u := by
  induction h with
  | refl => exact .refl t
  | tail _ hturn ih => exact ih.trans hturn.thins

theorem closed_of_run (h : Relation.ReflTransGen Turns t u) (ht : Closed t) : Closed u := by
  induction h with
  | refl => exact ht
  | tail _ hturn ih => exact hturn.closed ih

theorem thins_unnest (body : Text) : Thins body (unnest body) := thins_of_run (turns_unnest body).1

theorem closed_unnest {body : Text} (h : Closed body) : Closed (unnest body) :=
  closed_of_run (turns_unnest body).1 h

theorem unnest_unnest (body : Text) : unnest (unnest body) = unnest body := by
  rw [unnest_eq, (turns_unnest body).2]

/-- No turn is left exactly where no opener is left, in a closed text. -/
theorem forall_not_turns_iff (ht : Closed t) :
    (∀ after, ¬ Turns t after) ↔ marker.find? t = none := by
  have hiff := ht.isSome_find?_iff opensCalls_marker
  constructor
  · intro hlast
    have hnone : Span.first? marker ')' t = none :=
      Option.eq_none_iff_forall_ne_some.2 fun s hs => hlast _ ⟨s, hs, rfl⟩
    simpa [hnone] using hiff
  · rintro hnone after ⟨s, hs, -⟩
    simp [hnone, hs] at hiff

/-- In the body of a call, flattening leaves no opener. -/
theorem occursIn_unnest {body : Text} (h : Closed body) :
    marker.occursIn (unnest body) = false := by
  have hiff := (closed_unnest h).isSome_find?_iff opensCalls_marker
  rw [(turns_unnest body).2] at hiff
  exact Marker.find?_eq_none_iff.1 (by simpa using hiff)

end turns

section flatten

theorem flatten_of_none {value : Text} (h : Span.first? marker ')' value = none) :
    flatten value = value := by
  rw [flatten, Span.all_eq, h]
  rfl

theorem flatten_of_some {value : Text} {s : Span} (h : Span.first? marker ')' value = some s) :
    flatten value = flattenSpan s ++ flatten s.post := by
  rw [flatten, Span.all_eq, h]
  simp [flatten]

def flattened (s : Span) : Span := { s with body := unnest s.body, post := flatten s.post }

/-- The calls of the flattened value are those of the value, flattened. -/
theorem all_flatten (value : Text) :
    Span.all marker ')' (flatten value) =
      ((Span.all marker ')' value).1.map flattened, (Span.all marker ')' value).2) := by
  rw [Span.all_eq marker ')' value]
  cases h : Span.first? marker ')' value with
  | none => rw [flatten_of_none h, Span.all_eq, h]; rfl
  | some s =>
      have hlt := Span.length_post_lt h
      have hleads := Span.leads_of_first? opensCalls_marker h
      -- its body is still closed, so the span leads the flattened text as it led the value
      have hflattened : (flattened s).Leads marker :=
        { hleads with closed := closed_unnest hleads.closed }
      have hfirst : Span.first? marker ')'
          (s.pre ++ s.opener ++ unnest s.body ++ s.close :: flatten s.post) = some (flattened s) :=
        hflattened.first? opensCalls_marker (flatten s.post)
      have htext : flatten value =
          s.pre ++ s.opener ++ unnest s.body ++ s.close :: flatten s.post := by
        rw [flatten_of_some h, flattenSpan, hleads.closes]
        simp
      have hrest : Span.all marker ')' (flattened s).post = _ := all_flatten s.post
      rw [htext, Span.all_eq, hfirst]
      dsimp only
      rw [hrest]
      rfl
termination_by value.length

theorem flatten_flatten (value : Text) : flatten (flatten value) = flatten value := by
  have hspan : ∀ s, flattenSpan (flattened s) = flattenSpan s := by
    intro s
    rw [flattenSpan, flattened, unnest_unnest]
    rfl
  rw [flatten, all_flatten, flatten]
  dsimp only
  rw [List.flatMap_map]
  simp only [hspan]

end flatten

/-- In a flattened value no call holds another, so that it stays as it is when it is
flattened again; and the rewriting that makes it so ends for every body, where there is
nothing left to rewrite. -/
theorem flatten_flat (value : Text) :
    (∀ s ∈ (Span.all marker ')' (flatten value)).1, marker.find? s.body = none) ∧
      flatten (flatten value) = flatten value ∧
        (WellFounded fun after before => Turns before after) ∧
          ∀ body, Relation.ReflTransGen Turns body (unnest body) ∧
            ∀ after, ¬ Turns (unnest body) after := by
  refine ⟨fun s hs => ?_, flatten_flatten value, wellFounded_turns, fun body => ?_⟩
  · rw [all_flatten] at hs
    obtain ⟨before, hbefore, rfl⟩ := List.mem_map.1 hs
    obtain ⟨u, hfirst⟩ := Span.first?_of_mem_all hbefore
    have hclosed := (Span.leads_of_first? opensCalls_marker hfirst).closed
    exact Marker.find?_eq_none_iff.2 (occursIn_unnest hclosed)
  · obtain ⟨hturns, hlast⟩ := turns_unnest body
    refine ⟨hturns, ?_⟩
    rintro after ⟨s, hs, -⟩
    rw [hlast] at hs
    contradiction

/-- The second text is the first with nothing deleted but characters of names, and with
the strings that a search for calculations skips. -/
structure DropsNames (before after : Text) : Prop where
  sublist : after.Sublist before
  rest : after.filter (fun c => !Text.isNameChar c) = before.filter fun c => !Text.isNameChar c
  strings : marker.quotedIn after = marker.quotedIn before

/-- Flattening keeps a value but for the bodies of its calls, and drops no more of a body
than names. -/
theorem flatten_drops_names (value : Text) :
    let spans := (Span.all marker ')' value).1
    let tail := (Span.all marker ')' value).2
    value = (spans.flatMap fun s => s.pre ++ s.opener ++ s.body ++ [')']) ++ tail ∧
      flatten value =
        (spans.flatMap fun s => s.pre ++ s.opener ++ unnest s.body ++ [')']) ++ tail ∧
        ∀ s ∈ spans, DropsNames s.body (unnest s.body) := by
  intro spans tail
  refine ⟨?_, rfl, fun s hs => ?_⟩
  · have hspan : ∀ s ∈ spans, s.pre ++ s.opener ++ s.body ++ [')'] = s.pre ++ s.whole := by
      intro s hs
      obtain ⟨u, hfirst⟩ := Span.first?_of_mem_all hs
      rw [Span.whole, (Span.leads_of_first? opensCalls_marker hfirst).closes]
      simp
    rw [List.flatMap_congr hspan]
    exact (Span.flatMap_all marker ')' value).symm
  · have hthins := thins_unnest s.body
    exact ⟨hthins.text_sublist, hthins.filter_eq, hthins.quotedIn_eq⟩

example : flatten "calc(1px + -webkit-calc(calccalc(2px) ')'))calc(3".toList =
    "calc(1px + ((2px) ')'))calc(3".toList := by decide +kernel

end CssInliner.Calc
