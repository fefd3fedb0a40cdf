import CssInliner.Proofs.Lexis.Pieces
import CssInliner.Proofs.Selectors
import CssInliner.Proofs.Text.Classes

/-!
Selector lists read character by character. All that a reading has to remember is the string
it is in, whether a backslash was last, and how deep in parentheses and brackets it is. A list
is cut at the commas that are met outside all of these. So texts without such a comma that
leave the reading outside are told apart again behind any comma, and what a list is cut into
holds no such comma.
-/

namespace CssInliner.Grammar

/-- Where the reading of a selector list stands. -/
structure SelectorState where
  /-- The quote that closes the string it is in. -/
  quote : Option Char
  /-- Whether a backslash was last, so that the next character means nothing. -/
  escaped : Bool
  /-- How deep it is in parentheses and brackets. -/
  depth : Nat
deriving DecidableEq, Repr

namespace SelectorState

def outside : SelectorState := ⟨none, false, 0⟩

def next (s : SelectorState) (c : Char) : SelectorState :=
  if s.escaped then { s with escaped := false }
  else if c = '\\' then { s with escaped := true }
  else
    match s.quote with
    | some quote => if c = quote then { s with quote := none } else s
    | none =>
        if Text.isQuote c then { s with quote := some c }
        else if c = '(' || c = '[' then { s with depth := s.depth + 1 }
        else if c = ')' || c = ']' then { s with depth := s.depth - 1 }
        else s

def behind (s : SelectorState) (t : Text) : SelectorState := t.foldl next s

/-- No comma of the text is met outside. -/
def Unbroken (s : SelectorState) (t : Text) : Prop :=
  ∀ a b, t = a ++ ',' :: b → s.behind a ≠ outside

/-- The parts of a text between the commas that are met outside. -/
def parts (s : SelectorState) : Text → List Text
  | [] => [[]]
  | c :: t =>
      if c = ',' ∧ s = outside then [] :: parts outside t
      else (parts (s.next c) t).modifyHead (c :: ·)

section Unbroken

variable {s : SelectorState} {c : Char} {t u : Text}

theorem behind_cons (s : SelectorState) (c : Char) (t : Text) :
    s.behind (c :: t) = (s.next c).behind t := rfl

theorem behind_append (s : SelectorState) (t u : Text) :
    s.behind (t ++ u) = (s.behind t).behind u := List.foldl_append

theorem unbroken_nil (s : SelectorState) : s.Unbroken [] := by
  intro a b h
  simp at h

theorem unbroken_cons :
    s.Unbroken (c :: t) ↔ ¬ (c = ',' ∧ s = outside) ∧ (s.next c).Unbroken t := by
  constructor
  · intro h
    refine ⟨fun ⟨hc, hs⟩ => ?_, fun a b ht => ?_⟩
    · exact h [] t (by rw [hc]; rfl) hs
    · exact h (c :: a) b (by rw [ht]; rfl)
  · rintro ⟨hc, ht⟩ a b hsplit
    cases a with
    | nil =>
        obtain ⟨rfl, -⟩ := List.cons.inj hsplit
        exact fun hs => hc ⟨rfl, hs⟩
    | cons d a =>
        obtain ⟨rfl, rfl⟩ := List.cons.inj hsplit
        exact ht a b rfl

theorem Unbroken.of_append (h : s.Unbroken (t ++ u)) : s.Unbroken t := by
  rintro a b rfl
  exact h a (b ++ u) (by simp)

theorem parts_cons (h : ¬ (c = ',' ∧ s = outside)) (t : Text) :
    s.parts (c :: t) = ((s.next c).parts t).modifyHead (c :: ·) := by
  rw [parts, if_neg h]

/-- A text without such a comma belongs to the part that follows it. -/
theorem Unbroken.parts_append (h : s.Unbroken t) (u : Text) :
    s.parts (t ++ u) = ((s.behind t).parts u).modifyHead (t ++ ·) := by
  induction t generalizing s with
  | nil => exact (congrFun List.modifyHead_id _).symm
  | cons c t ih =>
      obtain ⟨hc, ht⟩ := unbroken_cons.1 h
      rw [List.cons_append, parts_cons hc, ih ht, List.modifyHead_modifyHead]
      rfl

theorem Unbroken.parts_eq (h : s.Unbroken t) : s.parts t = [t] := by
  have hparts := h.parts_append []
  rwa [List.append_nil, parts, List.modifyHead_cons, List.append_nil] at hparts

/-- The first part goes on from where the reading stands, all others begin outside. -/
theorem unbroken_parts (s : SelectorState) (t : Text) :
    ∃ part rest, s.parts t = part :: rest ∧ s.Unbroken part ∧ ∀ q ∈ rest, outside.Unbroken q := by
  induction t generalizing s with
  | nil => exact ⟨[], [], rfl, unbroken_nil s, by simp⟩
  | cons c t ih =>
      rw [parts]
      split
      · obtain ⟨part, rest, hparts, hpart, hrest⟩ := ih outside
        refine ⟨[], part :: rest, by rw [hparts], unbroken_nil s, ?_⟩
        exact List.forall_mem_cons.2 ⟨hpart, hrest⟩
      · next hc =>
          obtain ⟨part, rest, hparts, hpart, hrest⟩ := ih (s.next c)
          exact ⟨c :: part, rest, by rw [hparts]; rfl, unbroken_cons.2 ⟨hc, hpart⟩, hrest⟩

theorem unbroken_iff_parts : s.Unbroken t ↔ s.parts t = [t] := by
  refine ⟨Unbroken.parts_eq, fun h => ?_⟩
  obtain ⟨part, rest, hparts, hpart, -⟩ := unbroken_parts s t
  rw [h] at hparts
  obtain ⟨rfl, -⟩ := List.cons.inj hparts
  exact hpart

instance (s : SelectorState) (t : Text) : Decidable (s.Unbroken t) :=
  decidable_of_iff' _ unbroken_iff_parts

end Unbroken

section blank

variable {blank t : Text}

theorem next_outside_of_isBlank {c : Char} (hc : Text.isBlank c = true) :
    outside.next c = outside := by
  have hne : ∀ d, Text.isBlank d = false → c ≠ d := by
    rintro d hd rfl
    rw [hc] at hd
    contradiction
  have hquote : Text.isQuote c = false := by
    refine Bool.eq_false_iff.2 fun hquote => ?_
    rw [Text.isBlank_of_isQuote hquote] at hc
    contradiction
  simp [next, outside, hquote, hne '\\' rfl, hne '(' rfl, hne '[' rfl, hne ')' rfl, hne ']' rfl]

theorem behind_outside_of_isBlank (h : ∀ c ∈ blank, Text.isBlank c = true) :
    outside.behind blank = outside := by
  induction blank with
  | nil => rfl
  | cons c blank ih =>
      obtain ⟨hc, hblank⟩ := List.forall_mem_cons.1 h
      rw [behind_cons, next_outside_of_isBlank hc, ih hblank]

theorem unbroken_append_of_isBlank (h : ∀ c ∈ blank, Text.isBlank c = true) :
    outside.Unbroken (blank ++ t) ↔ outside.Unbroken t := by
  induction blank with
  | nil => rfl
  | cons c blank ih =>
      obtain ⟨hc, hblank⟩ := List.forall_mem_cons.1 h
      have hcomma : c ≠ ',' := by
        rintro rfl
        contradiction
      rw [List.cons_append, unbroken_cons, next_outside_of_isBlank hc, ih hblank]
      simp [hcomma]

theorem Unbroken.trim (h : outside.Unbroken t) : outside.Unbroken t.trim := by
  have hstart : outside.Unbroken t.trimStart := by
    have hblank : ∀ c ∈ t.takeWhile Text.isBlank, Text.isBlank c = true :=
      fun c hc => List.mem_takeWhile_imp hc
    rw [← unbroken_append_of_isBlank hblank, Text.trimStart, List.takeWhile_append_dropWhile]
    exact h
  obtain ⟨blank, hend, -⟩ := Text.exists_blank_of_trimEnd t.trimStart
  rw [hend] at hstart
  exact hstart.of_append

end blank

end SelectorState

open SelectorState

section pieces

variable {quote : Option Char} {depth : Nat} {c : Char}

theorem next_escaped (quote : Option Char) (depth : Nat) (c : Char) :
    next ⟨quote, true, depth⟩ c = ⟨quote, false, depth⟩ := rfl

theorem next_backslash (quote : Option Char) (depth : Nat) :
    next ⟨quote, false, depth⟩ '\\' = ⟨quote, true, depth⟩ := rfl

theorem next_quoted {quote : Char} (hesc : c ≠ '\\') :
    next ⟨some quote, false, depth⟩ c =
      if c = quote then ⟨none, false, depth⟩ else ⟨some quote, false, depth⟩ := by
  simp [next, hesc]

theorem next_unquoted (hesc : c ≠ '\\') :
    next ⟨none, false, depth⟩ c =
      if Text.isQuote c then ⟨some c, false, depth⟩
      else ⟨none, false, selectorDepth depth (.char c)⟩ := by
  by_cases hquote : Text.isQuote c = true
  · simp [next, hesc, hquote]
  · by_cases hopen : c = '(' ∨ c = '['
    · rcases hopen with rfl | rfl <;> rfl
    by_cases hclose : c = ')' ∨ c = ']'
    · rcases hclose with rfl | rfl <;> rfl
    rw [not_or] at hopen hclose
    simp [next, hesc, hquote, selectorDepth, hopen, hclose]

theorem parts_quoted {quote : Char} (depth : Nat) :
    ∀ t, parts ⟨some quote, false, depth⟩ t =
      (parts ⟨none, false, depth⟩ (throughQuote quote t).2).modifyHead
        ((throughQuote quote t).1 ++ ·)
  | [] => rfl
  | c :: t => by
      rw [parts_cons (by simp [outside])]
      by_cases hesc : c = '\\'
      · subst hesc
        rw [next_backslash]
        cases t with
        | nil =>
          simp [throughQuote, parts]
        | cons d t =>
            rw [parts_cons (by simp [outside]), next_escaped, parts_quoted depth t,
              List.modifyHead_modifyHead, List.modifyHead_modifyHead, throughQuote]
            rfl
      · rw [next_quoted hesc, throughQuote_cons hesc]
        by_cases hc : c = quote
        · rw [if_pos hc, if_pos hc]
          rfl
        · rw [if_neg hc, if_neg hc, parts_quoted depth t, List.modifyHead_modifyHead]
          rfl

theorem splitPieces_eq_parts (depth : Nat) (t : Text) :
    splitPieces depth (selectorLexis.pieces t) = parts ⟨none, false, depth⟩ t := by
  cases t with
  | nil =>
      rw [Lexis.pieces_nil]
      rfl
  | cons c t =>
      by_cases hesc : c = '\\'
      · subst hesc
        have hstep : selectorLexis.step ('\\' :: t) =
            some (.escape ('\\' :: t.take 1), t.drop 1) := rfl
        have hlt : (t.drop 1).length ≤ t.length :=
          Nat.le_of_lt_succ (Lexis.length_lt_of_step hstep)
        rw [Lexis.pieces_of_step hstep, splitPieces_cons (by simp), parts_cons (by simp),
          splitPieces_eq_parts _ (t.drop 1), next_backslash]
        cases t with
        | nil => rfl
        | cons d t =>
            rw [parts_cons (by simp [outside]), next_escaped, List.modifyHead_modifyHead]
            rfl
      by_cases hquote : Text.isQuote c = true
      · have hstep : selectorLexis.step (c :: t) =
            some (.quoted (c :: (throughQuote c t).1), (throughQuote c t).2) := by
          refine (Lexis.step_bare c t).trans ?_
          rw [if_neg hesc, if_pos hquote]
        have hcomma : c ≠ ',' := by
          rintro rfl
          contradiction
        have hlt : (throughQuote c t).2.length ≤ t.length :=
          Nat.le_of_lt_succ (Lexis.length_lt_of_step hstep)
        rw [Lexis.pieces_of_step hstep, splitPieces_cons (by simp), parts_cons (by simp [hcomma]),
          splitPieces_eq_parts _ (throughQuote c t).2, next_unquoted hesc, if_pos hquote,
          parts_quoted, List.modifyHead_modifyHead]
        rfl
      · have hstep : selectorLexis.step (c :: t) = some (.char c, t) :=
          Lexis.step_bare_char hesc (Bool.eq_false_iff.2 hquote) t
        rw [Lexis.pieces_of_step hstep]
        by_cases hcut : c = ',' ∧ depth = 0
        · obtain ⟨rfl, rfl⟩ := hcut
          have hparts := splitPieces_eq_parts 0 t
          rw [splitPieces_comma, hparts, parts, if_pos ⟨rfl, rfl⟩]
          rfl
        · have hstay : ¬ (c = ',' ∧ (⟨none, false, depth⟩ : SelectorState) = outside) := by
            simpa [outside] using hcut
          rw [splitPieces_cons (by simpa using hcut), parts_cons hstay,
            splitPieces_eq_parts _ t, next_unquoted hesc, if_neg hquote]
          rfl
termination_by t.length

theorem splitSelectors_eq_parts (t : Text) :
    splitSelectors t = ((parts outside t).map Text.trim).filter fun s => !s.isEmpty := by
  rw [splitSelectors, splitPieces_eq_parts]
  rfl

end pieces

/-- Selectors that can be told apart in a list: each of them is trimmed and holds no comma
outside, and each but the last leaves the reading outside. -/
structure Separable (selectors : List Text) : Prop where
  ne_nil : selectors ≠ []
  trimmed : ∀ s ∈ selectors, s ≠ [] ∧ s.trim = s
  unbroken : ∀ s ∈ selectors, outside.Unbroken s
  closed : ∀ s ∈ selectors.dropLast, outside.behind s = outside

theorem parts_join {blank : Text} (hblank : ∀ c ∈ blank, Text.isBlank c = true)
    {selectors : List Text} (h : Separable selectors) {lead : Text}
    (hlead : ∀ c ∈ lead, Text.isBlank c = true) :
    (outside.parts (lead ++ Text.join (',' :: blank) selectors)).map Text.trim = selectors := by
  induction selectors generalizing lead with
  | nil => exact absurd rfl h.ne_nil
  | cons s ss ih =>
      have hs : outside.Unbroken (lead ++ s) :=
        (unbroken_append_of_isBlank hlead).2 (h.unbroken s List.mem_cons_self)
      have htrim : Text.trim (lead ++ s) = s := by
        rw [Text.trim_blank_append hlead, (h.trimmed s List.mem_cons_self).2]
      cases ss with
      | nil => rw [Text.join, hs.parts_eq, List.map_singleton, htrim]
      | cons u us =>
          have hclosed : outside.behind (lead ++ s) = outside := by
            rw [behind_append, behind_outside_of_isBlank hlead]
            exact h.closed s (by simp)
          have hrest : Separable (u :: us) :=
            ⟨by simp, fun v hv => h.trimmed v (List.mem_cons_of_mem s hv),
              fun v hv => h.unbroken v (List.mem_cons_of_mem s hv),
              fun v hv => h.closed v (List.mem_cons_of_mem s hv)⟩
          have htext : lead ++ Text.join (',' :: blank) (s :: u :: us) =
              lead ++ s ++ ',' :: (blank ++ Text.join (',' :: blank) (u :: us)) := by
            simp [Text.join]
          rw [htext, hs.parts_append, hclosed, SelectorState.parts, if_pos ⟨rfl, rfl⟩,
            List.modifyHead_cons, List.append_nil, List.map_cons, htrim, ih hrest hblank]

theorem splitSelectors_join_blank {blank : Text} (hblank : ∀ c ∈ blank, Text.isBlank c = true)
    {selectors : List Text} (h : Separable selectors) :
    splitSelectors (Text.join (',' :: blank) selectors) = selectors := by
  have hparts : (outside.parts ([] ++ Text.join (',' :: blank) selectors)).map Text.trim =
      selectors := parts_join hblank h (by simp)
  rw [List.nil_append] at hparts
  rw [splitSelectors_eq_parts, hparts]
  exact List.filter_eq_self.2 fun s hs => by simpa using (h.trimmed s hs).1

theorem unbroken_of_mem_splitSelectors {s t : Text} (h : s ∈ splitSelectors t) :
    outside.Unbroken s := by
  rw [splitSelectors_eq_parts] at h
  obtain ⟨part, hpart, rfl⟩ := List.mem_map.1 (List.mem_filter.1 h).1
  obtain ⟨first, rest, hparts, hfirst, hrest⟩ := unbroken_parts outside t
  rw [hparts] at hpart
  exact (List.forall_mem_cons.2 ⟨hfirst, hrest⟩ part hpart).trim

/-- Selectors that can be told apart are what a list of them is cut into, with a comma or with
a comma and a space between each two. Whatever a list is cut into is trimmed, is not empty and
holds no comma outside strings, escapes, parentheses and brackets. -/
theorem splitSelectors_inverts_join :
    (∀ selectors, Separable selectors →
      splitSelectors (Text.join [','] selectors) = selectors ∧
        splitSelectors (Text.join ", ".toList selectors) = selectors) ∧
      ∀ t, ∀ s ∈ splitSelectors t, s ≠ [] ∧ s.trim = s ∧ outside.Unbroken s := by
  refine ⟨fun selectors h => ⟨?_, ?_⟩, fun t s hs => ?_⟩
  · exact splitSelectors_join_blank (by simp) h
  · exact splitSelectors_join_blank (List.forall_mem_singleton.2 rfl) h
  · obtain ⟨hne, htrim⟩ := of_mem_splitSelectors hs
    exact ⟨hne, htrim, unbroken_of_mem_splitSelectors hs⟩

/-- Commas in parentheses and in a string, and an escaped one; only the last selector leaves a
bracket open. -/
theorem splitSelectors_inverts_join_sample :
    let selectors := [":is(a, b) > p".toList, "a[title=\"x,y\"]".toList, "c\\,d[e,f".toList]
    Separable selectors ∧
      splitSelectors (Text.join [','] selectors) = selectors ∧
        splitSelectors (Text.join ", ".toList selectors) = selectors ∧
          ∀ s ∈ splitSelectors "a\\ , b".toList, s ≠ [] ∧ s.trim = s ∧ outside.Unbroken s := by
  intro selectors
  have h : Separable selectors :=
    ⟨by decide, by decide +kernel, by decide +kernel, by decide +kernel⟩
  obtain ⟨hjoin, hsplit⟩ := splitSelectors_inverts_join
  exact ⟨h, (hjoin selectors h).1, (hjoin selectors h).2, hsplit _⟩

end CssInliner.Grammar
