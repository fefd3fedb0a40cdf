import CssInliner.Proofs.Lookahead.Declaration

/-!
Parsers to which a certain character is the same as the end of the text. What
they read from a text by itself they read in front of that character as well,
whatever comes behind it.
-/

namespace CssInliner

/-- The outcome with more text behind what it leaves. -/
def Outcome.behind {α : Type} (u : Text) : Outcome α → Outcome α
  | .matched a rest => .matched a (rest ++ u)
  | .mismatch => .mismatch
  | .failure d rest => .failure d (rest ++ u)

namespace Parser

variable {α β : Type} {p q : Parser α} {stop : Char}

/-- The character means to the parser what the end of the text means. -/
def StopsAt (stop : Char) (p : Parser α) : Prop :=
  ∀ t u, p (t ++ stop :: u) = (p t).behind (stop :: u)

theorem StopsAt.matched (hp : p.StopsAt stop) {t r : Text} {a : α} (h : p t = .matched a r)
    (u : Text) : p (t ++ stop :: u) = .matched a (r ++ stop :: u) := by
  rw [hp, h]
  rfl

/-- What is read right up to the character is read from the text by itself. -/
theorem StopsAt.matched_nil (hp : p.StopsAt stop) {t : Text} {a : α} {u : Text}
    (h : p (t ++ stop :: u) = .matched a (stop :: u)) : p t = .matched a [] := by
  rw [hp] at h
  cases ht : p t with
  | mismatch =>
      rw [ht] at h
      contradiction
  | failure d r =>
      rw [ht] at h
      contradiction
  | matched b r =>
      rw [ht] at h
      obtain ⟨rfl, hr⟩ := Outcome.matched.inj h
      obtain rfl : r = [] := by simpa using hr
      rfl

theorem stopsAt_pure (a : α) : (pure a : Parser α).StopsAt stop := fun _ _ => rfl

theorem StopsAt.bind {f : α → Parser β} (hp : p.StopsAt stop) (hf : ∀ a, (f a).StopsAt stop) :
    (p >>= f).StopsAt stop := by
  intro t u
  rw [bind_apply, bind_apply, hp]
  cases p t with
  | matched a r => exact hf a r u
  | mismatch => rfl
  | failure d r => rfl

theorem StopsAt.orElse (hp : p.StopsAt stop) (hq : q.StopsAt stop) :
    (p.orElse q).StopsAt stop := by
  intro t u
  rw [Parser.orElse, Parser.orElse, hp]
  cases p t with
  | matched a r => rfl
  | mismatch => exact hq t u
  | failure d r => rfl

theorem StopsAt.optional (hp : p.StopsAt stop) : p.optional.StopsAt stop := by
  intro t u
  rw [Parser.optional, Parser.optional, hp]
  cases p t <;> rfl

theorem stopsAt_takeWhile1 {test : Char → Bool} (h : test stop = false) :
    (takeWhile1 test).StopsAt stop := by
  intro t u
  cases t with
  | nil => simp [takeWhile1, h, Outcome.behind]
  | cons c t =>
      cases hc : test c with
      | false => simp [takeWhile1, hc, Outcome.behind]
      | true =>
          have hbehind : takeWhile test (t ++ stop :: u) =
              .matched (t.takeWhile test) (t.dropWhile test ++ stop :: u) := by
            refine takeWhile_eq_matched.2 ⟨?_, ?_, ?_⟩
            · rw [← List.append_assoc, List.takeWhile_append_dropWhile]
            · exact fun d hd => List.all_eq_true.1 List.all_takeWhile d hd
            · intro d hd
              cases hdrop : t.dropWhile test with
              | nil =>
                  rw [hdrop] at hd
                  obtain rfl : stop = d := by simpa using hd
                  exact h
              | cons e r =>
                  rw [hdrop] at hd
                  obtain rfl : e = d := by simpa using hd
                  have := List.head?_dropWhile_not test t
                  rw [hdrop] at this
                  simpa using this
          obtain ⟨htake, hdrop⟩ := Outcome.matched.inj hbehind
          simp [takeWhile1, hc, Outcome.behind, htake, hdrop]

theorem stopsAt_char {c : Char} (h : c ≠ stop) : (char c).StopsAt stop := by
  intro t u
  cases t with
  | nil => simp [char, literal, Text.dropLead?, h, Outcome.behind]
  | cons d t =>
      by_cases hd : c = d
      · simp [char, literal, Text.dropLead?, hd, Outcome.behind]
      · simp [char, literal, Text.dropLead?, hd, Outcome.behind]

end Parser

namespace Grammar

open CssInliner.Parser

theorem stopsAt_propertyName : propertyName.StopsAt ':' :=
  (stopsAt_takeWhile1 (by decide)).bind fun _ =>
    StopsAt.bind (StopsAt.optional
      ((stopsAt_char (by decide)).bind fun _ => (stopsAt_takeWhile1 rfl).bind fun _ =>
        (stopsAt_char (by decide)).bind fun _ => stopsAt_pure _)) fun _ => stopsAt_pure _

theorem stopsAt_keyframeSelector (stop : Char) (hdigit : Text.isDigit stop = false)
    (hlower : Text.isLowercase stop = false) (hpoint : '.' ≠ stop) (hsign : '%' ≠ stop) :
    keyframeSelector.StopsAt stop := by
  have hdigits : digits.StopsAt stop := stopsAt_takeWhile1 hdigit
  have hfraction : fraction.StopsAt stop :=
    (stopsAt_char hpoint).bind fun _ => hdigits.bind fun _ => stopsAt_pure _
  have hdecimal : decimal.StopsAt stop :=
    hdigits.bind fun _ => hfraction.bind fun _ => stopsAt_pure _
  have hpercentage : percentage.StopsAt stop :=
    (hdecimal.orElse (hfraction.orElse hdigits)).bind fun _ =>
      (stopsAt_char hsign).optional.bind fun _ => stopsAt_pure _
  exact hpercentage.orElse (stopsAt_takeWhile1 hlower)

end Grammar

end CssInliner
