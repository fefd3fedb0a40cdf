import CssInliner.Grammar.Defect

/-!
Parsers over text. A parser matches and leaves a rest, does not match, or runs
into a defect that no alternative can mend; a defect carries the text from the
point where it was noticed. `Parser.Walks` says that nothing is ever left but a
suffix of the input, `Parser.Advances` that a match takes at least a character:
that is what repetition needs in order to end.
-/

namespace CssInliner

inductive Outcome (α : Type) where
  | matched (value : α) (rest : Text)
  | mismatch
  | failure (defect : Defect) (rest : Text)
deriving DecidableEq, Repr

/-- Whatever the outcome leaves of `t` is a suffix of it. -/
def Outcome.Within {α : Type} (t : Text) : Outcome α → Prop
  | .matched _ rest => rest <:+ t
  | .mismatch => True
  | .failure _ rest => rest <:+ t

/-- Whatever the outcome leaves of `t` is a suffix of it, and after a match a
shorter one. -/
def Outcome.Inside {α : Type} (t : Text) : Outcome α → Prop
  | .matched _ rest => rest <:+ t ∧ rest.length < t.length
  | .mismatch => True
  | .failure _ rest => rest <:+ t

theorem Outcome.Inside.within {α : Type} {t : Text} {o : Outcome α} (h : o.Inside t) :
    o.Within t := by
  cases o with
  | matched a rest => exact h.1
  | mismatch => trivial
  | failure d rest => exact h

theorem Outcome.Within.trans {α : Type} {s t : Text} {o : Outcome α}
    (h : o.Within s) (hs : s <:+ t) : o.Within t := by
  cases o with
  | matched a rest => exact List.IsSuffix.trans h hs
  | mismatch => trivial
  | failure d rest => exact List.IsSuffix.trans h hs

theorem Outcome.Inside.trans {α : Type} {s t : Text} {o : Outcome α}
    (h : o.Inside s) (hs : s <:+ t) : o.Inside t := by
  cases o with
  | matched a rest => exact ⟨h.1.trans hs, Nat.lt_of_lt_of_le h.2 hs.length_le⟩
  | mismatch => trivial
  | failure d rest => exact List.IsSuffix.trans h hs

theorem Outcome.Within.inside {α : Type} {s t : Text} {o : Outcome α}
    (h : o.Within s) (hs : s <:+ t) (hlt : s.length < t.length) : o.Inside t := by
  cases o with
  | matched a rest =>
      exact ⟨List.IsSuffix.trans h hs,
        Nat.lt_of_le_of_lt (List.IsSuffix.length_le h) hlt⟩
  | mismatch => trivial
  | failure d rest => exact List.IsSuffix.trans h hs

def Parser (α : Type) : Type := Text → Outcome α

namespace Parser

variable {α β : Type}

def Walks (p : Parser α) : Prop := ∀ t, (p t).Within t

def Advances (p : Parser α) : Prop := ∀ t, (p t).Inside t

theorem Advances.walks {p : Parser α} (h : p.Advances) : p.Walks := fun t => (h t).within

instance : Monad Parser where
  pure a := fun t => .matched a t
  bind p f := fun t =>
    match p t with
    | .matched a rest => f a rest
    | .mismatch => .mismatch
    | .failure d rest => .failure d rest

@[simp] theorem pure_apply (a : α) (t : Text) : (pure a : Parser α) t = .matched a t := rfl

theorem bind_apply (p : Parser α) (f : α → Parser β) (t : Text) :
    (p >>= f) t =
      match p t with
      | .matched a rest => f a rest
      | .mismatch => .mismatch
      | .failure d rest => .failure d rest := rfl

theorem walks_pure (a : α) : (pure a : Parser α).Walks := fun t => List.suffix_refl t

theorem Walks.bind {p : Parser α} {f : α → Parser β} (hp : p.Walks)
    (hf : ∀ a, (f a).Walks) : (p >>= f).Walks := by
  intro t
  have ht := hp t
  rw [bind_apply]
  cases hpt : p t with
  | matched a rest => rw [hpt] at ht; exact (hf a rest).trans ht
  | mismatch => trivial
  | failure d rest => rw [hpt] at ht; exact ht

theorem Advances.bind {p : Parser α} {f : α → Parser β} (hp : p.Advances)
    (hf : ∀ a, (f a).Walks) : (p >>= f).Advances := by
  intro t
  have ht := hp t
  rw [bind_apply]
  cases hpt : p t with
  | matched a rest => rw [hpt] at ht; exact (hf a rest).inside ht.1 ht.2
  | mismatch => trivial
  | failure d rest => rw [hpt] at ht; exact ht

theorem Walks.bind_advances {p : Parser α} {f : α → Parser β} (hp : p.Walks)
    (hf : ∀ a, (f a).Advances) : (p >>= f).Advances := by
  intro t
  have ht := hp t
  rw [bind_apply]
  cases hpt : p t with
  | matched a rest => rw [hpt] at ht; exact (hf a rest).trans ht
  | mismatch => trivial
  | failure d rest => rw [hpt] at ht; exact ht

def mismatch : Parser α := fun _ => .mismatch

theorem advances_mismatch : (mismatch : Parser α).Advances := fun _ => trivial

def fail (defect : Defect) : Parser α := fun t => .failure defect t

theorem advances_fail (d : Defect) : (fail d : Parser α).Advances :=
  fun t => List.suffix_refl t

def orElse (p q : Parser α) : Parser α := fun t =>
  match p t with
  | .mismatch => q t
  | o => o

theorem Walks.orElse {p q : Parser α} (hp : p.Walks) (hq : q.Walks) :
    (p.orElse q).Walks := by
  intro t
  have ht := hp t
  unfold Parser.orElse
  cases hpt : p t with
  | mismatch => exact hq t
  | matched a rest => rwa [hpt] at ht
  | failure d rest => rwa [hpt] at ht

theorem Advances.orElse {p q : Parser α} (hp : p.Advances) (hq : q.Advances) :
    (p.orElse q).Advances := by
  intro t
  have ht := hp t
  unfold Parser.orElse
  cases hpt : p t with
  | mismatch => exact hq t
  | matched a rest => rwa [hpt] at ht
  | failure d rest => rwa [hpt] at ht

/-- The value if there is one, at the cost of nothing otherwise. -/
def optional (p : Parser α) : Parser (Option α) := fun t =>
  match p t with
  | .matched a rest => .matched (some a) rest
  | .mismatch => .matched none t
  | .failure d rest => .failure d rest

theorem Walks.optional {p : Parser α} (hp : p.Walks) : p.optional.Walks := by
  intro t
  have ht := hp t
  unfold Parser.optional
  cases hpt : p t with
  | mismatch => exact List.suffix_refl t
  | matched a rest => rwa [hpt] at ht
  | failure d rest => rwa [hpt] at ht

/-- Turns a mismatch into a defect at the point where the parser was tried. -/
def require (p : Parser α) (defect : Defect) : Parser α := p.orElse (fail defect)

theorem Walks.require {p : Parser α} (hp : p.Walks) (d : Defect) : (p.require d).Walks :=
  hp.orElse (advances_fail d).walks

theorem Advances.require {p : Parser α} (hp : p.Advances) (d : Defect) :
    (p.require d).Advances :=
  hp.orElse (advances_fail d)

def takeWhile (test : Char → Bool) : Parser Text := fun t =>
  .matched (t.takeWhile test) (t.dropWhile test)

theorem walks_takeWhile (test : Char → Bool) : (takeWhile test).Walks :=
  fun _ => List.dropWhile_suffix test

def takeWhile1 (test : Char → Bool) : Parser Text := fun t =>
  match t with
  | [] => .mismatch
  | c :: rest =>
      if test c then .matched (c :: rest.takeWhile test) (rest.dropWhile test) else .mismatch

theorem advances_takeWhile1 (test : Char → Bool) : (takeWhile1 test).Advances := by
  intro t
  cases t with
  | nil => trivial
  | cons c rest =>
      unfold takeWhile1
      dsimp only
      split
      · have h := List.dropWhile_suffix (l := rest) test
        exact ⟨h.trans (List.suffix_cons c rest), Nat.lt_succ_of_le h.length_le⟩
      · trivial

def literal (text : Text) : Parser Unit := fun t =>
  match Text.dropLead? text t with
  | some rest => .matched () rest
  | none => .mismatch

theorem advances_literal {text : Text} (h : text ≠ []) : (literal text).Advances := by
  intro t
  unfold literal
  split
  · next rest hrest =>
      obtain rfl := Text.eq_append_of_dropLead? hrest
      have := List.length_pos_iff.2 h
      exact ⟨List.suffix_append text rest, by simp only [List.length_append]; omega⟩
  · trivial

def char (c : Char) : Parser Unit := literal [c]

theorem advances_char (c : Char) : (char c).Advances := advances_literal (by simp)

def many (p : Parser α) (hp : p.Advances) (t : Text) : Outcome (List α) :=
  match h : p t with
  | .mismatch => .matched [] t
  | .failure d rest => .failure d rest
  | .matched a rest =>
      have : rest.length < t.length := by
        have := hp t
        rw [h] at this
        exact this.2
      match many p hp rest with
      | .matched as rest => .matched (a :: as) rest
      | .mismatch => .mismatch
      | .failure d rest => .failure d rest
termination_by t.length

theorem many_eq (p : Parser α) (hp : p.Advances) (t : Text) :
    many p hp t =
      match p t with
      | .mismatch => .matched [] t
      | .failure d rest => .failure d rest
      | .matched a rest =>
          match many p hp rest with
          | .matched as rest => .matched (a :: as) rest
          | .mismatch => .mismatch
          | .failure d rest => .failure d rest := by
  rw [many]
  split <;> simp only [*]

theorem walks_many {p : Parser α} (hp : p.Advances) : Walks (many p hp) := by
  intro t
  have ht := hp t
  fun_induction many p hp t with
  | case1 t h => exact List.suffix_refl t
  | case2 t d rest h => rwa [h] at ht
  | case3 t a rest h _ as rest' hrec ih =>
      rw [h] at ht
      have := ih (hp rest)
      rw [hrec] at this
      exact List.IsSuffix.trans this ht.1
  | case4 => trivial
  | case5 t a rest h _ d rest' hrec ih =>
      rw [h] at ht
      have := ih (hp rest)
      rw [hrec] at this
      exact List.IsSuffix.trans this ht.1

end Parser

end CssInliner
