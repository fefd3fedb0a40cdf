import CssInliner.Lexis.Marker

/-!
Cutting text into pieces that are never split: a character with its backslash,
a whole quoted string, a whole comment, an opener, or a single character. Every
scan of the library goes piece by piece, and a `Lexis` says which of the kinds
it knows. Main statement: the pieces put together are the text.
-/

namespace CssInliner

inductive Piece where
  | char (c : Char)
  | escape (text : Text)
  | quoted (text : Text)
  | comment (text : Text)
  | opener (text : Text)
deriving DecidableEq, Repr

def Piece.text : Piece → Text
  | char c => [c]
  | escape t | quoted t | comment t | opener t => t

/-- The rest of a quoted string through its closing quote, and what follows.
Without a closing quote the string runs to the end. -/
def throughQuote (quote : Char) : Text → Text × Text
  | [] => ([], [])
  | '\\' :: c :: t =>
      let (inside, after) := throughQuote quote t
      ('\\' :: c :: inside, after)
  | c :: t =>
      if c = quote then ([c], t)
      else
        let (inside, after) := throughQuote quote t
        (c :: inside, after)

theorem throughQuote_append (quote : Char) (t : Text) :
    (throughQuote quote t).1 ++ (throughQuote quote t).2 = t := by
  fun_induction throughQuote quote t <;> simp_all

def commentOpen : Text := "/*".toList

def commentClose : Text := "*/".toList

/-- The rest of a comment through its end, and what follows. Without an end the
comment takes all of the text. -/
def throughComment (t : Text) : Text × Text :=
  match Text.splitFirst? commentClose t with
  | some (inside, after) => (inside ++ commentClose, after)
  | none => (t, [])

theorem throughComment_append (t : Text) :
    (throughComment t).1 ++ (throughComment t).2 = t := by
  unfold throughComment
  split
  · next h => exact (Text.eq_append_of_splitFirst? h).symm
  · simp

/-- The kinds of piece a scan knows besides quoted strings and characters. -/
structure Lexis where
  escapes : Bool
  comments : Bool
  marker : Marker

namespace Lexis

def step (L : Lexis) : Text → Option (Piece × Text)
  | [] => none
  | c :: t =>
      if L.escapes && c = '\\' then
        some (.escape (c :: t.take 1), t.drop 1)
      else if Text.isQuote c then
        let (inside, after) := throughQuote c t
        some (.quoted (c :: inside), after)
      else
        match if L.comments then Text.dropLead? commentOpen (c :: t) else none with
        | some body =>
            let (inside, after) := throughComment body
            some (.comment (commentOpen ++ inside), after)
        | none =>
            match L.marker.matchAt (c :: t) with
            | some n => some (.opener (c :: t.take (n - 1)), t.drop (n - 1))
            | none => some (.char c, t)

theorem append_of_step {L : Lexis} {t rest : Text} {p : Piece}
    (h : L.step t = some (p, rest)) : p.text ++ rest = t := by
  cases t with
  | nil => simp [step] at h
  | cons c t =>
      simp only [step] at h
      split at h
      · obtain ⟨rfl, rfl⟩ := Prod.mk.inj (Option.some.inj h)
        simp only [Piece.text, List.cons_append, List.take_append_drop]
      split at h
      · obtain ⟨rfl, rfl⟩ := Prod.mk.inj (Option.some.inj h)
        simp [Piece.text, throughQuote_append]
      split at h
      · next body hbody =>
          obtain ⟨rfl, rfl⟩ := by simpa using h
          split at hbody
          · rw [Text.eq_append_of_dropLead? hbody]
            simp [Piece.text, throughComment_append]
          · simp at hbody
      split at h <;> obtain ⟨rfl, rfl⟩ := by simpa using h
      · simp [Piece.text]
      · rfl

theorem text_ne_nil_of_step {L : Lexis} {t rest : Text} {p : Piece}
    (h : L.step t = some (p, rest)) : p.text ≠ [] := by
  cases t with
  | nil => simp [step] at h
  | cons c t =>
      simp only [step] at h
      repeat' split at h
      all_goals
        obtain ⟨rfl, rfl⟩ := by simpa using h
        simp [Piece.text, commentOpen]

theorem length_lt_of_step {L : Lexis} {t rest : Text} {p : Piece}
    (h : L.step t = some (p, rest)) : rest.length < t.length := by
  have hlen := congrArg List.length (append_of_step h)
  have hpos := List.length_pos_iff.2 (text_ne_nil_of_step h)
  simp only [List.length_append] at hlen
  omega

@[simp] theorem step_nil (L : Lexis) : L.step [] = none := rfl

theorem step_eq_none_iff {L : Lexis} {t : Text} : L.step t = none ↔ t = [] := by
  cases t with
  | nil => simp
  | cons c t =>
      simp only [step, reduceCtorEq, iff_false]
      repeat' split
      all_goals simp

/-- An opener has the length its marker gives, cut to what the text holds, and at
least one character. -/
theorem matchAt_of_step {L : Lexis} {t rest opener : Text}
    (h : L.step t = some (.opener opener, rest)) :
    ∃ n, L.marker.matchAt t = some n ∧ opener.length = max 1 (min n t.length) := by
  cases t with
  | nil => simp [step] at h
  | cons c t =>
      simp only [step] at h
      split at h
      · simp at h
      split at h
      · simp at h
      split at h
      · simp at h
      split at h
      · next n hn =>
          obtain ⟨rfl, -⟩ := by simpa using h
          refine ⟨n, hn, ?_⟩
          simp only [List.length_cons, List.length_take]
          omega
      · simp at h

def pieces (L : Lexis) (t : Text) : List Piece :=
  match h : L.step t with
  | none => []
  | some (p, rest) =>
      have := length_lt_of_step h
      p :: L.pieces rest
termination_by t.length

theorem pieces_eq (L : Lexis) (t : Text) :
    L.pieces t =
      match L.step t with
      | none => []
      | some (p, rest) => p :: L.pieces rest := by
  rw [pieces]
  split <;> simp only [*]

theorem flatMap_text_pieces (L : Lexis) (t : Text) :
    (L.pieces t).flatMap Piece.text = t := by
  fun_induction pieces L t with
  | case1 t h => simpa using (step_eq_none_iff.1 h).symm
  | case2 t p rest h _ ih => simp [ih, append_of_step h]

/-- Reads pieces for as long as `next` goes on, which carries a state along:
the text read, and the text from the piece where it stopped. -/
def cut {σ : Type} (L : Lexis) (next : σ → Piece → Option σ) (s : σ) (t : Text) :
    Text × Text :=
  match h : L.step t with
  | none => ([], [])
  | some (p, rest) =>
      match next s p with
      | none => ([], t)
      | some s' =>
          have := length_lt_of_step h
          let (before, after) := L.cut next s' rest
          (p.text ++ before, after)
termination_by t.length

theorem cut_eq {σ : Type} (L : Lexis) (next : σ → Piece → Option σ) (s : σ) (t : Text) :
    L.cut next s t =
      match L.step t with
      | none => ([], [])
      | some (p, rest) =>
          match next s p with
          | none => ([], t)
          | some s' => (p.text ++ (L.cut next s' rest).1, (L.cut next s' rest).2) := by
  rw [cut]
  split <;> simp only [*]

theorem cut_append {σ : Type} (L : Lexis) (next : σ → Piece → Option σ) (s : σ)
    (t : Text) : (L.cut next s t).1 ++ (L.cut next s t).2 = t := by
  fun_induction cut L next s t with
  | case1 s t h => simpa using (step_eq_none_iff.1 h).symm
  | case2 => simp
  | case3 s t p rest h s' hs' _ before after hrec ih =>
      simp only [hrec] at ih
      simp [ih, append_of_step h]

end Lexis

end CssInliner
