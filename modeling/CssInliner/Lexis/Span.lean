import CssInliner.Lexis.Piece

/-!
Balanced spans: from an opener to the delimiter that closes it, over nested
pairs in between. Quoted strings and escaped characters neither open nor close
anything.
-/

namespace CssInliner

/-- A span with the text on both sides of it. -/
structure Span where
  pre : Text
  opener : Text
  body : Text
  close : Char
  post : Text
deriving DecidableEq, Repr

def Marker.lexis (marker : Marker) : Lexis := ⟨true, false, marker⟩

/-- The text before the first opener, and the text from it on; without an
opener the latter is empty. -/
def Marker.locate (marker : Marker) (t : Text) : Text × Text :=
  marker.lexis.cut (fun _ p => if p matches .opener _ then none else some ()) () t

/-- Whether the marker matches outside quoted strings and escapes. -/
def Marker.occursIn (marker : Marker) (t : Text) : Bool :=
  !(marker.locate t).2.isEmpty

def Marker.find? (marker : Marker) (t : Text) : Option Nat :=
  if marker.occursIn t then some (marker.locate t).1.byteLength else none

namespace Span

def pairedOpen (close : Char) : Option Char :=
  match close with
  | ')' => some '('
  | ']' => some '['
  | '}' => some '{'
  | _ => none

/-- Follows the nesting inside a span; `depth` levels are open besides the span
itself. Stops at the delimiter that closes the span. -/
def nest (close : Char) (depth : Nat) : Piece → Option Nat
  | .opener _ => some (depth + 1)
  | .char c =>
      if pairedOpen close = some c then some (depth + 1)
      else if c = close then if depth = 0 then none else some (depth - 1)
      else some depth
  | _ => some depth

/-- The first span from `marker` to `close`, if its opener is ever closed. -/
def first? (marker : Marker) (close : Char) (t : Text) : Option Span :=
  let (pre, found) := marker.locate t
  match marker.lexis.step found with
  | some (.opener opener, inner) =>
      match marker.lexis.cut (nest close) 0 inner with
      | (_, []) => none
      | (body, c :: post) => some ⟨pre, opener, body, c, post⟩
  | _ => none

theorem append_of_first? {marker : Marker} {close : Char} {t : Text} {s : Span}
    (h : first? marker close t = some s) :
    s.pre ++ s.opener ++ s.body ++ s.close :: s.post = t := by
  have hlocate : (marker.locate t).1 ++ (marker.locate t).2 = t := Lexis.cut_append ..
  simp only [first?] at h
  split at h
  · next opener inner hstep =>
      have happ := Lexis.append_of_step hstep
      have hcut := Lexis.cut_append marker.lexis (nest close) 0 inner
      split at h
      · simp at h
      · next body c post hbody =>
          obtain rfl := Option.some.inj h
          rw [hbody] at hcut
          rw [← hcut] at happ
          rw [← happ] at hlocate
          simpa only [List.append_assoc, Piece.text] using hlocate
  · simp at h

theorem matchAt_of_first? {marker : Marker} {close : Char} {t : Text} {s : Span}
    (h : first? marker close t = some s) :
    ∃ n, marker.matchAt (s.opener ++ s.body ++ s.close :: s.post) = some n ∧
      s.opener.length = max 1 (min n (s.opener ++ s.body ++ s.close :: s.post).length) := by
  simp only [first?] at h
  split at h
  · next opener inner hstep =>
      have happ := Lexis.append_of_step hstep
      have hcut := Lexis.cut_append marker.lexis (nest close) 0 inner
      split at h
      · simp at h
      · next body c post hbody =>
          obtain rfl := Option.some.inj h
          rw [hbody] at hcut
          rw [← hcut] at happ
          obtain ⟨n, hn, hlen⟩ := Lexis.matchAt_of_step hstep
          simp only [Piece.text, List.append_assoc] at happ ⊢
          exact ⟨n, by rw [happ]; exact hn, by rw [happ]; exact hlen⟩
  · simp at h

theorem length_post_lt {marker : Marker} {close : Char} {t : Text} {s : Span}
    (h : first? marker close t = some s) : s.post.length < t.length := by
  have := congrArg List.length (append_of_first? h)
  simp only [List.length_append, List.length_cons] at this
  omega

/-- The spans of a text from left to right, each with the text between it and
the one before as `pre`; and the text behind the last of them. -/
def all (marker : Marker) (close : Char) (t : Text) : List Span × Text :=
  match h : first? marker close t with
  | none => ([], t)
  | some s =>
      have := length_post_lt h
      let (spans, tail) := all marker close s.post
      (s :: spans, tail)
termination_by t.length

theorem all_eq (marker : Marker) (close : Char) (t : Text) :
    all marker close t =
      match first? marker close t with
      | none => ([], t)
      | some s => (s :: (all marker close s.post).1, (all marker close s.post).2) := by
  rw [all]
  split <;> simp only [*]

def whole (s : Span) : Text := s.opener ++ s.body ++ [s.close]

def start (s : Span) : Nat := s.pre.byteLength

def stop (s : Span) : Nat := (s.pre ++ s.opener ++ s.body).byteLength

end Span

end CssInliner
