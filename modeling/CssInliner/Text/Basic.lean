/-!
Text as a list of characters, with the few operations the library needs on it.
Lengths that leave the library are counted in bytes of the UTF-8 encoding.
-/

namespace CssInliner

abbrev Text := List Char

namespace Text

/-- The number of bytes of the UTF-8 encoding. -/
def byteLength : Text → Nat
  | [] => 0
  | c :: t => c.utf8Size + byteLength t

@[simp] theorem byteLength_nil : byteLength [] = 0 := rfl

@[simp] theorem byteLength_cons (c : Char) (t : Text) :
    byteLength (c :: t) = c.utf8Size + byteLength t := rfl

@[simp] theorem byteLength_append (s t : Text) :
    byteLength (s ++ t) = byteLength s + byteLength t := by
  induction s with
  | nil => simp
  | cons c s ih => simp [ih, Nat.add_assoc]

/-- The longest beginning of at most `n` bytes. -/
def takeBytes : Nat → Text → Text
  | _, [] => []
  | n, c :: t => if c.utf8Size ≤ n then c :: takeBytes (n - c.utf8Size) t else []

theorem takeBytes_byteLength_append (s t : Text) :
    takeBytes (byteLength s) (s ++ t) = s := by
  induction s with
  | nil =>
      cases t with
      | nil => rfl
      | cons c t =>
          have := c.utf8Size_pos
          simp [takeBytes, show ¬ c.utf8Size ≤ 0 by omega]
  | cons c s ih => simp [takeBytes, ih]

def dropLead? : (lead : Text) → Text → Option Text
  | [], t => some t
  | _ :: _, [] => none
  | l :: ls, c :: t => if l = c then dropLead? ls t else none

theorem dropLead?_append (lead t : Text) : dropLead? lead (lead ++ t) = some t := by
  induction lead with
  | nil => rfl
  | cons l ls ih => simp [dropLead?, ih]

theorem eq_append_of_dropLead? {lead t rest : Text} (h : dropLead? lead t = some rest) :
    t = lead ++ rest := by
  induction lead generalizing t with
  | nil => simpa [dropLead?] using h
  | cons l ls ih =>
      cases t with
      | nil => simp [dropLead?] at h
      | cons c t =>
          simp only [dropLead?] at h
          split at h
          · next hc => rw [hc, ih h, List.cons_append]
          · simp at h

def dropTail? (tail t : Text) : Option Text :=
  (dropLead? tail.reverse t.reverse).map List.reverse

def splitFirst? (mark : Text) : Text → Option (Text × Text)
  | [] => (dropLead? mark []).map ([], ·)
  | c :: t =>
      match dropLead? mark (c :: t) with
      | some rest => some ([], rest)
      | none => (splitFirst? mark t).map fun (before, after) => (c :: before, after)

theorem eq_append_of_splitFirst? {mark t before after : Text}
    (h : splitFirst? mark t = some (before, after)) : t = before ++ mark ++ after := by
  induction t generalizing before with
  | nil =>
      simp only [splitFirst?, Option.map_eq_some_iff, Prod.mk.injEq] at h
      obtain ⟨rest, hrest, rfl, rfl⟩ := h
      simpa using eq_append_of_dropLead? hrest
  | cons c t ih =>
      simp only [splitFirst?] at h
      split at h
      · next rest hrest =>
          obtain ⟨rfl, rfl⟩ := by simpa using h
          simpa using eq_append_of_dropLead? hrest
      · obtain ⟨⟨b, a⟩, hb, hpair⟩ := Option.map_eq_some_iff.1 h
        obtain ⟨rfl, rfl⟩ := Prod.mk.inj hpair
        simp [ih hb]

/-- Whether `part` occurs anywhere, quoted or not. -/
def contains (part t : Text) : Bool := (splitFirst? part t).isSome

def join (separator : Text) : List Text → Text
  | [] => []
  | [t] => t
  | t :: u :: ts => t ++ separator ++ join separator (u :: ts)

def nonempty? (t : Text) : Option Text := if t.isEmpty then none else some t

/-- A quoted string opens with one of these and closes with the same one. -/
def isQuote (c : Char) : Bool := c = '"' || c = '\''

def isLowercase (c : Char) : Bool := 'a' ≤ c && c ≤ 'z'

def isDigit (c : Char) : Bool := '0' ≤ c && c ≤ '9'

end Text

end CssInliner
