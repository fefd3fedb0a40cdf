import CssInliner.Text.Alphanumeric
import CssInliner.Text.Blank

/-!
The blanks one by one, so that a class of characters without blanks is known as
such by a look at each of them.
-/

namespace CssInliner.Text

def blankCodes : List Nat :=
  [0x9, 0xA, 0xB, 0xC, 0xD, 0x20, 0x85, 0xA0, 0x1680, 0x2000, 0x2001, 0x2002, 0x2003, 0x2004,
    0x2005, 0x2006, 0x2007, 0x2008, 0x2009, 0x200A, 0x2028, 0x2029, 0x202F, 0x205F, 0x3000]

theorem mem_blankCodes_of_isBlank {c : Char} (h : isBlank c = true) : c.toNat ∈ blankCodes := by
  simp only [isBlank, Bool.or_eq_true, Bool.and_eq_true, decide_eq_true_eq, beq_iff_eq] at h
  simp only [blankCodes, List.mem_cons, List.not_mem_nil, or_false]
  omega

/-- A test that every blank fails. -/
theorem isBlank_eq_false {test : Char → Bool}
    (hblanks : ∀ n ∈ blankCodes, test (Char.ofNat n) = false) {c : Char} (hc : test c = true) :
    isBlank c = false := by
  cases hblank : isBlank c with
  | false => rfl
  | true =>
      have hfails := hblanks c.toNat (mem_blankCodes_of_isBlank hblank)
      rw [Char.ofNat_toNat, hc] at hfails
      contradiction

theorem isBlank_of_isIdentifierChar {c : Char} (hc : isIdentifierChar c = true) :
    isBlank c = false :=
  isBlank_eq_false (by decide +kernel) hc

theorem isBlank_of_isQuote {c : Char} (hc : isQuote c = true) : isBlank c = false :=
  isBlank_eq_false (by decide +kernel) hc

end CssInliner.Text
