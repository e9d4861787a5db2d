import Mathlib.Data.List.Basic
import RepoWiki.Text.Basic
import RepoWiki.Text.Word
/-
No word character is blank. The blanks are few, so each of them is looked up among the ranges of
letters and digits.
-/

namespace RepoWiki.Text

def blankCodes : List Nat :=
  [0x20, 0x09, 0x0A, 0x0B, 0x0C, 0x0D, 0x1C, 0x1D, 0x1E, 0x1F, 0x85, 0xA0, 0x1680, 0x2000, 0x2001,
    0x2002, 0x2003, 0x2004, 0x2005, 0x2006, 0x2007, 0x2008, 0x2009, 0x200A, 0x2028, 0x2029, 0x202F,
    0x205F, 0x3000]

variable {c : Char}

theorem mem_blankCodes (h : isBlank c = true) : c.toNat ∈ blankCodes := by
  simp only [isBlank] at h
  simp only [blankCodes, List.mem_cons, List.not_mem_nil, or_false]
  split at h <;> simp only [Bool.or_eq_true, Bool.and_eq_true, beq_iff_eq,
    decide_eq_true_eq] at h <;>
    omega

/-- No letter or digit is a blank. The ranges are searched as a list, which evaluates faster. -/
theorem isAlnum_of_isBlank (h : isBlank c = true) : isAlnum c = false := by
  have hranges : ∀ n ∈ blankCodes,
      (wordRanges.toList.any fun r => r.1 ≤ n && n ≤ r.2) = false := by decide +kernel
  have hlow : ∀ n ∈ blankCodes, ((0x30 ≤ n && n ≤ 0x39) || (0x41 ≤ n && n ≤ 0x5A) ||
      (0x61 ≤ n && n ≤ 0x7A)) = false := by decide
  have hcode := mem_blankCodes h
  rw [isAlnum]
  split
  · exact hlow c.toNat hcode
  · rw [inRanges, ← Array.any_toList]
    exact hranges c.toNat hcode

theorem isWord_of_isBlank (h : isBlank c = true) : isWord c = false := by
  rw [isWord, isAlnum_of_isBlank h, Bool.or_false, beq_eq_false_iff_ne]
  rintro rfl
  exact absurd h (by decide)

theorem isBlank_of_isWord (h : isWord c = true) : isBlank c = false := by
  cases hblank : isBlank c with
  | false => rfl
  | true =>
    rw [isWord_of_isBlank hblank] at h
    cases h

end RepoWiki.Text
