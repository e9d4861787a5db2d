import Mathlib.Algebra.Order.Field.Power
import Mathlib.Data.Nat.Cast.Order.Field
import Mathlib.Data.Rat.Cast.Order
import Mathlib.Tactic.FieldSimp
import Mathlib.Tactic.Linarith
import Mathlib.Tactic.Positivity
import Mathlib.Tactic.Ring
import RepoWiki.Decimal.Nearest
/-
Ratios of natural numbers as rational numbers.

The arithmetic on doubles and decimals is done on numerators and denominators. Here each of its
operations gets its meaning: comparing, moving the point, dividing by powers of two, and rounding
to the nearest whole number. `round_eq` says what rounds to a given number, and
`binaryMagnitude_spec` and `magnitude_le` say between which powers a ratio lies.
-/

namespace RepoWiki.Decimal

open Ratio

variable {r : Ratio}

/-! ## Values -/

def Ratio.value (r : Ratio) : ℚ :=
  r.num / r.den

theorem value_ofBinary (n : Nat) (q : Int) : (ofBinary n q).value = n * 2 ^ q := by
  cases q with
  | ofNat k => simp [ofBinary, value]
  | negSucc k => simp [ofBinary, value, zpow_negSucc, div_eq_mul_inv]

theorem value_shift (r : Ratio) (k : Int) : (r.shift k).value = r.value * 10 ^ k := by
  cases k with
  | ofNat k =>
    simp [shift, value]
    ring
  | negSucc k =>
    simp [shift, value, zpow_negSucc]
    ring

theorem value_halve (r : Ratio) (q : Int) : (r.halve q).value = r.value / 2 ^ q := by
  cases q with
  | ofNat k =>
    simp [halve, value]
    ring
  | negSucc k =>
    simp [halve, value, zpow_negSucc]
    ring

theorem value_ratio (d : Scientific) : d.ratio.value = d.digits * 10 ^ d.exponent := by
  rw [Scientific.ratio, value_shift, value, Nat.cast_one, div_one]

theorem den_ofBinary (n : Nat) (q : Int) : 0 < (ofBinary n q).den := by
  cases q with
  | ofNat k => exact Nat.one_pos
  | negSucc k => exact Nat.pow_pos (by decide)

theorem den_shift (h : 0 < r.den) (k : Int) : 0 < (r.shift k).den := by
  cases k with
  | ofNat k => exact h
  | negSucc k => exact Nat.mul_pos h (Nat.pow_pos (by decide))

theorem den_halve (h : 0 < r.den) (q : Int) : 0 < (r.halve q).den := by
  cases q with
  | ofNat k => exact Nat.mul_pos h (Nat.pow_pos (by decide))
  | negSucc k => exact h

theorem den_ratio (d : Scientific) : 0 < d.ratio.den :=
  den_shift Nat.one_pos d.exponent

/-! ## Comparing -/

section

variable {a b : Ratio} (ha : 0 < a.den) (hb : 0 < b.den)

include ha hb

theorem le_eq_true : a.le b = true ↔ a.value ≤ b.value := by
  have ha' : (0 : ℚ) < a.den := by exact_mod_cast ha
  have hb' : (0 : ℚ) < b.den := by exact_mod_cast hb
  rw [le, decide_eq_true_iff, value, value, div_le_div_iff₀ ha' hb']
  exact_mod_cast Iff.rfl

theorem lt_eq_true : a.lt b = true ↔ a.value < b.value := by
  have ha' : (0 : ℚ) < a.den := by exact_mod_cast ha
  have hb' : (0 : ℚ) < b.den := by exact_mod_cast hb
  rw [lt, decide_eq_true_iff, value, value, div_lt_div_iff₀ ha' hb']
  exact_mod_cast Iff.rfl

end

/-- A number lies between two others, and may be one of them if `closed`. -/
structure Inside (lo hi : ℚ) (closed : Bool) (x : ℚ) : Prop where
  above : lo ≤ x
  below : x ≤ hi
  inner : closed = false → lo < x ∧ x < hi

theorem between_eq_true {p lo hi : Ratio} (hp : 0 < p.den) (hlo : 0 < lo.den) (hhi : 0 < hi.den)
    (closed : Bool) :
    p.between lo hi closed = true ↔ Inside lo.value hi.value closed p.value := by
  cases closed with
  | true =>
    rw [between, if_pos rfl, Bool.and_eq_true, le_eq_true hlo hp, le_eq_true hp hhi]
    exact ⟨fun h => ⟨h.1, h.2, fun hf => by cases hf⟩, fun h => ⟨h.above, h.below⟩⟩
  | false =>
    rw [between, if_neg Bool.false_ne_true, Bool.and_eq_true, lt_eq_true hlo hp, lt_eq_true hp hhi]
    exact ⟨fun h => ⟨h.1.le, h.2.le, fun _ => h⟩, fun h => h.inner rfl⟩

/-! ## Rounding -/

theorem round_eq_of_mul (hr : 0 < r.den) {m : Nat} (hlow : 2 * m * r.den ≤ 2 * r.num + r.den)
    (hhigh : 2 * r.num ≤ (2 * m + 1) * r.den)
    (hodd : m % 2 = 1 → 2 * m * r.den < 2 * r.num + r.den ∧ 2 * r.num < (2 * m + 1) * r.den) :
    r.round = m := by
  have hsplit : r.den * (r.num / r.den) + r.num % r.den = r.num := Nat.div_add_mod _ _
  have hrest : r.num % r.den < r.den := Nat.mod_lt _ hr
  rw [Ratio.round]
  generalize r.num / r.den = below at *
  generalize r.num % r.den = rest at *
  generalize r.num = num at *
  generalize r.den = den at *
  subst hsplit
  have hle : below ≤ m := by
    by_contra hlt
    have hstep : den * (m + 1) ≤ den * below := Nat.mul_le_mul_left den (by omega)
    have hm : den * (m + 1) = m * den + den := by ring
    have hm' : (2 * m + 1) * den = 2 * (m * den) + den := by ring
    omega
  have hge : m ≤ below + 1 := by
    by_contra hlt
    have hstep : den * (below + 2) ≤ den * m := Nat.mul_le_mul_left den (by omega)
    have hm : den * (below + 2) = den * below + 2 * den := by ring
    have hm' : 2 * m * den = 2 * (den * m) := by ring
    omega
  rcases Nat.lt_or_ge below m with hlt | hge'
  · obtain rfl : m = below + 1 := by omega
    have hm : 2 * (below + 1) * den = 2 * (den * below) + 2 * den := by ring
    rw [if_neg]
    rintro (h | ⟨h, heven⟩)
    · omega
    · have hstrict := (hodd (by omega)).1
      omega
  · obtain rfl : m = below := by omega
    have hm : (2 * m + 1) * den = 2 * (den * m) + den := by ring
    rw [if_pos]
    rcases Nat.lt_or_ge (2 * rest) den with h | h
    · exact .inl h
    · refine .inr ⟨by omega, ?_⟩
      by_contra hne
      have hstrict := (hodd (by omega)).2
      omega

theorem round_eq (hr : 0 < r.den) {m : Nat}
    (h : Inside (m - 1 / 2) (m + 1 / 2) (m % 2 = 0) r.value) : r.round = m := by
  have hden : (0 : ℚ) < r.den := by exact_mod_cast hr
  have hlow : ∀ {x : ℚ}, x ≤ r.value ↔ x * r.den ≤ r.num := by
    intro x
    rw [value, le_div_iff₀ hden]
  have hhigh : ∀ {x : ℚ}, r.value ≤ x ↔ r.num ≤ x * r.den := by
    intro x
    rw [value, div_le_iff₀ hden]
  apply round_eq_of_mul hr
  · have := hlow.1 h.above
    have : (2 * m * r.den : ℚ) ≤ 2 * r.num + r.den := by linarith
    exact_mod_cast this
  · have := hhigh.1 h.below
    have : (2 * r.num : ℚ) ≤ (2 * m + 1) * r.den := by linarith
    exact_mod_cast this
  · intro hodd
    obtain ⟨habove, hbelow⟩ := h.inner (by simp [hodd])
    constructor
    · have := not_le.1 (mt hhigh.2 (not_le.2 habove))
      have : (2 * m * r.den : ℚ) < 2 * r.num + r.den := by linarith
      exact_mod_cast this
    · have := not_le.1 (mt hlow.2 (not_le.2 hbelow))
      have : (2 * r.num : ℚ) < (2 * m + 1) * r.den := by linarith
      exact_mod_cast this

theorem round_near (hr : 0 < r.den) :
    (r.round : ℚ) - 1 / 2 ≤ r.value ∧ r.value ≤ r.round + 1 / 2 := by
  have hden : (0 : ℚ) < r.den := by exact_mod_cast hr
  have hsplit : r.den * (r.num / r.den) + r.num % r.den = r.num := Nat.div_add_mod _ _
  have hrest : r.num % r.den < r.den := Nat.mod_lt _ hr
  rw [value, le_div_iff₀ hden, div_le_iff₀ hden, Ratio.round]
  generalize r.num / r.den = below at *
  generalize r.num % r.den = rest at *
  have hnum : (r.num : ℚ) = r.den * below + rest := by exact_mod_cast hsplit.symm
  rw [hnum]
  split
  · next h =>
    have hhalf : (2 * rest : ℚ) ≤ r.den := by
      have : 2 * rest ≤ r.den := by omega
      exact_mod_cast this
    have hpos : (0 : ℚ) ≤ rest := Nat.cast_nonneg rest
    constructor <;> linarith
  · next h =>
    have hhalf : (r.den : ℚ) ≤ 2 * rest := by
      have : r.den ≤ 2 * rest := by omega
      exact_mod_cast this
    have hlt : (rest : ℚ) ≤ r.den := by exact_mod_cast hrest.le
    push_cast
    constructor <;> linarith

/-! ## Magnitudes -/

theorem log2_spec {n : Nat} (h : 0 < n) :
    (2 : ℚ) ^ (n.log2 : Int) ≤ n ∧ (n : ℚ) < 2 ^ ((n.log2 : Int) + 1) := by
  constructor
  · rw [zpow_natCast]
    exact_mod_cast Nat.log2_self_le h.ne'
  · have hlt : n < 2 ^ (n.log2 + 1) := Nat.lt_log2_self
    have hcast : ((n.log2 : Int) + 1) = ((n.log2 + 1 : Nat) : Int) := by push_cast; rfl
    rw [hcast, zpow_natCast]
    exact_mod_cast hlt

theorem binaryMagnitude_spec (hnum : 0 < r.num) (hden : 0 < r.den) :
    (2 : ℚ) ^ binaryMagnitude r ≤ r.value ∧ r.value < 2 ^ (binaryMagnitude r + 1) := by
  obtain ⟨hn, hn'⟩ := log2_spec hnum
  obtain ⟨hd, hd'⟩ := log2_spec hden
  have hden' : (0 : ℚ) < r.den := by exact_mod_cast hden
  have htwo : (2 : ℚ) ≠ 0 := two_ne_zero
  have hone : ∀ k : Int, (r.halve k).den ≤ (r.halve k).num ↔ (2 : ℚ) ^ k ≤ r.value := by
    intro k
    have hk : (0 : ℚ) < (r.halve k).den := by exact_mod_cast den_halve hden k
    have hpow : (0 : ℚ) < 2 ^ k := by positivity
    rw [← one_le_div hpow, ← value_halve, value, one_le_div hk]
    exact Nat.cast_le.symm
  rw [binaryMagnitude]
  split
  · next h =>
    refine ⟨(hone _).1 h, ?_⟩
    rw [value, div_lt_iff₀ hden']
    calc (r.num : ℚ) < 2 ^ ((r.num.log2 : Int) + 1) := hn'
      _ = 2 ^ ((r.num.log2 : Int) - r.den.log2 + 1) * 2 ^ (r.den.log2 : Int) := by
          rw [← zpow_add₀ htwo]; congr 1; ring
      _ ≤ 2 ^ ((r.num.log2 : Int) - r.den.log2 + 1) * r.den := by gcongr
  · next h =>
    rw [sub_add_cancel]
    refine ⟨?_, not_le.1 (mt (hone _).2 h)⟩
    rw [value, le_div_iff₀ hden']
    calc (2 : ℚ) ^ ((r.num.log2 : Int) - r.den.log2 - 1) * r.den
        ≤ 2 ^ ((r.num.log2 : Int) - r.den.log2 - 1) * 2 ^ ((r.den.log2 : Int) + 1) := by gcongr
      _ = 2 ^ (r.num.log2 : Int) := by rw [← zpow_add₀ htwo]; congr 1; ring
      _ ≤ r.num := hn

theorem toDigits_spec {n : Nat} (h : 0 < n) :
    10 ^ ((Nat.toDigits 10 n).length - 1) ≤ n ∧ n < 10 ^ (Nat.toDigits 10 n).length := by
  have hpos : 0 < (Nat.toDigits 10 n).length := Nat.length_toDigits_pos
  constructor
  · by_cases hone : (Nat.toDigits 10 n).length - 1 = 0
    · rw [hone, Nat.pow_zero]
      exact h
    · by_contra hlt
      have := (Nat.length_toDigits_le_iff (b := 10) (by decide) (Nat.pos_of_ne_zero hone)).2
        (Nat.not_le.1 hlt)
      omega
  · exact (Nat.length_toDigits_le_iff (by decide) hpos).1 (Nat.le_refl _)

theorem leadingZeros_spec (fuel : Nat) (r : Ratio) (hden : 0 < r.den)
    (h : 1 ≤ r.value * 10 ^ (fuel + 1)) : 1 ≤ r.value * 10 ^ (leadingZeros fuel r + 1) := by
  induction fuel generalizing r with
  | zero => exact h
  | succ fuel ih =>
    rw [leadingZeros]
    split
    · next hle =>
      have hden' : (0 : ℚ) < r.den := by exact_mod_cast hden
      have hle' : (r.den : ℚ) ≤ r.num * 10 := by exact_mod_cast hle
      rw [zero_add, pow_one, value, div_mul_eq_mul_div, one_le_div hden']
      exact hle'
    · have hshift : (r.shift 1).value = r.value * 10 := by rw [value_shift, zpow_one]
      have := ih (r.shift 1) (den_shift hden 1) (by rw [hshift, mul_assoc, ← pow_succ']; exact h)
      rwa [hshift, mul_assoc, ← pow_succ'] at this

theorem magnitude_le (hden : 0 < r.den) (h : 1 ≤ r.value * 10 ^ 401) :
    (10 : ℚ) ^ (magnitude r - 1) ≤ r.value := by
  have hden' : (0 : ℚ) < r.den := by exact_mod_cast hden
  rw [magnitude]
  split
  · next hle =>
    have hwhole : 0 < r.num / r.den := Nat.div_pos hle hden
    have hlen : 0 < (Nat.toDigits 10 (r.num / r.den)).length := Nat.length_toDigits_pos
    have hcast : ((Nat.toDigits 10 (r.num / r.den)).length : Int) - 1 =
        (((Nat.toDigits 10 (r.num / r.den)).length - 1 : Nat) : Int) := by omega
    rw [hcast, zpow_natCast]
    calc (10 : ℚ) ^ ((Nat.toDigits 10 (r.num / r.den)).length - 1)
        ≤ ((r.num / r.den : Nat) : ℚ) := by exact_mod_cast (toDigits_spec hwhole).1
      _ ≤ r.value := Nat.cast_div_le
  · have hzeros := leadingZeros_spec 400 r hden h
    have hexp : -(leadingZeros 400 r : Int) - 1 = -((leadingZeros 400 r + 1 : Nat) : Int) := by
      push_cast
      ring
    rw [hexp, zpow_neg, zpow_natCast, inv_le_iff_one_le_mul₀ (by positivity)]
    exact hzeros

end RepoWiki.Decimal
