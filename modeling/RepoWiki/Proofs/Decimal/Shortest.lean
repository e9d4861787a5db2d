import RepoWiki.Proofs.Decimal.Value
/-
The shortest decimal of a double reads back as that double.

Around a double `m * 2 ^ q` lies an interval of numbers that are nearer to it than to its
neighbours. `nearestBits_eq` says that all of them have that double as their nearest one, whichever
way they are given; `shortest_rounds` says that the decimal which is written for the double is one
of them. For this the grid of seventeen digits is always fine enough (`gridPoint?_rounds`).
-/

namespace RepoWiki.Decimal

open List Ratio

/-! ## Doubles and what is rounded to them -/

/-- A positive double `m * 2 ^ q`. It is `tight` if the lower neighbour is only half as far away as
the upper one. -/
structure Double (m : Nat) (q : Int) (tight : Bool) : Prop where
  pos : 0 < m
  size : m < 2 ^ 53
  least : -1074 ≤ q
  most : q ≤ 971
  normal : 2 ^ 52 ≤ m ∨ q = -1074
  tight_iff : tight = true ↔ m = 2 ^ 52 ∧ -1074 < q

/-- A number that is rounded to a double: it lies at most halfway to a neighbour, and if it lies
halfway then `m` is even. -/
def Rounds (m : Nat) (q : Int) (tight : Bool) (x : ℚ) : Prop :=
  Inside (((if tight then 4 * m - 1 else 4 * m - 2 : Nat) : ℚ) * 2 ^ (q - 2))
    (((4 * m + 2 : Nat) : ℚ) * 2 ^ (q - 2)) (m % 2 = 0) x

def bitsOf (m : Nat) (q : Int) : Nat :=
  (q + 1074).toNat * 2 ^ 52 + m

section

variable {m : Nat} {q : Int} {tight : Bool} {x : ℚ}

theorem quarter (q : Int) : (2 : ℚ) ^ (q - 2) = 2 ^ q / 4 := by
  rw [zpow_sub₀ two_ne_zero]
  norm_num

/-- Measured in units of the last place, a number that is rounded to a double lies at most a half
away from `m`. -/
theorem Rounds.scaled (hd : Double m q tight) (h : Rounds m q tight x) :
    Inside (m - 1 / 2) (m + 1 / 2) (m % 2 = 0) (x / 2 ^ q) ∧
      (tight = true → (m : ℚ) - 1 / 4 ≤ x / 2 ^ q) := by
  obtain ⟨habove, hbelow, hinner⟩ := h
  have hpos := hd.pos
  have hunit : (0 : ℚ) < 2 ^ q := by positivity
  have hwide : ((if tight then 4 * m - 1 else 4 * m - 2 : Nat) : ℚ) =
      if tight then 4 * (m : ℚ) - 1 else 4 * m - 2 := by
    split
    · rw [Nat.cast_sub (by omega)]
      push_cast
      rfl
    · rw [Nat.cast_sub (by omega)]
      push_cast
      rfl
  rw [hwide, quarter] at habove hinner
  rw [quarter] at hbelow
  push_cast at hbelow hinner
  have hhalf : (m : ℚ) - 1 / 2 ≤ (if tight then 4 * (m : ℚ) - 1 else 4 * m - 2) / 4 := by
    split <;> linarith
  refine ⟨⟨?_, ?_, fun hodd => ⟨?_, ?_⟩⟩, fun htight => ?_⟩
  · rw [le_div_iff₀ hunit]
    nlinarith
  · rw [div_le_iff₀ hunit]
    linarith
  · rw [lt_div_iff₀ hunit]
    have := (hinner hodd).1
    nlinarith
  · rw [div_lt_iff₀ hunit]
    have := (hinner hodd).2
    linarith
  · rw [htight, if_pos rfl] at habove
    rw [le_div_iff₀ hunit]
    linarith

theorem Rounds.pos (hd : Double m q tight) (h : Rounds m q tight x) : 0 < x := by
  have hone : (1 : ℚ) ≤ m := by exact_mod_cast hd.pos
  have hunit : (0 : ℚ) < 2 ^ q := by positivity
  have habove := (h.scaled hd).1.above
  rw [le_div_iff₀ hunit] at habove
  nlinarith

/-- The bits that are found for a number whose last place counts `2 ^ (q - 1)`, one less than that
of the double, are those of the double all the same if it is rounded up to the next power. -/
theorem bitsOf_carry {q : Int} (hq : -1074 < q) :
    (q - 1 - leastExponent).toNat * Nat.pow 2 52 + 2 ^ 53 = bitsOf (2 ^ 52) q := by
  have hleast : leastExponent = -1074 := rfl
  have hpow : Nat.pow 2 52 = 2 ^ 52 := rfl
  have hstep : (q + 1074).toNat = (q - 1 - leastExponent).toNat + 1 := by omega
  rw [bitsOf, hstep, hpow]
  ring

theorem nearestBits_eq (hd : Double m q tight) {p : Ratio} (hnum : 0 < p.num) (hden : 0 < p.den)
    (h : Rounds m q tight p.value) : nearestBits p = bitsOf m q := by
  obtain ⟨hscaled, htight⟩ := h.scaled hd
  obtain ⟨hlow, hhigh⟩ := binaryMagnitude_spec hnum hden
  have hunit : (0 : ℚ) < 2 ^ q := by positivity
  have hone : (1 : ℚ) < 2 := by norm_num
  have hvalue : p.value = p.value / 2 ^ q * 2 ^ q := (div_mul_cancel₀ _ hunit.ne').symm
  have hsize : (m : ℚ) + 1 ≤ 2 ^ 53 := by exact_mod_cast hd.size
  -- A number below the next power of two has a unit of the last place that is no larger.
  have hmagnitude : binaryMagnitude p < q + 53 := by
    rw [← zpow_lt_zpow_iff_right₀ hone]
    calc (2 : ℚ) ^ binaryMagnitude p ≤ p.value := hlow
      _ = p.value / 2 ^ q * 2 ^ q := hvalue
      _ < 2 ^ 53 * 2 ^ q := by
          have := hscaled.below
          gcongr
          linarith
      _ = 2 ^ (q + 53) := by
          rw [zpow_add₀ two_ne_zero, mul_comm]
          norm_num
  have hlimit : bitsOf m q ≤ infinityBits := by
    have hmost := hd.most
    have hsize := hd.size
    have hnat : (q + 1074).toNat ≤ 2045 := by omega
    have hinf : infinityBits = 2047 * 2 ^ 52 := rfl
    rw [bitsOf, hinf]
    omega
  have hround : ∀ (k : Int) (n : Nat),
      Inside (n - 1 / 2) (n + 1 / 2) (n % 2 = 0) (p.value / 2 ^ k) → (p.halve k).round = n := by
    intro k n hn
    exact round_eq (den_halve hden k) (by rwa [value_halve])
  have hleast : leastExponent = -1074 := rfl
  rw [nearestBits]
  by_cases hsame : max (binaryMagnitude p - 52) leastExponent = q
  · have hbits : (q - leastExponent).toNat * Nat.pow 2 52 + m = bitsOf m q := by
      rw [bitsOf, hleast, sub_neg_eq_add]
      rfl
    rw [hsame, hround q m hscaled, hbits, min_eq_left hlimit]
  · -- The number lies below the power of two that the double is.
    have hq : -1074 < q := by
      have := hd.least
      omega
    have hnormal : 2 ^ 52 ≤ m := hd.normal.resolve_right (by omega)
    have hbelow : p.value / 2 ^ q < 2 ^ 52 := by
      rw [div_lt_iff₀ hunit]
      calc p.value < 2 ^ (binaryMagnitude p + 1) := hhigh
        _ ≤ 2 ^ (q + 52) := zpow_le_zpow_right₀ hone.le (by omega)
        _ = 2 ^ 52 * 2 ^ q := by
            rw [zpow_add₀ two_ne_zero, mul_comm]
            norm_num
    have hm : m = 2 ^ 52 := by
      have habove := hscaled.above
      have hlt : (m : ℚ) < 2 ^ 52 + 1 := by linarith
      have : m < 2 ^ 52 + 1 := by exact_mod_cast hlt
      omega
    have hquarter := htight (hd.tight_iff.2 ⟨hm, hq⟩)
    have hcast : (m : ℚ) = 2 ^ 52 := by exact_mod_cast hm
    have hmagnitude' : q + 51 < binaryMagnitude p + 1 := by
      rw [← zpow_lt_zpow_iff_right₀ hone]
      calc (2 : ℚ) ^ (q + 51) = 2 ^ 51 * 2 ^ q := by
            rw [zpow_add₀ two_ne_zero, mul_comm]
            norm_num
        _ ≤ p.value / 2 ^ q * 2 ^ q := by
            gcongr
            linarith
        _ = p.value := hvalue.symm
        _ < 2 ^ (binaryMagnitude p + 1) := hhigh
    have hless : max (binaryMagnitude p - 52) leastExponent = q - 1 := by omega
    have hdouble : p.value / 2 ^ (q - 1) = 2 * (p.value / 2 ^ q) := by
      rw [zpow_sub₀ two_ne_zero, zpow_one]
      field_simp
    have hcarry : (p.halve (q - 1)).round = 2 ^ 53 := by
      refine hround (q - 1) (2 ^ 53) ⟨?_, ?_, fun hodd => ?_⟩
      · rw [hdouble]
        push_cast
        linarith
      · rw [hdouble]
        push_cast
        linarith
      · simp at hodd
    rw [hless, hcarry, bitsOf_carry hq, ← hm, min_eq_left hlimit]

/-! ## Decimals near a double -/

theorem two_pow_lt : (2 : ℚ) ^ 1075 < 10 ^ 330 := by
  have h : 2 ^ 1075 < 10 ^ 330 := by decide +kernel
  exact_mod_cast h

theorem value_double (m : Nat) (q : Int) : (ofBinary (4 * m) (q - 2)).value = m * 2 ^ q := by
  rw [value_ofBinary, quarter]
  push_cast
  ring

theorem rounds_of_near (hd : Double m q tight) {u : ℚ} (hu : u * 10 ^ 16 ≤ m * 2 ^ q)
    (hlow : m * 2 ^ q - u / 2 ≤ x) (hhigh : x ≤ m * 2 ^ q + u / 2) : Rounds m q tight x := by
  have hpos := hd.pos
  have hunit : (0 : ℚ) < 2 ^ q := by positivity
  have hsize : (m : ℚ) + 1 ≤ 2 ^ 53 := by exact_mod_cast hd.size
  have hhalf : u / 2 < 2 ^ q / 2 := by nlinarith
  have hbelow : x < ((4 * m + 2 : Nat) : ℚ) * 2 ^ (q - 2) := by
    rw [quarter]
    push_cast
    linarith
  have habove : ((if tight then 4 * m - 1 else 4 * m - 2 : Nat) : ℚ) * 2 ^ (q - 2) < x := by
    rw [quarter]
    split
    · next htight =>
      have hm : (m : ℚ) = 2 ^ 52 := by exact_mod_cast (hd.tight_iff.1 htight).1
      have hquarter : u / 2 < 2 ^ q / 4 := by
        rw [hm] at hu
        nlinarith
      rw [Nat.cast_sub (by omega)]
      push_cast
      linarith
    · rw [Nat.cast_sub (by omega)]
      push_cast
      linarith
  exact ⟨habove.le, hbelow.le, fun _ => ⟨habove, hbelow⟩⟩

theorem gridPoint?_rounds (hd : Double m q tight) :
    (gridPoint? (ofBinary (4 * m) (q - 2))
      (ofBinary (if tight then 4 * m - 1 else 4 * m - 2) (q - 2))
      (ofBinary (4 * m + 2) (q - 2)) (m % 2 = 0)
      (magnitude (ofBinary (4 * m) (q - 2))) 17).isSome := by
  have hden := den_ofBinary (4 * m) (q - 2)
  have hvalue := value_double m q
  generalize ofBinary (4 * m) (q - 2) = v at *
  have hone : (1 : ℚ) ≤ m := by exact_mod_cast hd.pos
  have hsmall : 1 ≤ v.value * 10 ^ 401 := by
    have hpow : (2 : ℚ) ^ (-1074 : Int) ≤ 2 ^ q := zpow_le_zpow_right₀ (by norm_num) hd.least
    have hnum : (2 : ℚ) ^ 1074 ≤ 10 ^ 401 :=
      calc (2 : ℚ) ^ 1074 ≤ 2 ^ 1075 := pow_le_pow_right₀ (by norm_num) (by omega)
        _ ≤ 10 ^ 330 := two_pow_lt.le
        _ ≤ 10 ^ 401 := pow_le_pow_right₀ (by norm_num) (by omega)
    rw [hvalue]
    calc (1 : ℚ) ≤ 2 ^ (-1074 : Int) * 10 ^ 401 := by
          rw [zpow_neg, zpow_ofNat, inv_mul_eq_div, one_le_div (by positivity)]
          exact hnum
      _ ≤ 2 ^ q * 10 ^ 401 := by gcongr
      _ ≤ m * 2 ^ q * 10 ^ 401 := by
          gcongr
          exact le_mul_of_one_le_left (by positivity) hone
  have hmagnitude := magnitude_le hden hsmall
  generalize magnitude v = k at *
  -- The grid has the unit `u`; the double is at least `10 ^ 16` of them.
  obtain ⟨u, hu⟩ : ∃ u : ℚ, u = 10 ^ (k - (17 : Nat)) := ⟨_, rfl⟩
  have hupos : 0 < u := by
    rw [hu]
    positivity
  have hfine : u * 10 ^ 16 ≤ m * 2 ^ q := by
    have hsplit : u * 10 ^ 16 = 10 ^ (k - 1) := by
      rw [hu, ← zpow_natCast, ← zpow_add₀ (by norm_num)]
      congr 1
      push_cast
      ring
    rw [hsplit, ← hvalue]
    exact hmagnitude
  have hunit : (10 : ℚ) ^ (((17 : Nat) : Int) - k) = u⁻¹ := by
    rw [hu, ← zpow_neg, neg_sub]
  obtain ⟨hlow, hhigh⟩ := round_near (den_shift hden (((17 : Nat) : Int) - k))
  rw [value_shift, hunit, ← div_eq_mul_inv, hvalue] at hlow hhigh
  rw [le_div_iff₀ hupos] at hlow
  rw [div_le_iff₀ hupos] at hhigh
  rw [gridPoint?]
  generalize (v.shift (((17 : Nat) : Int) - k)).round = n at *
  have hrounds : Rounds m q tight (n * u) :=
    rounds_of_near hd hfine (by linarith) (by linarith)
  have hbetween : (Scientific.mk n (k - (17 : Nat))).ratio.between
      (ofBinary (if tight then 4 * m - 1 else 4 * m - 2) (q - 2))
      (ofBinary (4 * m + 2) (q - 2)) (m % 2 = 0) = true := by
    rw [between_eq_true (den_ratio _) (den_ofBinary _ _) (den_ofBinary _ _), value_ratio, ← hu,
      value_ofBinary, value_ofBinary]
    exact hrounds
  rw [map_cons, find?_cons_of_pos (p := fun d : Scientific => d.ratio.between
    (ofBinary (if tight then 4 * m - 1 else 4 * m - 2) (q - 2))
    (ofBinary (4 * m + 2) (q - 2)) (m % 2 = 0)) hbetween]
  rfl

theorem gridPoint?_between {v lo hi : Ratio} {closed : Bool} {k : Int} {n : Nat} {d : Scientific}
    (h : gridPoint? v lo hi closed k n = some d) : d.ratio.between lo hi closed = true :=
  find?_some (p := fun d : Scientific => d.ratio.between lo hi closed) h

theorem value_normalize (fuel : Nat) (d : Scientific) :
    (d.normalize fuel).ratio.value = d.ratio.value := by
  induction fuel generalizing d with
  | zero => rw [Scientific.normalize]
  | succ fuel ih =>
    rw [Scientific.normalize]
    split
    · next h =>
      have hdigits : d.digits = d.digits / 10 * 10 := by omega
      have hcast : (d.digits : ℚ) = (d.digits / 10 : Nat) * 10 := by exact_mod_cast hdigits
      rw [ih, value_ratio, value_ratio, hcast, zpow_add_one₀ (by norm_num)]
      ring
    · rfl

theorem shortest_rounds (hd : Double m q tight) :
    Rounds m q tight (shortest m q tight).ratio.value := by
  rw [shortest, value_normalize]
  obtain ⟨d, hd'⟩ := Option.isSome_iff_exists.1 (gridPoint?_rounds hd)
  have hfound : (range 17).findSome? (fun i =>
      gridPoint? (ofBinary (4 * m) (q - 2))
        (ofBinary (if tight then 4 * m - 1 else 4 * m - 2) (q - 2))
        (ofBinary (4 * m + 2) (q - 2)) (m % 2 = 0)
        (magnitude (ofBinary (4 * m) (q - 2))) (i + 1)) ≠ none := by
    intro hnone
    have := findSome?_eq_none_iff.1 hnone 16 (by decide)
    rw [hd'] at this
    cases this
  obtain ⟨c, hc⟩ := Option.ne_none_iff_exists'.1 hfound
  obtain ⟨i, -, hi⟩ := exists_of_findSome?_eq_some hc
  have hbetween := gridPoint?_between hi
  rw [between_eq_true (den_ratio _) (den_ofBinary _ _) (den_ofBinary _ _), value_ofBinary,
    value_ofBinary] at hbetween
  rw [hc]
  exact hbetween

/-! ## Reading decimals -/

theorem nearest_eq (hd : Double m q tight) {digits : Nat} {e : Int}
    (h : Rounds m q tight (digits * 10 ^ e)) :
    nearest digits e = Float.ofBits (bitsOf m q).toUInt64 := by
  have hten : (1 : ℚ) < 10 := by norm_num
  have hpos := h.pos hd
  have hdigits : 0 < digits := by
    by_contra hzero
    obtain rfl : digits = 0 := by omega
    simp at hpos
  obtain ⟨hlow, hhigh⟩ := toDigits_spec hdigits
  have hlen : 0 < (Nat.toDigits 10 digits).length := Nat.length_toDigits_pos
  generalize hlength : (Nat.toDigits 10 digits).length = length at *
  have hscaled := (h.scaled hd).1
  have hunit : (0 : ℚ) < 2 ^ q := by positivity
  have hone : (1 : ℚ) ≤ m := by exact_mod_cast hd.pos
  have hsize : (m : ℚ) + 1 ≤ 2 ^ 53 := by exact_mod_cast hd.size
  have habove := hscaled.above
  have hbelow := hscaled.below
  rw [le_div_iff₀ hunit] at habove
  rw [div_le_iff₀ hunit] at hbelow
  have hpower : (10 : ℚ) ^ length * 10 ^ e = 10 ^ ((length : Int) + e) := by
    rw [zpow_add₀ (by norm_num), zpow_natCast]
  have hpower' : (10 : ℚ) ^ (length - 1) * 10 ^ e = 10 ^ ((length : Int) - 1 + e) := by
    have hcast : (length : Int) - 1 = ((length - 1 : Nat) : Int) := by omega
    rw [zpow_add₀ (by norm_num), hcast, zpow_natCast]
  have hnotSmall : -330 ≤ (length : Int) + e := by
    by_contra hsmall
    have hnum : (10 : ℚ) ^ (-330 : Int) < 2 ^ (-1075 : Int) := by
      rw [zpow_neg, zpow_neg, zpow_ofNat, zpow_ofNat, inv_lt_inv₀ (by positivity) (by positivity)]
      exact two_pow_lt
    have hchain : (2 : ℚ) ^ (-1075 : Int) < 10 ^ (-330 : Int) :=
      calc (2 : ℚ) ^ (-1075 : Int) ≤ 2 ^ (q - 1) :=
            zpow_le_zpow_right₀ (by norm_num) (by have := hd.least; omega)
        _ = 1 / 2 * 2 ^ q := by
            rw [zpow_sub_one₀ two_ne_zero]
            ring
        _ ≤ (m - 1 / 2) * 2 ^ q := by
            gcongr
            linarith
        _ ≤ digits * 10 ^ e := habove
        _ ≤ 10 ^ length * 10 ^ e := by
            gcongr
            exact_mod_cast hhigh.le
        _ = 10 ^ ((length : Int) + e) := hpower
        _ < 10 ^ (-330 : Int) := zpow_lt_zpow_right₀ hten (by omega)
    exact absurd hchain hnum.le.not_gt
  have hnotLarge : (length : Int) + e ≤ 310 := by
    by_contra hlarge
    have hnum : (2 : ℚ) ^ 1024 < 10 ^ 310 := by
      have h : 2 ^ 1024 < 10 ^ 310 := by decide +kernel
      exact_mod_cast h
    have hchain : (10 : ℚ) ^ 310 < 2 ^ 1024 :=
      calc (10 : ℚ) ^ 310 = 10 ^ (310 : Int) := (zpow_ofNat 10 310).symm
        _ ≤ 10 ^ ((length : Int) - 1 + e) := zpow_le_zpow_right₀ hten.le (by omega)
        _ = 10 ^ (length - 1) * 10 ^ e := hpower'.symm
        _ ≤ digits * 10 ^ e := by
            gcongr
            exact_mod_cast hlow
        _ ≤ (m + 1 / 2) * 2 ^ q := hbelow
        _ < 2 ^ 53 * 2 ^ q := by
            gcongr
            linarith
        _ ≤ 2 ^ 53 * 2 ^ (971 : Int) :=
            mul_le_mul_of_nonneg_left (zpow_le_zpow_right₀ (by norm_num) hd.most) (by positivity)
        _ = 2 ^ 1024 := by
            rw [zpow_ofNat, ← pow_add]
    exact absurd hchain hnum.le.not_gt
  have hratio : (Scientific.mk digits e).ratio.value = digits * 10 ^ e := value_ratio _
  have hnum : 0 < (Scientific.mk digits e).ratio.num := by
    by_contra hzero
    have hz : (Scientific.mk digits e).ratio.num = 0 := by omega
    rw [← hratio, value, hz] at hpos
    simp at hpos
  rw [nearest]
  simp only [hlength]
  rw [if_neg (by omega), if_neg (by omega),
    nearestBits_eq hd hnum (den_ratio _) (by rw [hratio]; exact h)]

theorem shortestOf_rounds {e f : Nat} (he : e < 2047) (hf : f < 2 ^ 52) (hne : ¬(e = 0 ∧ f = 0)) :
    ∃ m q tight, Double m q tight ∧ Rounds m q tight (shortestOf e f).ratio.value ∧
      bitsOf m q = e * 2 ^ 52 + f := by
  rw [shortestOf]
  split
  · next hzero =>
    have hd : Double f (-1074) false :=
      ⟨by omega, by omega, by omega, by omega, .inr rfl, by simp⟩
    have hnone : (-1074 + 1074 : Int).toNat = 0 := by decide
    exact ⟨f, -1074, false, hd, shortest_rounds hd, by rw [bitsOf, hnone, hzero]⟩
  · next hpos =>
    have hpow : Nat.pow 2 52 = 2 ^ 52 := rfl
    have hbits : bitsOf (f + Nat.pow 2 52) ((e : Int) - 1075) = e * 2 ^ 52 + f := by
      obtain ⟨k, rfl⟩ : ∃ k, e = k + 1 := ⟨e - 1, by omega⟩
      have hnat : (((k + 1 : Nat) : Int) - 1075 + 1074).toNat = k := by omega
      rw [bitsOf, hnat, hpow]
      ring
    have hd : Double (f + Nat.pow 2 52) ((e : Int) - 1075) (f = 0 ∧ 1 < e) := by
      rw [hpow]
      refine ⟨by omega, by omega, by omega, by omega, .inl (by omega), ?_⟩
      rw [decide_eq_true_iff]
      omega
    exact ⟨_, _, _, hd, shortest_rounds hd, hbits⟩

end

end RepoWiki.Decimal
