import Mathlib
import RepoWiki.Decimal.Shortest
/-
Doubles and their bits.

A double is made from the bits without its sign by setting the sign again (`neg_ofBits`,
`pos_ofBits`), and what is no number has only one form (`eq_nan`). Both follow from taking the bits
apart into sign, exponent and fraction and putting them together.
-/

namespace RepoWiki.Decimal

open Float.Model (Format UnpackedFloat)
open Float.Model.UnpackedFloat

theorem toBits_ofBits {a : UInt64} (ha : Format.binary64.Valid a.toBitVec) :
    (Float.ofBits a).toBits = a := by
  show UInt64.ofBitVec (pack .binary64 (unpack .binary64 a.toBitVec)) = a
  rw [pack_unpack_of_valid ha, UInt64.ofBitVec_toBitVec]

def unsigned (x : Float) : Nat :=
  x.toBits.toNat % 2 ^ 63

theorem unpack_neg {b c : BitVec Format.binary64.numBits}
    (hmantissa : unpackMantissa c = unpackMantissa b)
    (hexponent : unpackExponent c = unpackExponent b)
    (hsign : Sign.ofBitVec (unpackSign b) = -Sign.ofBitVec (unpackSign c)) :
    (unpack .binary64 c).neg = unpack .binary64 b := by
  rw [unpack, unpack]
  simp only [hmantissa, hexponent, hsign]
  split
  · split <;> rfl
  split
  · split <;> rfl
  · rfl

theorem toNat_unpackMantissa (b : BitVec Format.binary64.numBits) :
    (unpackMantissa b).toNat = b.toNat % 2 ^ 52 := by
  rw [unpackMantissa, BitVec.toNat_cast, BitVec.extractLsb_toNat]
  rfl

theorem toNat_unpackExponent (b : BitVec Format.binary64.numBits) :
    (unpackExponent b).toNat = (b.toNat >>> 52) % 2048 := by
  rw [unpackExponent, BitVec.toNat_cast, BitVec.extractLsb_toNat]
  rfl

theorem toNat_unpackSign (b : BitVec Format.binary64.numBits) :
    (unpackSign b).toNat = (b.toNat >>> 63) % 2 := by
  rw [unpackSign, BitVec.toNat_cast, BitVec.extractLsb_toNat]
  rfl

theorem unpack_unsigned {b c : BitVec Format.binary64.numBits} (hb : b.toNat / 2 ^ 63 = 1)
    (hc : c.toNat = b.toNat % 2 ^ 63) :
    unpackMantissa c = unpackMantissa b ∧ unpackExponent c = unpackExponent b ∧
      unpackSign c = 0#1 ∧ unpackSign b = 1#1 := by
  refine ⟨BitVec.eq_of_toNat_eq ?_, BitVec.eq_of_toNat_eq ?_, BitVec.eq_of_toNat_eq ?_,
    BitVec.eq_of_toNat_eq ?_⟩
  · rw [toNat_unpackMantissa, toNat_unpackMantissa, hc]
    omega
  · rw [toNat_unpackExponent, toNat_unpackExponent, hc, Nat.shiftRight_eq_div_pow,
      Nat.shiftRight_eq_div_pow]
    omega
  · rw [toNat_unpackSign, hc, Nat.shiftRight_eq_div_pow]
    show _ = 0
    omega
  · rw [toNat_unpackSign, Nat.shiftRight_eq_div_pow, hb]
    rfl

theorem neg_ofBits {x : Float} (hsign : x.toBits.toNat >>> 63 = 1)
    (hnumber : (x.toBits.toNat >>> 52) % 2048 = 2047 → x.toBits.toNat % 2 ^ 52 = 0) :
    -Float.ofBits (unsigned x).toUInt64 = x := by
  have hlimit : unsigned x < 2 ^ 64 := by
    rw [unsigned]
    omega
  have hbits : (unsigned x).toUInt64.toBitVec.toNat = x.toBits.toBitVec.toNat % 2 ^ 63 :=
    UInt64.toNat_ofNat_of_lt' hlimit
  rw [Nat.shiftRight_eq_div_pow] at hsign
  obtain ⟨hmantissa, hexponent, hplus, hminus⟩ :=
    @unpack_unsigned x.toBits.toBitVec (unsigned x).toUInt64.toBitVec hsign hbits
  have hvalid : Format.binary64.Valid (unsigned x).toUInt64.toBitVec := by
    refine ⟨fun he hm => absurd (BitVec.eq_of_toNat_eq ?_) hm⟩
    rw [hexponent] at he
    have hmax := congrArg BitVec.toNat he
    rw [toNat_unpackExponent] at hmax
    rw [hmantissa, toNat_unpackMantissa]
    exact hnumber hmax
  have hx : Format.binary64.Valid x.toBits.toBitVec := x.toModel.valid
  apply Float.toBits_inj.1
  show UInt64.ofBitVec (pack .binary64 (unpack .binary64
    (Float.ofBits (unsigned x).toUInt64).toBits.toBitVec).neg) = _
  rw [toBits_ofBits hvalid, unpack_neg hmantissa hexponent (by rw [hplus, hminus]; rfl),
    pack_unpack_of_valid hx]

theorem pos_ofBits {x : Float} (hsign : x.toBits.toNat >>> 63 ≠ 1) :
    Float.ofBits (unsigned x).toUInt64 = x := by
  have hlimit : x.toBits.toNat < 2 ^ 64 := x.toBits.toNat_lt
  rw [Nat.shiftRight_eq_div_pow] at hsign
  have hsame : unsigned x = x.toBits.toNat := by
    rw [unsigned]
    omega
  rw [hsame, Nat.toUInt64_eq, UInt64.ofNat_toNat, Float.ofBits_toBits]

theorem eq_nan {x : Float} (he : (x.toBits.toNat >>> 52) % 2048 = 2047)
    (hm : x.toBits.toNat % 2 ^ 52 ≠ 0) : x = 0.0 / 0.0 := by
  have hbits : x.toBits.toBitVec = packedNaN .binary64 := by
    apply x.toModel.valid.eq_packedNaN
    · apply BitVec.eq_of_toNat_eq
      rw [toNat_unpackExponent]
      exact he
    · intro hzero
      have := congrArg BitVec.toNat hzero
      rw [toNat_unpackMantissa] at this
      exact hm this
  have hnan : (0.0 / 0.0 : Float).toBits.toBitVec = packedNaN .binary64 := by decide
  exact Float.toBits_inj.1 (UInt64.toBitVec_inj.1 (hbits.trans hnan.symm))

end RepoWiki.Decimal
