import RepoWiki.Decimal.Shortest
/-
The double nearest to a decimal, and the whole numbers among the doubles. All arithmetic is exact.
-/

namespace RepoWiki.Decimal

def Ratio.halve (r : Ratio) (q : Int) : Ratio :=
  match q with
  | .ofNat k => ⟨r.num, r.den * Nat.pow 2 k⟩
  | .negSucc k => ⟨r.num * Nat.pow 2 (k + 1), r.den⟩

/-- The `k` with `2 ^ k ≤ r < 2 ^ (k + 1)`. -/
def binaryMagnitude (r : Ratio) : Int :=
  let k : Int := (r.num.log2 : Int) - r.den.log2
  let scaled := r.halve k
  if scaled.den ≤ scaled.num then k else k - 1

def leastExponent : Int := -1074

def infinityBits : Nat := 2047 * Nat.pow 2 52

def nearestBits (r : Ratio) : Nat :=
  let q := max (binaryMagnitude r - 52) leastExponent
  min ((q - leastExponent).toNat * Nat.pow 2 52 + (r.halve q).round) infinityBits

/-- The double nearest to `digits * 10 ^ e`. Decimals far outside the range of doubles are not
worked out. -/
def nearest (digits : Nat) (e : Int) : Float :=
  let size := (Nat.toDigits 10 digits).length + e
  if digits = 0 ∨ size < -330 then 0.0
  else if 310 < size then Float.ofBits infinityBits.toUInt64
  else Float.ofBits (nearestBits (Scientific.mk digits e).ratio).toUInt64

def whole? (x : Float) : Option Int :=
  let bits := x.toBits.toNat
  let e : Nat := (bits >>> 52) % 2048
  let f : Nat := bits % Nat.pow 2 52
  let sign : Int := if bits >>> 63 = 1 then -1 else 1
  if e = 2047 then none
  else
    let r := if e = 0 then Ratio.ofBinary f leastExponent
      else Ratio.ofBinary (f + Nat.pow 2 52) ((e : Int) - 1075)
    if r.num % r.den = 0 then some (sign * (r.num / r.den : Nat)) else none

end RepoWiki.Decimal
