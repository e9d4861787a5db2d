/-
The shortest decimal that reads back as a given binary fraction.

A positive double is `m * 2 ^ q`. The reals that round to it form an interval around it, closed
if `m` is even. The grids of one, two, … seventeen significant digits are tried in turn: the
first grid with a point in the interval wins, and of two such points the nearer one.
-/

namespace RepoWiki.Decimal

structure Scientific where
  digits : Nat
  exponent : Int
  deriving DecidableEq, Repr

structure Ratio where
  num : Nat
  den : Nat

def Ratio.ofBinary (n : Nat) (q : Int) : Ratio :=
  match q with
  | .ofNat k => ⟨n * Nat.pow 2 k, 1⟩
  | .negSucc k => ⟨n, Nat.pow 2 (k + 1)⟩

def Ratio.shift (r : Ratio) (k : Int) : Ratio :=
  match k with
  | .ofNat k => ⟨r.num * Nat.pow 10 k, r.den⟩
  | .negSucc k => ⟨r.num, r.den * Nat.pow 10 (k + 1)⟩

def Ratio.le (a b : Ratio) : Bool :=
  a.num * b.den ≤ b.num * a.den

def Ratio.lt (a b : Ratio) : Bool :=
  a.num * b.den < b.num * a.den

/-- Whether a ratio lies between two others, which are inside themselves if `closed`. -/
def Ratio.between (p lo hi : Ratio) (closed : Bool) : Bool :=
  if closed then lo.le p && p.le hi else lo.lt p && p.lt hi

def Ratio.round (r : Ratio) : Nat :=
  let below := r.num / r.den
  let rest := r.num % r.den
  if 2 * rest < r.den ∨ (2 * rest = r.den ∧ below % 2 = 0) then below else below + 1

/-- How many places a ratio below one must move until it reaches one. -/
def leadingZeros : Nat → Ratio → Nat
  | 0, _ => 0
  | fuel + 1, r => if r.den ≤ r.num * 10 then 0 else leadingZeros fuel (r.shift 1) + 1

/-- The `k` with `10 ^ (k - 1) ≤ r < 10 ^ k`. -/
def magnitude (r : Ratio) : Int :=
  if r.den ≤ r.num then (Nat.toDigits 10 (r.num / r.den)).length
  else -(leadingZeros 400 r : Int)

def Scientific.normalize : Nat → Scientific → Scientific
  | 0, d => d
  | fuel + 1, d =>
      if d.digits % 10 = 0 ∧ d.digits ≠ 0 then
        Scientific.normalize fuel ⟨d.digits / 10, d.exponent + 1⟩
      else d

def Scientific.ratio (d : Scientific) : Ratio :=
  (Ratio.mk d.digits 1).shift d.exponent

/-- A point of the grid of `n` significant digits inside the interval, if there is one. -/
def gridPoint? (v lo hi : Ratio) (closed : Bool) (k : Int) (n : Nat) : Option Scientific :=
  let scaled := v.shift (n - k)
  let below := scaled.num / scaled.den
  let nearer := scaled.round
  let farther := if nearer = below then below + 1 else below
  ([nearer, farther].map (Scientific.mk · (k - n))).find? (·.ratio.between lo hi closed)

/-- The shortest decimal for `m * 2 ^ q`, where `m` is positive. `tight` tells that the lower
neighbour is only half as far away as the upper one. -/
def shortest (m : Nat) (q : Int) (tight : Bool) : Scientific :=
  let v := Ratio.ofBinary (4 * m) (q - 2)
  let hi := Ratio.ofBinary (4 * m + 2) (q - 2)
  let lo := Ratio.ofBinary (if tight then 4 * m - 1 else 4 * m - 2) (q - 2)
  let k := magnitude v
  let found := (List.range 17).findSome? fun i => gridPoint? v lo hi (m % 2 = 0) k (i + 1)
  (found.getD ⟨m, q⟩).normalize 20

/-! ## Text of a double -/

/-- How a number is written: `nan` and `infinity` are the words for the values that have no
digits. -/
structure Style where
  nan : String
  infinity : String

/-- Digits of `d` with the point after `point` of them, with at least one digit on each side. -/
def positional (digits : List Char) (point : Int) : List Char :=
  if point ≤ 0 then
    '0' :: '.' :: (List.replicate (-point).toNat '0' ++ digits)
  else if digits.length ≤ point.toNat then
    digits ++ List.replicate (point.toNat - digits.length) '0' ++ ['.', '0']
  else digits.take point.toNat ++ '.' :: digits.drop point.toNat

/-- One digit before the point, then the exponent with its sign and at least two digits. -/
def exponential (digits : List Char) (e : Int) : List Char :=
  let mantissa := match digits with
    | [] => []
    | [c] => [c]
    | c :: rest => c :: '.' :: rest
  let size := Nat.toDigits 10 e.natAbs
  mantissa ++ 'e' :: (if e < 0 then '-' else '+') ::
    (if size.length < 2 then '0' :: size else size)

/-- The text of a decimal: positional for decimal exponents from -4 to 15, else exponential. -/
def Scientific.text (d : Scientific) : List Char :=
  let digits := Nat.toDigits 10 d.digits
  let point := digits.length + d.exponent
  if -4 < point ∧ point ≤ 16 then positional digits point
  else exponential digits (point - 1)

def shortestOf (e f : Nat) : Scientific :=
  if e = 0 then shortest f (-1074) false
  else shortest (f + Nat.pow 2 52) ((e : Int) - 1075) (f = 0 ∧ 1 < e)

def write (style : Style) (x : Float) : String :=
  let bits := x.toBits.toNat
  let sign := if bits >>> 63 = 1 then "-" else ""
  let e : Nat := (bits >>> 52) % 2048
  let f : Nat := bits % Nat.pow 2 52
  if e = 2047 then
    if f = 0 then sign ++ style.infinity else style.nan
  else if e = 0 ∧ f = 0 then sign ++ "0.0"
  else sign ++ String.ofList (shortestOf e f).text

end RepoWiki.Decimal
