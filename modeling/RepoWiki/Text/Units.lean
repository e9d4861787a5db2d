import RepoWiki.Text.Utf8

namespace RepoWiki.Text.Units

inductive Order where
  | little
  | big
  deriving DecidableEq, Repr

def Order.label : Order → String
  | .little => "le"
  | .big => "be"

def Order.value (order : Order) (octets : List Nat) : Nat :=
  let ordered := match order with
    | .little => octets.reverse
    | .big => octets
  ordered.foldl (fun n b => n * 256 + b) 0

def charOf (n : Nat) : Char :=
  if 0xD800 ≤ n ∧ n ≤ 0xDFFF then Char.ofNat 0xFFFD else Char.ofNat n

def isHigh (n : Nat) : Bool :=
  0xD800 ≤ n && n ≤ 0xDBFF

def isLow (n : Nat) : Bool :=
  0xDC00 ≤ n && n ≤ 0xDFFF

def joinPairs : List Nat → List Char
  | [] => []
  | [n] => [charOf n]
  | high :: low :: rest =>
      if isHigh high && isLow low then
        Char.ofNat (0x10000 + (high - 0xD800) * 0x400 + (low - 0xDC00)) :: joinPairs rest
      else charOf high :: joinPairs (low :: rest)
termination_by units => units.length

def units16 (order : Order) (position : Nat) : List Nat → Except Utf8.Fault (List Nat)
  | [] => .ok []
  | a :: b :: rest => do return order.value [a, b] :: (← units16 order (position + 2) rest)
  | [a] => .error ⟨"utf-16-" ++ order.label, .truncated, position, 1, a⟩

def decode16 (order : Order) (octets : List Nat) : Except Utf8.Fault (List Char) :=
  (units16 order 0 octets).map joinPairs

def decode32From (order : Order) (position : Nat) : List Nat → Except Utf8.Fault (List Char)
  | [] => .ok []
  | a :: b :: c :: d :: rest => do
      let n := order.value [a, b, c, d]
      if 0x110000 ≤ n then .error ⟨"utf-32-" ++ order.label, .outOfRange, position, 4, a⟩
      return charOf n :: (← decode32From order (position + 4) rest)
  | a :: rest => .error ⟨"utf-32-" ++ order.label, .truncated, position, rest.length + 1, a⟩

def decode32 (order : Order) (octets : List Nat) : Except Utf8.Fault (List Char) :=
  decode32From order 0 octets

end RepoWiki.Text.Units
