import RepoWiki.Text.Basic
/-
Octets written with sixty-four characters, four characters for three octets. Reading is lenient:
characters outside the alphabet are passed over, and what follows a complete padding is ignored.
-/

namespace RepoWiki.Text.Base64

def digitChar (n : Nat) : Char :=
  if n < 26 then Char.ofNat (65 + n)
  else if n < 52 then Char.ofNat (97 + (n - 26))
  else if n < 62 then Char.ofNat (48 + (n - 52))
  else if n = 62 then '+'
  else '/'

def value? (c : Char) : Option Nat :=
  if 'A' ≤ c && c ≤ 'Z' then some (c.toNat - 65)
  else if 'a' ≤ c && c ≤ 'z' then some (c.toNat - 97 + 26)
  else if '0' ≤ c && c ≤ '9' then some (c.toNat - 48 + 52)
  else if c = '+' then some 62
  else if c = '/' then some 63
  else none

def encode : List Nat → List Char
  | [] => []
  | [a] => [digitChar (a / 4), digitChar (a % 4 * 16), '=', '=']
  | [a, b] =>
      [digitChar (a / 4), digitChar (a % 4 * 16 + b / 16), digitChar (b % 16 * 4), '=']
  | a :: b :: c :: rest =>
      digitChar (a / 4) :: digitChar (a % 4 * 16 + b / 16) ::
        digitChar (b % 16 * 4 + c / 64) :: digitChar (c % 64) :: encode rest

inductive Problem where
  /-- One character is left over, after this many in all. -/
  | leftOver (count : Nat)
  | padding
  deriving DecidableEq, Repr

def Problem.message : Problem → String
  | .leftOver count =>
      s!"Invalid base64-encoded string: number of data characters ({count}) cannot be 1 more " ++
        "than a multiple of 4"
  | .padding => "Incorrect padding"

/-- The state of reading: how many characters of the current group of four have come, the bits
they left over, the padding seen since, and the octets so far in reverse. -/
structure Progress where
  position : Nat := 0
  left : Nat := 0
  pads : Nat := 0
  octets : List Nat := []

def Progress.push (p : Progress) (v : Nat) : Progress :=
  match p.position with
  | 0 => { p with position := 1, left := v, pads := 0 }
  | 1 => ⟨2, v % 16, 0, (p.left * 4 + v / 16) :: p.octets⟩
  | 2 => ⟨3, v % 4, 0, (p.left * 16 + v / 4) :: p.octets⟩
  | _ => ⟨0, 0, 0, (p.left * 64 + v) :: p.octets⟩

def Progress.finish (p : Progress) : Except Problem (List Nat) :=
  match p.position with
  | 0 => .ok p.octets.reverse
  | 1 => .error (.leftOver (p.octets.length / 3 * 4 + 1))
  | _ => .error .padding

def decodeFrom : Progress → List Char → Except Problem (List Nat)
  | p, [] => p.finish
  | p, c :: rest =>
      if c = '=' then
        if 2 ≤ p.position then
          if 4 ≤ p.position + p.pads + 1 then .ok p.octets.reverse
          else decodeFrom { p with pads := p.pads + 1 } rest
        else decodeFrom p rest
      else
        match value? c with
        | some v => decodeFrom (p.push v) rest
        | none => decodeFrom p rest

def decode (cs : List Char) : Except Problem (List Nat) :=
  decodeFrom {} cs

end RepoWiki.Text.Base64
