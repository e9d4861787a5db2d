import RepoWiki.Text.Basic
/-
Decoding UTF-8. A fault says which octets are wrong and why, so that its message can name them.

Texts that are read line by line are decoded in blocks: octets of a character that a block cuts
off wait for the next block, and positions in faults count from the octets that waited.
-/

namespace RepoWiki.Text.Utf8

inductive Reason where
  | invalidStart
  | invalidContinuation
  | unexpectedEnd
  /-- Fewer octets than a unit has. -/
  | truncated
  | outOfRange
  deriving DecidableEq, Repr

def Reason.message : Reason → String
  | .invalidStart => "invalid start byte"
  | .invalidContinuation => "invalid continuation byte"
  | .unexpectedEnd => "unexpected end of data"
  | .truncated => "truncated data"
  | .outOfRange => "code point not in range(0x110000)"

/-- `length` wrong octets from `position` on, the first of which is `octet`. -/
structure Fault where
  encoding : String
  reason : Reason
  position : Nat
  length : Nat
  octet : Nat
  deriving DecidableEq, Repr

def octetDigits (n : Nat) : String :=
  let digits := Nat.toDigits 16 n
  String.ofList (if digits.length < 2 then '0' :: digits else digits)

def Fault.message (f : Fault) : String :=
  if f.length = 1 then
    s!"'{f.encoding}' codec can't decode byte 0x{octetDigits f.octet} in position {f.position}: " ++
      f.reason.message
  else
    s!"'{f.encoding}' codec can't decode bytes in position " ++
      s!"{f.position}-{f.position + f.length - 1}: {f.reason.message}"

def name : String := "utf-8"

/-- What stands at the start of a list of octets. -/
inductive Head where
  | done
  | char (c : Char) (length : Nat)
  | wrong (reason : Reason) (length : Nat)

def isTail (b : Nat) : Bool :=
  0x80 ≤ b && b ≤ 0xBF

/-- Whether `b` may be the second octet after `a`: overlong forms, surrogates and code points
past the last one are ruled out here. -/
def isSecond (a b : Nat) : Bool :=
  isTail b && !(a == 0xE0 && b < 0xA0) && !(a == 0xED && 0xA0 ≤ b) &&
    !(a == 0xF0 && b < 0x90) && !(a == 0xF4 && 0x90 ≤ b)

def headOf (octets : List Nat) : Head :=
  match octets with
  | [] => .done
  | a :: rest =>
      if a < 0x80 then .char (Char.ofNat a) 1
      else if a < 0xC2 || 0xF5 ≤ a then .wrong .invalidStart 1
      else
        match rest with
        | [] => .wrong .unexpectedEnd 1
        | b :: rest =>
            if !isSecond a b then .wrong .invalidContinuation 1
            else if a < 0xE0 then .char (Char.ofNat ((a - 0xC0) * 0x40 + (b - 0x80))) 2
            else
              match rest with
              | [] => .wrong .unexpectedEnd 2
              | c :: rest =>
                  if !isTail c then .wrong .invalidContinuation 2
                  else if a < 0xF0 then
                    .char (Char.ofNat ((a - 0xE0) * 0x1000 + (b - 0x80) * 0x40 + (c - 0x80))) 3
                  else
                    match rest with
                    | [] => .wrong .unexpectedEnd 3
                    | d :: _ =>
                        if !isTail d then .wrong .invalidContinuation 3
                        else
                          .char (Char.ofNat ((a - 0xF0) * 0x40000 + (b - 0x80) * 0x1000 +
                            (c - 0x80) * 0x40 + (d - 0x80))) 4

def decodeFrom : Nat → Nat → List Char → List Nat → Except Fault (List Char)
  | 0, _, done, _ => .ok done.reverse
  | fuel + 1, position, done, octets =>
      match headOf octets with
      | .done => .ok done.reverse
      | .char c n => decodeFrom fuel (position + n) (c :: done) (octets.drop n)
      | .wrong reason n => .error ⟨name, reason, position, n, octets.headD 0⟩

def decode (octets : List Nat) : Except Fault (List Char) :=
  decodeFrom (octets.length + 1) 0 [] octets

def decodeLossyFrom : Nat → List Char → List Nat → List Char
  | 0, done, _ => done.reverse
  | fuel + 1, done, octets =>
      match headOf octets with
      | .done => done.reverse
      | .char c n => decodeLossyFrom fuel (c :: done) (octets.drop n)
      | .wrong _ n => decodeLossyFrom fuel (Char.ofNat 0xFFFD :: done) (octets.drop n)

def decodeLossy (octets : List Nat) : List Char :=
  decodeLossyFrom (octets.length + 1) [] octets

def mayContinue (reason : Reason) (octets : List Nat) : Bool :=
  match reason, octets with
  | .unexpectedEnd, _ => true
  | .invalidContinuation, [0xED, b] => 0xA0 ≤ b && b ≤ 0xBF
  | _, _ => false

def decodeBlock : Nat → Nat → List Char → List Nat → Except Fault (List Char × List Nat)
  | 0, _, done, octets => .ok (done, octets)
  | fuel + 1, position, done, octets =>
      match headOf octets with
      | .done => .ok (done, [])
      | .char c n => decodeBlock fuel (position + n) (c :: done) (octets.drop n)
      | .wrong reason n =>
          if mayContinue reason octets then .ok (done, octets)
          else .error ⟨name, reason, position, n, octets.headD 0⟩

def decodeBlocks : Nat → Nat → List Char → List Nat → List Nat → Except Fault (List Char)
  | 0, _, done, _, _ => .ok done.reverse
  | fuel + 1, size, done, waiting, octets =>
      if octets.isEmpty then
        (decode waiting).map fun cs => done.reverse ++ cs
      else do
        let input := waiting ++ octets.take size
        let (done, waiting) ← decodeBlock (input.length + 1) 0 done input
        decodeBlocks fuel size done waiting (octets.drop size)

def blockSize : Nat := 8192

def decodeInBlocks (octets : List Nat) : Except Fault (List Char) :=
  decodeBlocks (octets.length + 1) blockSize [] [] octets

/-! ## Encoding -/

def encodeChar (c : Char) : List Nat :=
  let n := c.toNat
  if n < 0x80 then [n]
  else if n < 0x800 then [0xC0 + n / 0x40, 0x80 + n % 0x40]
  else if n < 0x10000 then [0xE0 + n / 0x1000, 0x80 + n / 0x40 % 0x40, 0x80 + n % 0x40]
  else
    [0xF0 + n / 0x40000, 0x80 + n / 0x1000 % 0x40, 0x80 + n / 0x40 % 0x40, 0x80 + n % 0x40]

def encode (s : String) : List Nat :=
  s.toList.flatMap encodeChar

end RepoWiki.Text.Utf8
