import RepoWiki.Decimal.Nearest
import RepoWiki.Fault
import RepoWiki.Text.Digit
/-
Reading JSON text. A fault names its cause and the position where reading stopped; the message on
a text that is not JSON also gives the line and the column.
-/

namespace RepoWiki.Json

inductive Problem where
  | expectedValue
  | expectedName
  | expectedColon
  | expectedComma
  | unterminatedText
  | controlCharacter
  | badEscape
  | badUnitEscape
  | extraData
  | byteOrderMark
  | tooManyDigits (count : Nat)
  | listTooDeep
  | objectTooDeep
  deriving DecidableEq, Repr

def depthMessage (what : String) : String :=
  "maximum recursion depth exceeded while decoding a JSON " ++ what ++ " from a unicode string"

def Problem.message : Problem → String
  | .expectedValue => "Expecting value"
  | .expectedName => "Expecting property name enclosed in double quotes"
  | .expectedColon => "Expecting ':' delimiter"
  | .expectedComma => "Expecting ',' delimiter"
  | .unterminatedText => "Unterminated string starting at"
  | .controlCharacter => "Invalid control character at"
  | .badEscape => "Invalid \\escape"
  | .badUnitEscape => "Invalid \\uXXXX escape"
  | .extraData => "Extra data"
  | .byteOrderMark => "Unexpected UTF-8 BOM (decode using utf-8-sig)"
  | .tooManyDigits count => Text.tooLongMessage count
  | .listTooDeep => depthMessage "array"
  | .objectTooDeep => depthMessage "object"

structure ReadFault where
  problem : Problem
  position : Nat
  deriving DecidableEq, Repr

def lineColumn (cs : List Char) (position : Nat) : Nat × Nat :=
  (cs.take position).foldl
    (fun (line, column) c => if c == '\n' then (line + 1, 1) else (line, column + 1)) (1, 1)

def ReadFault.toFault (cs : List Char) (fault : ReadFault) : Fault :=
  let text := fault.problem.message
  match fault.problem with
  | .tooManyDigits _ => .value text
  | .listTooDeep | .objectTooDeep => .depth text
  | _ =>
      let (line, column) := lineColumn cs fault.position
      .json s!"{text}: line {line} column {column} (char {fault.position})"

structure Cursor where
  rest : List Char
  position : Nat

def isSpace (c : Char) : Bool :=
  c == ' ' || c == '\t' || c == '\n' || c == '\r'

def Cursor.skip (c : Cursor) : Cursor :=
  ⟨c.rest.dropWhile isSpace, c.position + (c.rest.takeWhile isSpace).length⟩

def Cursor.drop (c : Cursor) (n : Nat) : Cursor :=
  ⟨c.rest.drop n, c.position + n⟩

/-! ## Texts -/

def hexValue? (c : Char) : Option Nat :=
  if '0' ≤ c ∧ c ≤ '9' then some (c.toNat - '0'.toNat)
  else if 'a' ≤ c ∧ c ≤ 'f' then some (c.toNat - 'a'.toNat + 10)
  else if 'A' ≤ c ∧ c ≤ 'F' then some (c.toNat - 'A'.toNat + 10)
  else none

def unit? (a b c d : Char) : Option Nat := do
  let a ← hexValue? a
  let b ← hexValue? b
  let c ← hexValue? c
  let d ← hexValue? d
  return ((a * 16 + b) * 16 + c) * 16 + d

def isHighUnit (n : Nat) : Bool :=
  0xD800 ≤ n && n ≤ 0xDBFF

def isLowUnit (n : Nat) : Bool :=
  0xDC00 ≤ n && n ≤ 0xDFFF

/-- The character of a single unit. Half of a pair has none of its own and is replaced. -/
def unitChar (n : Nat) : Char :=
  if 0xD800 ≤ n ∧ n ≤ 0xDFFF then Char.ofNat 0xFFFD else Char.ofNat n

def pairChar (high low : Nat) : Char :=
  Char.ofNat (0x10000 + (high - 0xD800) * 0x400 + (low - 0xDC00))

def simpleEscape? (c : Char) : Option Char :=
  if c == '"' || c == '\\' || c == '/' then some c
  else if c == 'b' then some (Char.ofNat 0x08)
  else if c == 'f' then some (Char.ofNat 0x0C)
  else if c == 'n' then some '\n'
  else if c == 'r' then some '\r'
  else if c == 't' then some '\t'
  else none

/-- Reads a text after its opening quote, which stood at `start`. `done` is what was read so
far, last character first. -/
def textFrom (start : Nat) :
    Nat → List Char → List Char → Except ReadFault (String × Cursor)
  | _, _, [] => .error ⟨.unterminatedText, start⟩
  | pos, done, '"' :: rest => .ok (String.ofList done.reverse, ⟨rest, pos + 1⟩)
  | _, _, ['\\'] => .error ⟨.unterminatedText, start⟩
  | pos, done, '\\' :: 'u' :: a :: b :: c :: d :: '\\' :: 'u' :: e :: f :: g :: h :: i :: rest =>
      match unit? a b c d with
      | none => .error ⟨.badUnitEscape, pos + 1⟩
      | some high =>
          if isHighUnit high then
            match unit? e f g h with
            | none => .error ⟨.badUnitEscape, pos + 7⟩
            | some low =>
                if isLowUnit low then
                  textFrom start (pos + 12) (pairChar high low :: done) (i :: rest)
                else
                  textFrom start (pos + 6) (unitChar high :: done)
                    ('\\' :: 'u' :: e :: f :: g :: h :: i :: rest)
          else
            textFrom start (pos + 6) (unitChar high :: done)
              ('\\' :: 'u' :: e :: f :: g :: h :: i :: rest)
  | pos, done, '\\' :: 'u' :: a :: b :: c :: d :: e :: rest =>
      match unit? a b c d with
      | none => .error ⟨.badUnitEscape, pos + 1⟩
      | some n => textFrom start (pos + 6) (unitChar n :: done) (e :: rest)
  | pos, _, '\\' :: 'u' :: _ => .error ⟨.badUnitEscape, pos + 1⟩
  | pos, done, '\\' :: c :: rest =>
      match simpleEscape? c with
      | none => .error ⟨.badEscape, pos⟩
      | some x => textFrom start (pos + 2) (x :: done) rest
  | pos, done, c :: rest =>
      if c.toNat < 0x20 then .error ⟨.controlCharacter, pos⟩
      else textFrom start (pos + 1) (c :: done) rest

/-! ## Numbers -/

def digitValue (cs : List Char) : Nat :=
  cs.foldl (fun n c => n * 10 + (c.toNat - '0'.toNat)) 0

def isDigit (c : Char) : Bool :=
  '0' ≤ c && c ≤ '9'

def wholePart? (cs : List Char) : Option (List Char × List Char) :=
  match cs with
  | '0' :: rest => some (['0'], rest)
  | c :: rest =>
      if isDigit c then some (c :: rest.takeWhile isDigit, rest.dropWhile isDigit) else none
  | [] => none

def fraction (cs : List Char) : List Char × List Char :=
  match cs with
  | '.' :: c :: rest =>
      if isDigit c then (c :: rest.takeWhile isDigit, rest.dropWhile isDigit) else ([], cs)
  | _ => ([], cs)

/-- The exponent, if the mark is followed by at least one digit, and the number of characters it
takes. -/
def exponent (cs : List Char) : Option (Int × Nat) × List Char :=
  match cs with
  | e :: rest =>
      if e == 'e' || e == 'E' then
        let (signs, negative, body) := match rest with
          | '-' :: r => (1, true, r)
          | '+' :: r => (1, false, r)
          | r => (0, false, r)
        let digits := body.takeWhile isDigit
        if digits.isEmpty then (none, cs)
        else
          let n : Int := digitValue digits
          (some (if negative then -n else n, 1 + signs + digits.length), body.dropWhile isDigit)
      else (none, cs)
  | [] => (none, [])

def numberAt (c : Cursor) : Except ReadFault (Json × Cursor) :=
  let (signs, negative, body) := match c.rest with
    | '-' :: r => (1, true, r)
    | r => (0, false, r)
  match wholePart? body with
  | none => .error ⟨.expectedValue, c.position⟩
  | some (whole, afterWhole) =>
      let (places, afterPlaces) := fraction afterWhole
      let (power, rest) := exponent afterPlaces
      let width := signs + whole.length + (if places.isEmpty then 0 else places.length + 1) +
        power.elim 0 (·.2)
      let next : Cursor := ⟨rest, c.position + width⟩
      if places.isEmpty && power.isNone then
        if Text.digitLimit < whole.length then
          .error ⟨.tooManyDigits whole.length, c.position⟩
        else
          let n : Int := digitValue whole
          .ok (.int (if negative then -n else n), next)
      else
        let x := Decimal.nearest (digitValue (whole ++ places)) (power.elim 0 (·.1) - places.length)
        .ok (.real (if negative then -x else x), next)

/-! ## Values -/

def keywords : List (String × Json) :=
  [("null", .null), ("true", .bool true), ("false", .bool false),
    ("NaN", .real (0.0 / 0.0)), ("Infinity", .real (1.0 / 0.0)),
    ("-Infinity", .real (-1.0 / 0.0))]

def keyword? (c : Cursor) : Option (Json × Cursor) :=
  keywords.findSome? fun (word, v) =>
    if word.toList.isPrefixOf c.rest then some (v, c.drop word.length) else none

/-- Where the stack of the reader ends. No general theorem rests on the number. -/
def depthLimit : Nat := 985

mutual

def valueAt : Nat → Nat → Cursor → Except ReadFault (Json × Cursor)
  | 0, _, c => .error ⟨.expectedValue, c.position⟩
  | fuel + 1, room, c =>
      match c.rest with
      | '"' :: rest => do
          let (s, next) ← textFrom c.position (c.position + 1) [] rest
          return (.str s, next)
      | '\x7b' :: rest =>
          match room with
          | 0 => .error ⟨.objectTooDeep, c.position⟩
          | room + 1 =>
              let start := (Cursor.mk rest (c.position + 1)).skip
              match start.rest with
              | '\x7d' :: _ => .ok (.obj [], start.drop 1)
              | _ => fieldsFrom fuel room [] start
      | '[' :: rest =>
          match room with
          | 0 => .error ⟨.listTooDeep, c.position⟩
          | room + 1 =>
              let start := (Cursor.mk rest (c.position + 1)).skip
              match start.rest with
              | ']' :: _ => .ok (.arr [], start.drop 1)
              | _ => itemsFrom fuel room [] start
      | _ =>
          match keyword? c with
          | some found => .ok found
          | none => numberAt c

/-- Reads the items of a list up to its end; `done` holds those read, last one first. -/
def itemsFrom : Nat → Nat → List Json → Cursor → Except ReadFault (Json × Cursor)
  | 0, _, _, c => .error ⟨.expectedValue, c.position⟩
  | fuel + 1, room, done, c => do
      let (v, next) ← valueAt fuel room c
      let next := next.skip
      match next.rest with
      | ']' :: _ => return (.arr (v :: done).reverse, next.drop 1)
      | ',' :: _ => itemsFrom fuel room (v :: done) (next.drop 1).skip
      | _ => .error ⟨.expectedComma, next.position⟩

/-- Reads the fields of an object up to its end. A key that comes again takes the later value
and keeps its place. -/
def fieldsFrom : Nat → Nat → Fields → Cursor → Except ReadFault (Json × Cursor)
  | 0, _, _, c => .error ⟨.expectedName, c.position⟩
  | fuel + 1, room, done, c =>
      match c.rest with
      | '"' :: rest => do
          let (key, afterKey) ← textFrom c.position (c.position + 1) [] rest
          let afterKey := afterKey.skip
          match afterKey.rest with
          | ':' :: _ =>
              let (v, next) ← valueAt fuel room (afterKey.drop 1).skip
              let next := next.skip
              match next.rest with
              | '\x7d' :: _ => return (.obj (Fields.set key v done), next.drop 1)
              | ',' :: _ => fieldsFrom fuel room (Fields.set key v done) (next.drop 1).skip
              | _ => .error ⟨.expectedComma, next.position⟩
          | _ => .error ⟨.expectedColon, afterKey.position⟩
      | _ => .error ⟨.expectedName, c.position⟩

end

def readChars (cs : List Char) : Except ReadFault Json := do
  let (v, next) ← valueAt (2 * cs.length + 2) depthLimit (Cursor.mk cs 0).skip
  let next := next.skip
  if next.rest.isEmpty then return v else .error ⟨.extraData, next.position⟩

/-- Reads the value in a text, which must not begin with a byte order mark. -/
def read (s : String) : Result Json :=
  let cs := s.toList
  let found := if cs.head? = some (Char.ofNat 0xFEFF) then .error ⟨.byteOrderMark, 0⟩
    else readChars cs
  found.mapError (ReadFault.toFault cs)

end RepoWiki.Json
