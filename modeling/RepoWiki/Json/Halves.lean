import RepoWiki.Json.Reader
/-
Halves of pairs that stand alone. A text of JSON may escape half of a pair with no other half next
to it. No character stands for such a half, and no file can hold it: a value is written piece by
piece, and writing stops before the first piece with a half in it.

To find that piece the text is read once more with its halves spelled out: the replacement
character begins a spelling, it comes twice where it stands for itself, and for a half it comes
before the character that stands in for it.
-/

namespace RepoWiki.Json.Halves

/-! ## Spelling -/

def mark : Char := Char.ofNat 0xFFFD

def shift : Nat := 0x8000

def isHalf (n : Nat) : Bool :=
  isHighUnit n || isLowUnit n

inductive Part where
  | half (unit : Nat)
  | mark
  | kept (chars : List Char)
  deriving DecidableEq, Repr

/-- The part that an escape of a unit makes when it is not the first of a pair. -/
def Part.ofUnit (chars : List Char) (n : Nat) : Part :=
  if isHalf n then .half n else if n = Halves.mark.toNat then .mark else .kept chars

def parts : List Char → List Part
  | [] => []
  | '\\' :: 'u' :: a :: b :: c :: d :: '\\' :: 'u' :: e :: f :: g :: h :: rest =>
      match unit? a b c d, unit? e f g h with
      | some high, some low =>
          if isHighUnit high && isLowUnit low then
            .kept ['\\', 'u', a, b, c, d, '\\', 'u', e, f, g, h] :: parts rest
          else
            .ofUnit ['\\', 'u', a, b, c, d] high ::
              parts ('\\' :: 'u' :: e :: f :: g :: h :: rest)
      | _, _ =>
          .kept ['\\', 'u', a, b, c, d] :: parts ('\\' :: 'u' :: e :: f :: g :: h :: rest)
  | '\\' :: 'u' :: a :: b :: c :: d :: rest =>
      match unit? a b c d with
      | some n => .ofUnit ['\\', 'u', a, b, c, d] n :: parts rest
      | none => .kept ['\\', 'u', a, b, c, d] :: parts rest
  | '\\' :: c :: rest => .kept ['\\', c] :: parts rest
  | c :: rest => (if c = mark then .mark else .kept [c]) :: parts rest

def Part.isHalf : Part → Bool
  | .half _ => true
  | _ => false

def Part.spell : Part → List Char
  | .half n => [Halves.mark, Char.ofNat (n - shift)]
  | .mark => [Halves.mark, Halves.mark]
  | .kept chars => chars

def codes : List Char → List Nat
  | [] => []
  | [c] => [c.toNat]
  | a :: b :: rest =>
      if a = mark then (if b = mark then b.toNat else b.toNat + shift) :: codes rest
      else a.toNat :: codes (b :: rest)

def plain (s : String) : String :=
  String.ofList ((codes s.toList).map Char.ofNat)

/-! ## Pieces -/

def isLeaf : Json → Bool
  | .arr _ | .obj _ => false
  | _ => true

mutual

def pieces (style : Style) (depth : Nat) : Json → List String
  | .arr items =>
      if items.isEmpty then ["[]"]
      else
        itemPieces style (depth + 1) ("[" ++ style.break (depth + 1)) items ++
          [style.break depth, "]"]
  | .obj fields =>
      if fields.isEmpty then ["\x7b\x7d"]
      else
        "\x7b" :: fieldPieces style (depth + 1) (style.break (depth + 1)) fields ++
          [style.break depth, "\x7d"]
  | .null => [writeAt style depth .null]
  | .bool b => [writeAt style depth (.bool b)]
  | .int n => [writeAt style depth (.int n)]
  | .real x => [writeAt style depth (.real x)]
  | .str s => [writeAt style depth (.str s)]

def itemPieces (style : Style) (depth : Nat) (lead : String) : List Json → List String
  | [] => []
  | v :: rest =>
      (if isLeaf v then [lead ++ writeAt style depth v] else lead :: pieces style depth v) ++
        itemPieces style depth (style.itemMark ++ style.break depth) rest

def fieldPieces (style : Style) (depth : Nat) (lead : String) : Fields → List String
  | [] => []
  | (k, v) :: rest =>
      lead :: quote style.ascii k :: style.keyMark :: pieces style depth v ++
        fieldPieces style depth (style.itemMark ++ style.break depth) rest

end

def refusal? (piece : String) : Option EncodeFault :=
  let cs := codes piece.toList
  match cs.dropWhile fun n => !isHalf n with
  | [] => none
  | n :: rest =>
      let first := cs.length - rest.length - 1
      some ⟨"utf-8", n, first, first + (rest.takeWhile isHalf).length, "surrogates not allowed"⟩

def cutAmong? : List String → Option (String × EncodeFault)
  | [] => none
  | piece :: rest =>
      match refusal? piece with
      | some fault => some ("", fault)
      | none => (cutAmong? rest).map fun (written, fault) => (plain piece ++ written, fault)

/-- What is written of the value of a text before a half stops it, with what the half is refused
for; nothing if the value can be written in full. -/
def cut? (style : Style) (s : String) : Option (String × EncodeFault) :=
  let found := parts s.toList
  if found.any Part.isHalf then
    match read (String.ofList (found.flatMap Part.spell)) with
    | .ok v => cutAmong? (pieces style 0 v)
    | .error _ => none
  else none

end RepoWiki.Json.Halves
