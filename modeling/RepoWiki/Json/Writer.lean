import RepoWiki.Json.Basic
import RepoWiki.Decimal.Shortest
/-
Writing values as JSON text. One `Style` record fixes the separators, the indentation and which
characters are escaped.
-/

namespace RepoWiki.Json

/-- The decisions of a JSON text. With `indent`, every item stands on a line of its own. -/
structure Style where
  indent : Option Nat := none
  itemMark : String := ", "
  keyMark : String := ": "
  ascii : Bool := true
  sorted : Bool := false

def Style.indented : Style :=
  ⟨some 2, ",", ": ", false, false⟩

def Style.indentedAscii : Style :=
  ⟨some 2, ",", ": ", true, false⟩

def Style.line : Style :=
  {}

def Style.compact : Style :=
  ⟨none, ",", ":", false, false⟩

def Style.canonical : Style :=
  ⟨none, ",", ":", false, true⟩

/-- The lower-case digits of `n` to base sixteen, filled with zeros to `width` places. -/
def hexDigits (width n : Nat) : List Char :=
  let digits := Nat.toDigits 16 n
  List.replicate (width - digits.length) '0' ++ digits

def unitEscape (n : Nat) : List Char :=
  '\\' :: 'u' :: hexDigits 4 n

/-- A code point as one escape, or as two where it does not fit into sixteen bits. -/
def escapeChar (c : Char) : List Char :=
  let n := c.toNat
  if n < 0x10000 then unitEscape n
  else
    unitEscape (0xD800 + (n - 0x10000) / 0x400) ++ unitEscape (0xDC00 + (n - 0x10000) % 0x400)

def quoteChar (ascii : Bool) (c : Char) : List Char :=
  if c = '"' then ['\\', '"']
  else if c = '\\' then ['\\', '\\']
  else if c = '\n' then ['\\', 'n']
  else if c = '\r' then ['\\', 'r']
  else if c = '\t' then ['\\', 't']
  else if c.toNat = 0x0C then ['\\', 'f']
  else if c.toNat = 0x08 then ['\\', 'b']
  else if c.toNat < 0x20 then escapeChar c
  else if ascii && 0x7E < c.toNat then escapeChar c
  else [c]

def quote (ascii : Bool) (s : String) : String :=
  String.ofList ('"' :: (s.toList.flatMap (quoteChar ascii) ++ ['"']))

def realStyle : Decimal.Style :=
  ⟨"NaN", "Infinity"⟩

def Style.break (style : Style) (depth : Nat) : String :=
  match style.indent with
  | none => ""
  | some width => "\n" ++ String.ofList (List.replicate (width * depth) ' ')

def Style.enclose (style : Style) (depth : Nat) (l r : String) (items : List String) : String :=
  if items.isEmpty then l ++ r
  else
    l ++ style.break (depth + 1) ++
      (style.itemMark ++ style.break (depth + 1)).intercalate items ++ style.break depth ++ r

def Style.arrange (style : Style) (members : List (String × String)) : List (String × String) :=
  if style.sorted then members.mergeSort fun a b => a.1 ≤ b.1 else members

mutual

def writeAt (style : Style) (depth : Nat) : Json → String
  | .null => "null"
  | .bool true => "true"
  | .bool false => "false"
  | .int n => toString n
  | .real x => Decimal.write realStyle x
  | .str s => quote style.ascii s
  | .arr items => style.enclose depth "[" "]" (writeItems style (depth + 1) items)
  | .obj fields =>
      style.enclose depth "\x7b" "\x7d" <|
        (style.arrange (writeFields style (depth + 1) fields)).map fun (k, v) =>
          quote style.ascii k ++ style.keyMark ++ v

def writeItems (style : Style) (depth : Nat) : List Json → List String
  | [] => []
  | v :: rest => writeAt style depth v :: writeItems style depth rest

def writeFields (style : Style) (depth : Nat) : List (String × Json) → List (String × String)
  | [] => []
  | (k, v) :: rest => (k, writeAt style depth v) :: writeFields style depth rest

end

def write (style : Style) (v : Json) : String :=
  writeAt style 0 v

end RepoWiki.Json
