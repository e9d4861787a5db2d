import RepoWiki.Json.Reader
/-
Texts inside addresses of the web: every octet other than those of letters, digits and four marks
is written as a percent sign and two hexadecimal digits.
-/

namespace RepoWiki.Text.Percent

def isPlain (c : Char) : Bool :=
  c.isAlpha || c.isDigit || oneOf "_.-~" c

def escape (octet : Nat) : List Char :=
  '%' :: (Json.hexDigits 2 octet).map Char.toUpper

def encodeChar (c : Char) : List Char :=
  if isPlain c then [c] else (Utf8.encodeChar c).flatMap escape

def encode (s : String) : String :=
  String.ofList (s.toList.flatMap encodeChar)

/-- The octets of a text of small characters. A percent sign without two digits stands for
itself. -/
def octets : List Char → List Nat
  | [] => []
  | '%' :: a :: b :: rest =>
      match Json.hexValue? a, Json.hexValue? b with
      | some m, some n => (16 * m + n) :: octets rest
      | _, _ => '%'.toNat :: octets (a :: b :: rest)
  | c :: rest => c.toNat :: octets rest

/-- Decodes each run of small characters for itself; `run` is the one under way, last first. -/
def decodeFrom (run : List Char) : List Char → List Char
  | [] => Utf8.decodeLossy (octets run.reverse)
  | c :: rest =>
      if c.toNat < 0x80 then decodeFrom (c :: run) rest
      else Utf8.decodeLossy (octets run.reverse) ++ c :: decodeFrom [] rest

def decode (s : String) : String :=
  String.ofList (decodeFrom [] s.toList)

end RepoWiki.Text.Percent
