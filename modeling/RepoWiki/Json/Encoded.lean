import RepoWiki.Json.Reader
import RepoWiki.Text.Units
/-
JSON in octets. How the text is encoded is told by a mark at the start, or else by the zeros among
the first octets: the first two characters of a JSON text are never zero.
-/

namespace RepoWiki.Json

inductive Encoding where
  | utf8
  | markedUtf8
  | utf16 (order : Text.Units.Order)
  | utf32 (order : Text.Units.Order)
  deriving DecidableEq, Repr

def Encoding.ofOctets : List Nat → Encoding
  | 0xEF :: 0xBB :: 0xBF :: _ => .markedUtf8
  | 0 :: 0 :: _ :: _ :: _ => .utf32 .big
  | 0 :: _ :: _ :: _ :: _ => .utf16 .big
  | _ :: 0 :: 0 :: 0 :: _ => .utf32 .little
  | _ :: 0 :: _ :: _ :: _ => .utf16 .little
  | [0, _] => .utf16 .big
  | [_, 0] => .utf16 .little
  | _ => .utf8

def Encoding.decode (e : Encoding) (octets : List Nat) : Except Text.Utf8.Fault (List Char) :=
  match e with
  | .utf8 => Text.Utf8.decode octets
  | .markedUtf8 => Text.Utf8.decode (octets.drop 3)
  | .utf16 order => Text.Units.decode16 order octets
  | .utf32 order => Text.Units.decode32 order octets

def readOctets (octets : List Nat) : Result Json :=
  match (Encoding.ofOctets octets).decode octets with
  | .error fault => .error (.decode fault)
  | .ok cs => (readChars cs).mapError (ReadFault.toFault cs)

end RepoWiki.Json
