import RepoWiki.Json.Writer
import RepoWiki.Text.Word
import RepoWiki.Text.HiddenTable
/-
The text of a value inside messages: words for null and the truth values, texts between single
quotes, lists and objects with blanks after their marks.
-/

namespace RepoWiki
namespace Text

def isPrintable (c : Char) : Bool :=
  let n := c.toNat
  if n < 0x80 then 0x20 ≤ n && n ≤ 0x7E else !inRanges hiddenRanges n

def displayChar (mark c : Char) : List Char :=
  let n := c.toNat
  if c = mark || c = '\\' then ['\\', c]
  else if c = '\n' then ['\\', 'n']
  else if c = '\r' then ['\\', 'r']
  else if c = '\t' then ['\\', 't']
  else if isPrintable c then [c]
  else if n < 0x100 then '\\' :: 'x' :: Json.hexDigits 2 n
  else if n < 0x10000 then '\\' :: 'u' :: Json.hexDigits 4 n
  else '\\' :: 'U' :: Json.hexDigits 8 n

def singleQuote : Char :=
  Char.ofNat 0x27

def display (s : String) : String :=
  let cs := s.toList
  let mark := if cs.contains singleQuote && !cs.contains '"' then '"' else singleQuote
  String.ofList (mark :: (cs.flatMap (displayChar mark) ++ [mark]))

end Text

namespace Json

def displayRealStyle : Decimal.Style :=
  ⟨"nan", "inf"⟩

mutual

def display : Json → String
  | .null => "None"
  | .bool true => "True"
  | .bool false => "False"
  | .int n => toString n
  | .real x => Decimal.write displayRealStyle x
  | .str s => Text.display s
  | .arr items => "[" ++ ", ".intercalate (displayItems items) ++ "]"
  | .obj fields => "\x7b" ++ ", ".intercalate (displayFields fields) ++ "\x7d"

def displayItems : List Json → List String
  | [] => []
  | v :: rest => display v :: displayItems rest

def displayFields : List (String × Json) → List String
  | [] => []
  | (k, v) :: rest => (Text.display k ++ ": " ++ display v) :: displayFields rest

end

/-- A value put into a running text: texts as they are, all else as displayed. -/
def inText : Json → String
  | .str s => s
  | v => display v

def kindName : Json → String
  | .null => "NoneType"
  | .bool _ => "bool"
  | .int _ => "int"
  | .real _ => "float"
  | .str _ => "str"
  | .arr _ => "list"
  | .obj _ => "dict"

end Json
end RepoWiki
