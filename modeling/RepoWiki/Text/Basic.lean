/-
Cutting and joining texts. Each operation is defined on lists of characters, where its laws are
stated, and lifted to strings.
-/

namespace RepoWiki.Text

/-- White space of the Unicode standard together with the four information separators. -/
def isBlank (c : Char) : Bool :=
  let n := c.toNat
  if n < 0x80 then
    n == 0x20 || (0x09 ≤ n && n ≤ 0x0D) || (0x1C ≤ n && n ≤ 0x1F)
  else
    n == 0x85 || n == 0xA0 || n == 0x1680 || (0x2000 ≤ n && n ≤ 0x200A) ||
      n == 0x2028 || n == 0x2029 || n == 0x202F || n == 0x205F || n == 0x3000

/-! ## Trimming -/

def dropEndWhile (p : Char → Bool) (cs : List Char) : List Char :=
  (cs.reverse.dropWhile p).reverse

def trimEndBy (p : Char → Bool) (s : String) : String :=
  String.ofList (dropEndWhile p s.toList)

def trimBy (p : Char → Bool) (s : String) : String :=
  String.ofList (dropEndWhile p (s.toList.dropWhile p))

def strip (s : String) : String :=
  trimBy isBlank s

def oneOf (set : String) (c : Char) : Bool :=
  set.toList.contains c

/-! ## Searching -/

def startsWith (p s : String) : Bool :=
  p.toList.isPrefixOf s.toList

def endsWith (p s : String) : Bool :=
  p.toList.isSuffixOf s.toList

def hasInfixList (p : List Char) : List Char → Bool
  | [] => p.isEmpty
  | c :: rest => p.isPrefixOf (c :: rest) || hasInfixList p rest

def hasInfix (p s : String) : Bool :=
  hasInfixList p.toList s.toList

def cutList (sep : List Char) : List Char → Option (List Char × List Char)
  | [] => if sep.isEmpty then some ([], []) else none
  | c :: rest =>
      if sep.isPrefixOf (c :: rest) then some ([], (c :: rest).drop sep.length)
      else (cutList sep rest).map fun (before, after) => (c :: before, after)

def cut? (sep s : String) : Option (String × String) :=
  (cutList sep.toList s.toList).map fun (a, b) => (String.ofList a, String.ofList b)

def cutLast? (sep s : String) : Option (String × String) :=
  (cutList sep.toList.reverse s.toList.reverse).map fun (b, a) =>
    (String.ofList a.reverse, String.ofList b.reverse)

/-! ## Splitting and joining -/

/-- The pieces between the occurrences of `sep`. `skip` counts characters of an occurrence still
to be passed over; `piece` is the current piece in reverse. -/
def splitFrom (sep : List Char) : Nat → List Char → List Char → List (List Char)
  | _, piece, [] => [piece.reverse]
  | skip + 1, piece, _ :: rest => splitFrom sep skip piece rest
  | 0, piece, c :: rest =>
      if sep.isPrefixOf (c :: rest) then
        piece.reverse :: splitFrom sep (sep.length - 1) [] rest
      else splitFrom sep 0 (c :: piece) rest

/-- The pieces of a text between the occurrences of a separator that is not empty; always at
least one piece. -/
def splitOn (sep s : String) : List String :=
  (splitFrom sep.toList 0 [] s.toList).map String.ofList

def wordsFrom : List Char → List Char → List (List Char)
  | [], [] => []
  | piece@(_ :: _), [] => [piece.reverse]
  | piece, c :: rest =>
      if isBlank c then
        if piece.isEmpty then wordsFrom [] rest else piece.reverse :: wordsFrom [] rest
      else wordsFrom (c :: piece) rest

def words (s : String) : List String :=
  (wordsFrom [] s.toList).map String.ofList

def join (sep : String) (pieces : List String) : String :=
  sep.intercalate pieces

/-- Every occurrence of `old`, which is not empty, exchanged for `new`. -/
def replaceAll (old new s : String) : String :=
  join new (splitOn old s)

def repeated (n : Nat) (s : String) : String :=
  String.join (List.replicate n s)

/-! ## Lines -/

/-- Carriage returns, alone or before a line feed, become line feeds. -/
def unifyNewlines : List Char → List Char
  | [] => []
  | '\r' :: '\n' :: rest => '\n' :: unifyNewlines rest
  | c :: rest => (if c == '\r' then '\n' else c) :: unifyNewlines rest

/-- The lines of a text; the text after the last line feed counts as a line only if it is not
empty. -/
def lines (s : String) : List String :=
  let pieces := splitOn "\n" s
  if pieces.getLast? == some "" then pieces.dropLast else pieces

end RepoWiki.Text
