import RepoWiki.Text.CaseTable
import RepoWiki.Text.Word
/-
Case conversion of whole texts. A capital sigma becomes the final form at the end of a word,
and a code point may grow into several.
-/

namespace RepoWiki.Text

def runImage? (runs : Array (Nat × Nat × Nat × Int)) (n : Nat) : Option Nat :=
  (runs.find? fun (lo, hi, step, _) => lo ≤ n && n ≤ hi && (n - lo) % step == 0).map
    fun (_, _, _, delta) => (Int.ofNat n + delta).toNat

def lowerChar (c : Char) : List Char :=
  let n := c.toNat
  if n < 0x80 then
    [if 0x41 ≤ n && n ≤ 0x5A then Char.ofNat (n + 0x20) else c]
  else if n == 0x130 then ['i', Char.ofNat 0x307]
  else [((runImage? lowerRuns n).map Char.ofNat).getD c]

def titleChar (c : Char) : List Char :=
  let n := c.toNat
  if n < 0x80 then
    [if 0x61 ≤ n && n ≤ 0x7A then Char.ofNat (n - 0x20) else c]
  else
    match titleExpansions.find? fun e => e.1 == n with
    | some (_, image) => image.map Char.ofNat
    | none => [((runImage? titleRuns n).map Char.ofNat).getD c]

def isCased (c : Char) : Bool :=
  inRanges casedRanges c.toNat

def isCaseIgnorable (c : Char) : Bool :=
  inRanges caseIgnorableRanges c.toNat

def startsCased (cs : List Char) : Bool :=
  match cs.dropWhile isCaseIgnorable with
  | c :: _ => isCased c
  | [] => false

/-- Lower-cases `rest`, where `before` holds the characters already passed, nearest first. -/
def lowerFrom : List Char → List Char → List Char
  | _, [] => []
  | before, c :: rest =>
      (if c.toNat == 0x3A3 then
        [if startsCased before && !startsCased rest then Char.ofNat 0x3C2 else Char.ofNat 0x3C3]
      else lowerChar c) ++ lowerFrom (c :: before) rest

def lower (s : String) : String :=
  String.ofList (lowerFrom [] s.toList)

def capitalize (s : String) : String :=
  match s.toList with
  | [] => ""
  | c :: rest => String.ofList (titleChar c ++ lowerFrom [c] rest)

end RepoWiki.Text
