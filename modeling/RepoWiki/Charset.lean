import RepoWiki.Fault

namespace RepoWiki

def Charset.letters : String :=
  "abcdefghijklmnopqrstuvwxyzABCDEFGHIJKLMNOPQRSTUVWXYZ :"

/-- A character set that is given by ranges of code points. Whatever else it lacks, it has the
letters. -/
structure Charset.Table where
  label : String
  reason : String
  reportsRuns : Bool
  ranges : List (Nat × Nat)
  hasLetters : Charset.letters.toList.all
    (fun c => ranges.any fun r => r.1 ≤ c.toNat && c.toNat ≤ r.2) = true
  deriving DecidableEq, Repr

inductive Charset where
  | unicode
  | ascii
  | latin1
  | gbk
  | table (t : Charset.Table)
  deriving DecidableEq, Repr

namespace Charset

def label : Charset → String
  | .unicode => "utf-8"
  | .ascii => "ascii"
  | .latin1 => "latin-1"
  | .gbk => "gbk"
  | .table t => t.label

/-- Whether a character can be written. The Chinese set is taken to hold every character of the
basic plane. -/
def holds : Charset → Char → Bool
  | .unicode, _ => true
  | .ascii, c => c.toNat < 0x80
  | .latin1, c => c.toNat < 0x100
  | .gbk, c => c.toNat < 0x10000
  | .table t, c => t.ranges.any fun r => r.1 ≤ c.toNat && c.toNat ≤ r.2

def reason : Charset → String
  | .unicode => ""
  | .ascii => "ordinal not in range(128)"
  | .latin1 => "ordinal not in range(256)"
  | .gbk => "illegal multibyte sequence"
  | .table t => t.reason

def reportsRuns : Charset → Bool
  | .ascii | .latin1 => true
  | .unicode | .gbk => false
  | .table t => t.reportsRuns

def check (set : Charset) (s : String) : Except EncodeFault Unit :=
  let cs := s.toList
  match cs.dropWhile set.holds with
  | [] => .ok ()
  | c :: rest =>
      let first := cs.length - rest.length - 1
      let more := if set.reportsRuns then (rest.takeWhile fun x => !set.holds x).length else 0
      .error ⟨set.label, c.toNat, first, first + more, set.reason⟩

end Charset
end RepoWiki
