import RepoWiki.Text.Basic
import RepoWiki.Text.Word
/-
Patterns over lines of text with numbered groups.

A pattern is tried by backtracking, in the order in which its parts are written: a repetition
first takes as much as it can (or as little, where it is marked so), an alternative first tries
its left side. The first way to match decides what the groups hold. Trying is a recursion on the
pattern that passes the rest of the text on to a continuation.
-/

namespace RepoWiki

/-- A pattern. Bodies of `many` take at least one character. -/
inductive Pattern where
  | nothing
  | one (p : Char → Bool)
  /-- At least `least` characters of a class, as many as possible. -/
  | run (p : Char → Bool) (least : Nat)
  | lazy (p : Char → Bool)
  | seq (a b : Pattern)
  | alt (a b : Pattern)
  | many (a : Pattern)
  /-- What `a` takes becomes the group of that number. -/
  | group (number : Nat) (a : Pattern)
  /-- The end of the text, or the place before a line feed that ends it. -/
  | atEnd

namespace Pattern

/-- What a group took: the text from its start and the text from its end. The latest entry of a
number counts. -/
abbrev Groups := List (Nat × List Char × List Char)

abbrev Next (α : Type) := List Char → Groups → Option α

/-- Takes `least` characters of the class at least, and as many as possible first. -/
def takeRun {α : Type} (p : Char → Bool) : Nat → List Char → (List Char → Option α) → Option α
  | 0, [], k => k []
  | _ + 1, [], _ => none
  | least, c :: rest, k =>
      match (if p c then takeRun p (least - 1) rest k else none) with
      | some found => some found
      | none => if least = 0 then k (c :: rest) else none

def takeLazy {α : Type} (p : Char → Bool) : List Char → (List Char → Option α) → Option α
  | [], k => k []
  | c :: rest, k =>
      match k (c :: rest) with
      | some found => some found
      | none => if p c then takeLazy p rest k else none

/-- Repeats a step, as often as possible first, and at most as often as the fuel says. -/
def repeatStep {α : Type} (step : List Char → Groups → Next α → Option α) :
    Nat → List Char → Groups → Next α → Option α
  | 0, cs, gs, k => k cs gs
  | fuel + 1, cs, gs, k =>
      match step cs gs fun cs' gs' => repeatStep step fuel cs' gs' k with
      | some found => some found
      | none => k cs gs

def tryAt {α : Type} : Pattern → List Char → Groups → Next α → Option α
  | .nothing, cs, gs, k => k cs gs
  | .one p, cs, gs, k =>
      match cs with
      | c :: rest => if p c then k rest gs else none
      | [] => none
  | .run p least, cs, gs, k => takeRun p least cs fun rest => k rest gs
  | .lazy p, cs, gs, k => takeLazy p cs fun rest => k rest gs
  | .seq a b, cs, gs, k => tryAt a cs gs fun cs' gs' => tryAt b cs' gs' k
  | .alt a b, cs, gs, k =>
      match tryAt a cs gs k with
      | some found => some found
      | none => tryAt b cs gs k
  | .many a, cs, gs, k => repeatStep (tryAt a) cs.length cs gs k
  | .group number a, cs, gs, k => tryAt a cs gs fun cs' gs' => k cs' ((number, cs, cs') :: gs')
  | .atEnd, cs, gs, k =>
      match cs with
      | [] => k [] gs
      | ['\n'] => k ['\n'] gs
      | _ => none

structure Found where
  start : List Char
  rest : List Char
  groups : Groups

def between (start rest : List Char) : String :=
  String.ofList (start.take (start.length - rest.length))

def Found.group? (m : Found) (number : Nat) : Option String :=
  (m.groups.find? fun g => g.1 == number).map fun (_, start, rest) => between start rest

def Found.group (m : Found) (number : Nat) : String :=
  (m.group? number).getD ""

def Found.whole (m : Found) : String :=
  between m.start m.rest

def matchChars? (p : Pattern) (cs : List Char) : Option Found :=
  p.tryAt cs [] fun rest groups => some ⟨cs, rest, groups⟩

def match? (p : Pattern) (s : String) : Option Found :=
  p.matchChars? s.toList

def searchChars? (p : Pattern) : List Char → Option Found
  | [] => p.matchChars? []
  | c :: rest =>
      match p.matchChars? (c :: rest) with
      | some found => some found
      | none => searchChars? p rest

def search? (p : Pattern) (s : String) : Option Found :=
  p.searchChars? s.toList

/-! ## Building patterns -/

def chain : List Pattern → Pattern
  | [] => .nothing
  | [p] => p
  | p :: rest => .seq p (chain rest)

def choice : List Pattern → Pattern
  | [] => .one fun _ => false
  | [p] => p
  | p :: rest => .alt p (choice rest)

def maybe (p : Pattern) : Pattern :=
  .alt p .nothing

def some1 (p : Pattern) : Pattern :=
  .seq p (.many p)

def word (s : String) : Pattern :=
  chain (s.toList.map fun c => .one (· == c))

def words (ss : List String) : Pattern :=
  choice (ss.map word)

def blanks : Pattern :=
  .run Text.isBlank 0

def blanks1 : Pattern :=
  .run Text.isBlank 1

def name : Pattern :=
  .run Text.isWord 1

def noneOf (set : String) (c : Char) : Bool :=
  !Text.oneOf set c

def inLine (c : Char) : Bool :=
  c != '\n'

def wordOr (set : String) (c : Char) : Bool :=
  Text.isWord c || Text.oneOf set c

end Pattern
end RepoWiki
