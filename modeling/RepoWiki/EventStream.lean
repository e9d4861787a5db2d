import RepoWiki.Json.Access
import RepoWiki.Json.Reader
/-
Answers that come as a stream of events, one event a line. The stream arrives in chunks that may
end anywhere; only complete lines are looked at.
-/

namespace RepoWiki.EventStream

inductive Chunk where
  | text (s : String)
  | number (v : Json)
  | octets (bs : List Nat)
  | broken (message : String)

/-- What has arrived and has not been dealt with: complete lines, and the start of a line. -/
structure Unread where
  lines : List (List Char) := []
  tail : List Char := []

def cutLines : List Char → List (List Char) × List Char
  | [] => ([], [])
  | c :: rest =>
      let (lines, tail) := cutLines rest
      if c = '\n' then ([] :: lines, tail)
      else
        match lines with
        | [] => ([], c :: tail)
        | line :: lines => ((c :: line) :: lines, tail)

def Unread.add (u : Unread) (s : List Char) : Unread :=
  let (lines, tail) := cutLines (u.tail ++ s)
  ⟨u.lines ++ lines, tail⟩

inductive Event where
  | ignored
  | ended
  | data (payload : String)
  deriving DecidableEq, Repr

def dataMark : String := "data: "

def endMark : String := "[DONE]"

/-- A line: data has a mark in front, everything else is passed over. -/
def Event.ofLine (line : List Char) : Event :=
  let s := Text.strip (String.ofList line)
  if Text.startsWith dataMark s then
    let payload := String.ofList (s.toList.drop dataMark.length)
    if payload = endMark then .ended else .data payload
  else .ignored

/-- The piece of text that a value adds, if it adds one: the content of the first choice, or else
its text. -/
def pieceOf (v : Json) : Result (Option Json) := do
  if !(← v.holds "choices") then return none
  let choices ← v.item "choices"
  if (← choices.size) = 0 then return none
  let choice ← choices.first
  let content ← do
    if !(← choice.holds "delta") then pure Json.null
    else
      let delta ← choice.item "delta"
      if ← delta.holds "content" then delta.item "content" else pure .null
  if content.truthy then return some content
  if ← choice.holds "text" then return some (← choice.item "text")
  return none

def pieceIn (payload : String) : Result (Option Json) := do
  pieceOf (← Json.read payload)

/-- Deals with lines up to the end mark or the first line that fails; gives the pieces, how many
lines were dealt with is told by the lines that are left. -/
def readLines : List (List Char) → List Json × List (List Char)
  | [] => ([], [])
  | line :: rest =>
      match Event.ofLine line with
      | .ignored => readLines rest
      | .ended => ([], rest)
      | .data payload =>
          match pieceIn payload with
          | .ok none | .error (.json _) => readLines rest
          | .ok (some piece) =>
              let (pieces, left) := readLines rest
              (piece :: pieces, left)
          | .error fault =>
              ([.str s!"Error processing response chunk: {fault.message}"], rest)

/-- The text of a chunk; `waiting` streams take octets and numbers as well. -/
def Chunk.chars (waiting : Bool) : Chunk → Result (List Char)
  | .text s => .ok s.toList
  | .octets bs =>
      match Text.Utf8.decode bs with
      | .ok cs => .ok cs
      | .error fault => .error (.decode fault)
  | .number v => if waiting then .ok v.inText.toList else do return (← v.textAfter "").toList
  | .broken message => .error (.service message)

def readFrom (waiting : Bool) : Unread → List Chunk → List Json
  | _, [] => []
  | _, .broken message :: _ => [.str s!"Error in streaming response: {message}"]
  | u, chunk :: rest =>
      match chunk.chars waiting with
      | .error fault =>
          .str s!"Error processing response chunk: {fault.message}" :: readFrom waiting u rest
      | .ok s =>
          let u := u.add s
          let (pieces, left) := readLines u.lines
          pieces ++ readFrom waiting { u with lines := left } rest

def read (waiting : Bool) (chunks : List Chunk) : List Json :=
  readFrom waiting {} chunks

end RepoWiki.EventStream
