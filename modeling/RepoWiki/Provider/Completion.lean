import RepoWiki.Provider.Output

namespace RepoWiki.Provider

/-- The chunks of a stream, and the text of the fault that it breaks off with, if it does. -/
structure Chunks where
  pieces : List Json
  broken : Option String := none

namespace Chunks

def ofElements (reply : Json) (broken : Option String) : Result Chunks := do
  return ⟨← Record.elements reply, broken⟩

def fold {α : Type} (step : α → Json → Result α) (start : α) (chunks : Chunks) : Result α := do
  let made ← chunks.pieces.foldlM step start
  match chunks.broken with
  | none => return made
  | some text => .error (.service text)

def stream (step : Json → Result Json) (chunks : Chunks) : Stream :=
  let made := Stream.ofList step chunks.pieces
  ⟨made.pieces, made.fault.or (chunks.broken.map .service)⟩

end Chunks

inductive Completion where
  | whole (v : Json)
  | record (v : Json)
  | stream (chunks : Chunks)
  | lateStream (chunks : Chunks)

namespace Completion

def ofReply (waiting : Bool) (reply : Json) (broken : Option String) : Completion :=
  match reply with
  | .arr chunks => if waiting then .lateStream ⟨chunks, broken⟩ else .stream ⟨chunks, broken⟩
  | .obj fields => .whole (.obj fields)
  | v => .record v

def wholeKind : String := "ChatCompletion"

def lateKind : String := "async_generator"

def toJson : Completion → Json
  | .whole v | .record v => v
  | .stream chunks | .lateStream chunks => .arr chunks.pieces

def inText (c : Completion) : String :=
  Record.inText c.toJson

def isWhole : Completion → Bool
  | .whole _ => true
  | _ => false

def has (name : String) : Completion → Bool
  | .whole v | .record v => Record.has name v
  | _ => false

def field (name : String) : Completion → Result Json
  | .whole v => Record.fieldOf wholeKind name v
  | .record v => Record.field name v
  | .stream chunks => Record.field name (.arr chunks.pieces)
  | .lateStream _ => .error (.attribute lateKind name)

def chunks : Completion → Result Chunks
  | .stream chunks => .ok chunks
  | .whole (.obj _) => .error (.operation s!"'{wholeKind}' object is not iterable")
  | .whole v | .record v => Chunks.ofElements v none
  | .lateStream _ => .error (.operation s!"'{lateKind}' object is not iterable")

def lateChunks : Completion → Result Chunks
  | .lateStream chunks => .ok chunks
  | .stream _ =>
      .error (.operation "'async for' requires an object with __aiter__ method, got list")
  | .whole v =>
      let kind := match v with
        | .obj _ => wholeKind
        | v => v.kindName
      .error (.operation s!"'async for' requires an object with __aiter__ method, got {kind}")
  | .record v =>
      .error (.operation <| "'async for' requires an object with __aiter__ method, got " ++
        Record.kindName v)

def firstMessage (c : Completion) : Result Json := do
  Record.field "content" (← Record.field "message" (← Record.first (← c.field "choices")))

def allMessages (c : Completion) : Result (List Json) := do
  (← Record.elements (← c.field "choices")).mapM fun choice => do
    Record.field "content" (← Record.field "message" choice)

def probabilities (c : Completion) : Result (List Json) := do
  (← Record.elements (← c.field "choices")).mapM fun choice => do
    let content ← Record.field "content" (← Record.field "logprobs" choice)
    let tokens ← (← Record.elements content).mapM fun t => do
      return Json.obj [("token", ← Record.field "token" t),
        ("logprob", ← Record.field "logprob" t)]
    return .arr tokens

def chunkContent (chunk : Json) : Result Json := do
  Record.field "content" (← Record.field "delta" (← Record.first (← Record.field "choices" chunk)))

def contents (c : Completion) : Stream :=
  match c.chunks with
  | .ok chunks => chunks.stream chunkContent
  | .error fault => .failing fault

def usage (c : Completion) : Result Usage := do
  Usage.ofRecord (← c.field "usage")

end Completion

inductive Answer where
  | completion (c : Completion)
  | pieces (s : Stream)
  | generated (g : Generated)
  | embeddings (e : Embeddings)
  | value (v : Json)

end RepoWiki.Provider
