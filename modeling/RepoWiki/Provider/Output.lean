import RepoWiki.Provider.Record

namespace RepoWiki.Provider

/-- Pieces that come one after the other, and the fault that ends them, if one does. -/
structure Stream where
  pieces : List Json
  fault : Option Fault := none

namespace Stream

def single (s : String) : Stream :=
  ⟨[.str s], none⟩

def failing (fault : Fault) : Stream :=
  ⟨[], some fault⟩

def ofList (step : Json → Result Json) : List Json → Stream
  | [] => ⟨[], none⟩
  | x :: rest =>
      match step x with
      | .ok v =>
          let s := ofList step rest
          ⟨v :: s.pieces, s.fault⟩
      | .error fault => ⟨[], some fault⟩

def read (s : Stream) : Result (List Json) :=
  match s.fault with
  | none => .ok s.pieces
  | some fault => .error fault

end Stream

structure Usage where
  completion : Json := .null
  prompt : Json := .null
  total : Json := .null

namespace Usage

def toJson (u : Usage) : Json :=
  .obj [("completion_tokens", u.completion), ("prompt_tokens", u.prompt),
    ("total_tokens", u.total)]

def ofRecord (v : Json) : Result Usage := do
  let completion ← Record.field "completion_tokens" v
  let prompt ← Record.field "prompt_tokens" v
  let total ← Record.field "total_tokens" v
  return ⟨completion, prompt, total⟩

def zero : Usage :=
  ⟨.int 0, .int 0, .int 0⟩

end Usage

/-- What a generated text came from: a value, or a stream still to be read. -/
inductive Raw where
  | value (v : Json)
  | stream (s : Stream)

structure Generated where
  data : Json := .null
  error : Option String := none
  raw : Raw := .value .null
  usage : Json := .null

inductive Embedded where
  | vector (values index : Json)
  | bare (v : Json)

namespace Embedded

def toJson : Embedded → Json
  | .vector values index => .obj [("embedding", values), ("index", index)]
  | .bare v => v

def values? : Embedded → Option Json
  | .vector values _ => some values
  | .bare _ => none

end Embedded

structure Embeddings where
  data : Option (List Embedded) := none
  error : Option String := none
  raw : Json := .null
  input : Json := .null

namespace Embeddings

def toJson (e : Embeddings) : Json :=
  .obj [("data", (e.data.map fun es => Json.arr (es.map Embedded.toJson)).getD .null),
    ("error", Json.ofText? e.error), ("raw_response", e.raw), ("input", e.input)]

def failed (message : String) : Embeddings :=
  { data := some [], error := some message }

end Embeddings

/-- A way to read the vectors off a reply, each with its position. What fails tells a text. -/
abbrev VectorReader := Json → Except String (List (Json × Json))

def vectorsOf : VectorReader := fun reply =>
  let found : Result (List (Json × Json)) := do
    (← Record.elements (← Record.field "data" reply)).mapM fun e => do
      return (← Record.field "embedding" e, ← Record.field "index" e)
  found.mapError Fault.message

def Embeddings.ofVectors (found : List (Json × Json)) : Embeddings :=
  { data := some (found.map fun e => .vector e.1 e.2) }

def parseEmbeddings (read : VectorReader) (reply : Json) : Embeddings :=
  match read reply with
  | .ok found => .ofVectors found
  | .error message => { data := some [], error := some message, raw := reply }

end RepoWiki.Provider
