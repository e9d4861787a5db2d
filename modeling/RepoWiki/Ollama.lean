import RepoWiki.Document
import RepoWiki.Provider.Embedder
import RepoWiki.Web

namespace RepoWiki.Ollama

def baseName (model : Json) : Result String :=
  match model with
  | .str s => .ok ((Text.splitOn ":" s).headD "")
  | v => .error (.attribute v.kindName "split")

def defaultHost : String := "http://localhost:11434"

def hostRoot (host : String) : String :=
  if Text.endsWith "/api" host then String.ofList (host.toList.take (host.length - 4)) else host

def listed (answer : Json) : Result (List String) := do
  (← (← answer.getD "models" (.arr [])).elements).mapM fun m => do
    baseName (← m.getD "name" (.str ""))

def askFor (model : Json) (host : String) : Run Bool := do
  let response ← Web.fetch (hostRoot host ++ "/api/tags") []
  if response.status ≠ 200 then return false
  let names ← Run.lift (listed (← Run.lift response.json))
  return names.contains (← Run.lift (baseName model))

def hasModel (model host : Json) : Run Bool := do
  match host with
  | .str host => ask host
  | .null => ask ((← Run.env? "OLLAMA_HOST").getD defaultHost)
  | _ => return false
where
  ask (host : String) : Run Bool :=
    Run.orElse (askFor model host) fun _ => return false

def vectorOf (text : String) : Run (Option Json) := do
  match (← Provider.Embedder.embed (.str text)).data with
  | some (.vector values _ :: _) => return some values
  | some (.bare v :: _) => throw (.attribute v.kindName "embedding")
  | _ => return none

/-- Asks for the path of a document that is passed over, which fails if nothing is known about
the document. -/
def passOver (d : Document) : Run (Option Document) := do
  let _ ← Run.lift d.askPath
  return none

/-- A document with its vector, if the vector has the expected size; the first size that is seen
is expected from then on. -/
def embedOne (expected : Option Nat) (d : Document) : Run (Option Document × Option Nat) := do
  let found ← Run.attempt do
    match ← vectorOf d.text with
    | none => return none
    | some vector => return some (vector, ← Run.lift vector.size)
  match found with
  | .ok (some (vector, size)) =>
      if expected = none || expected = some size then
        return (some { d with vector := .value vector }, some size)
      else return (← passOver d, expected)
  | _ => return (← passOver d, expected)

def embedFrom (expected : Option Nat) : List Document → Run (List Document)
  | [] => return []
  | d :: rest => do
      let (done, expected) ← embedOne expected d
      return done.toList ++ (← embedFrom expected rest)

def embedDocuments (documents : List Document) : Run (List Document) :=
  embedFrom none documents

end RepoWiki.Ollama
