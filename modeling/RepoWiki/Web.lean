import RepoWiki.Host
import RepoWiki.Json.Reader
/-
Requests to web services. Each request is noted and takes the next reply.
-/

namespace RepoWiki.Web

structure Response where
  url : String
  status : Int
  reason : String
  content : Content
  value? : Option Json

def Response.text (r : Response) : String :=
  match r.content with
  | .text s => s
  | c => String.ofList (Text.Utf8.decodeLossy c.bytes)

def Response.json (r : Response) : Result Json :=
  match Json.read r.text with
  | .ok v => .ok v
  | .error (.json message) => .error (.request .badBody message)
  | .error fault => .error fault

def Response.check (r : Response) : Result Unit :=
  let fail := fun side =>
    Except.error (Fault.request .badStatus s!"{r.status} {side} Error: {r.reason} for url: {r.url}")
  if 400 ≤ r.status && r.status < 500 then fail "Client"
  else if 500 ≤ r.status && r.status < 600 then fail "Server"
  else .ok ()

structure Failure where
  kind : WebFailure
  text : String

def reply (url : String) : Run (Except Failure Response) := do
  match (← get).web with
  | [] => return .error ⟨.connection, "no scripted response"⟩
  | r :: rest =>
      modify fun h => { h with web := rest }
      match r with
      | .answer status reason body json => return .ok ⟨url, status, reason, body, json⟩
      | .failure kind text => return .error ⟨kind, text⟩

def fetch (url : String) (headers : Fields) : Run Response := do
  Run.note "GET" (.obj [("url", .str url), ("headers", .obj headers)])
  match ← reply url with
  | .ok response => return response
  | .error failure => throw (.request .failed failure.text)

def send (url : String) (headers : Fields) (body : Json) : Run (Except Failure Response) := do
  Run.note "POST" (.obj [("url", .str url), ("headers", .obj headers), ("json", body)])
  reply url

end RepoWiki.Web
