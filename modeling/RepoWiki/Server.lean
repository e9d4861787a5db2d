import RepoWiki.Logging

namespace RepoWiki.Server

structure Start where
  fault : Option Fault := none
  log : List Logging.Entry := []
  watchLevel : Int := 0

def dropProxies : Run Unit :=
  modify fun h => { h with env := h.env.filter fun e => e.1 ≠ "all_proxy" && e.1 ≠ "ALL_PROXY" }

def isSet (name : String) : Run Bool :=
  return ((← Run.env? name).getD "") ≠ ""

def wanted : List String := ["GOOGLE_API_KEY", "OPENAI_API_KEY"]

def warn (message : String) : Logging.Entry := ⟨Logging.warning, message⟩

def warnings (missing : List String) : List Logging.Entry :=
  if missing.isEmpty then []
  else
    let names := Text.join ", " missing
    [warn s!"Missing environment variables: {names}",
      warn "Some functionality may not work correctly without these variables."]

def configure : Run (List Logging.Entry) := do
  let key := (← Run.env? "GOOGLE_API_KEY").getD ""
  if key = "" then return [warn "GOOGLE_API_KEY not configured"]
  Run.note "configure" (.obj [("api_key", .str key)])
  return []

def defaultPort : Int := 8001

def quotedStart (s : String) : String :=
  String.ofList ((Text.display s).toList.take 200)

def port : Run Int := do
  match ← Run.env? "PORT" with
  | none => return defaultPort
  | some s =>
      match Text.readInt s with
      | .ok n => return n
      | .error .malformed =>
          throw (.value s!"invalid literal for int() with base 10: {quotedStart s}")
      | .error (.tooLong digits) => throw (.value (Text.tooLongMessage digits))

def start (program : String) : Run Start := do
  dropProxies
  match ← Run.attempt (Logging.setup program "") with
  | .error fault => return { fault := some fault }
  | .ok setup =>
      let missing ← wanted.filterM fun name => return !(← isSet name)
      let log := setup.entry :: warnings missing ++ (← configure)
      match ← Run.attempt port with
      | .error fault => return { fault := some fault, log := setup.keep log }
      | .ok port =>
          let log := log ++ [⟨Logging.info, s!"Starting Streaming API on port {port}"⟩]
          let developing := (← Run.env? "NODE_ENV") ≠ some "production"
          Run.note "uvicorn.run" (.arr [.arr [.str "api.api:app"],
            .obj [("host", .str "0.0.0.0"), ("port", .int port), ("reload", .bool developing)]])
          return { log := setup.keep log, watchLevel := if developing then Logging.warning else 0 }

end RepoWiki.Server
