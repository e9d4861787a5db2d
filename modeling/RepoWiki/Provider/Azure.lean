import RepoWiki.Provider.OpenAI

namespace RepoWiki.Provider.Azure

open Service

structure Client where
  key : Json
  version : Json
  endpoint : Json
  /-- Whether the identity of the machine may stand in for a key. -/
  credential : Bool
  messages : Bool

def Client.connection (client : Client) : Run Fields := do
  let key ← settingOrEnv client.key (.str "AZURE_OPENAI_API_KEY")
  let endpoint ← settingOrEnv client.endpoint (.str "AZURE_OPENAI_ENDPOINT")
  let version ← settingOrEnv client.version (.str "AZURE_OPENAI_VERSION")
  if !endpoint.truthy then
    throw (.value "Environment variable AZURE_OPENAI_ENDPOINT must be set")
  if !version.truthy then
    throw (.value "Environment variable AZURE_OPENAI_VERSION must be set")
  let address : Fields := [("azure_endpoint", endpoint), ("api_version", version)]
  if key.truthy then return ("api_key", key) :: address
  if client.credential then return address
  throw (.value <| "Environment variable AZURE_OPENAI_API_KEY must be set or credential must be " ++
    "provided")

def settingNames : List String :=
  ["api_key", "api_version", "azure_endpoint", "credential", "chat_completion_parser",
    "input_type"]

def Client.ofSettings (settings : Fields) : Run Client := do
  takeOnly .azure settingNames settings
  let client : Client := {
    key := setting settings "api_key"
    version := setting settings "api_version"
    endpoint := setting settings "azure_endpoint"
    credential := (Fields.get? "credential" settings).elim false Json.truthy
    messages := splitsPrompts settings }
  let _ ← client.connection
  return client

def storedNames : List String :=
  ["_api_key", "_apiversion", "_azure_endpoint", "_credential", "_input_type", "api_type",
    "chat_completion_parser"]

/-- The messages that ask for a completion: two where the prompt has both parts on one line, and
one otherwise. -/
def Client.messagesFor (client : Client) (input : Json) : Result (List Json) := do
  let whole := [systemMessage input]
  if !client.messages then return whole
  match TaggedPrompt.lineParts? (← input.asSubject) with
  | some (system, user) =>
      if system != "" && user != "" then
        return [systemMessage (.str system), userMessage (.str user)]
      else return whole
  | none => return whole

def Client.arguments (client : Client) (input : Json) (options : Fields) (kind : Kind) :
    Result Fields := do
  match kind with
  | .embedder => return Fields.set "input" (← textsToEmbed input) options
  | .llm => return Fields.set "messages" (.arr (← client.messagesFor input)) options
  | kind => .error (unsupportedKind kind)

def ask (waiting : Bool) (arguments : Fields) (kind : Kind) : Run Answer := do
  match kind with
  | .embedder => return .value (← Service.ask "embeddings" arguments)
  | .llm => return .completion (← Service.chat waiting arguments)
  | kind => throw (unsupportedKind kind)

def call (arguments : Fields) (kind : Kind) : Run Answer :=
  ask false arguments kind

def Client.callLater (client : Client) (arguments : Fields) (kind : Kind) : Run Answer := do
  let _ ← client.connection
  ask true arguments kind

def usage (c : Completion) : Result Usage :=
  if c.isWhole then c.usage
  else .error (.unsupported "streaming completion usage tracking is not implemented")

def generated (reading : Reading) (c : Completion) : Generated :=
  let read : Result Generated := do
    let raw ← reading.apply c
    return { raw, usage := (← usage c).toJson }
  match read with
  | .ok g => g
  | .error fault => { error := some fault.message, raw := .value c.toJson }

end RepoWiki.Provider.Azure
