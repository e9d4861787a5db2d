import RepoWiki.Provider.OpenAI
import RepoWiki.Web
import RepoWiki.WikiStructure

namespace RepoWiki.Provider.OpenRouter

structure Client where
  /-- The key from the environment in which the program was started. -/
  key : Option String

def baseUrl : String := "https://openrouter.ai/api/v1"

def Client.open : Run Client :=
  return ⟨← Run.env? "OPENROUTER_API_KEY"⟩

def Client.toJson (client : Client) : Json :=
  .obj [("api_key", Json.ofText? client.key), ("base_url", .str baseUrl)]

def defaultModel : String := "openai/gpt-3.5-turbo"

def unsupportedKind (kind : Option Kind) : String :=
  "Unsupported model type: " ++ kind.elim "None" Kind.label

def isObject (v : Json) : Bool :=
  v.asFields?.isSome

def messagesFor (input : Json) : Result Json :=
  match input with
  | .str s => .ok (.arr [userMessage (.str s)])
  | .arr items =>
      if items.all isObject then .ok (.arr items)
      else .error (.value "Unsupported input format for OpenRouter: <class 'list'>")
  | v => .error (.value s!"Unsupported input format for OpenRouter: <class '{v.kindName}'>")

def arguments (input : Json) (options : Fields) (kind : Option Kind) : Result Fields := do
  match kind with
  | some .llm =>
      let arguments := Fields.merge [("messages", ← messagesFor input)] options
      if Fields.has "model" arguments then return arguments
      return Fields.set "model" (.str defaultModel) arguments
  | some .embedding => .error (.unsupported "OpenRouter client does not support embeddings yet")
  | kind => .error (.value (unsupportedKind kind))

def headers (key : String) : Fields :=
  [("Authorization", .str ("Bearer " ++ key)), ("Content-Type", .str "application/json"),
    ("HTTP-Referer", .str "https://github.com/AsyncFuncAI/deepwiki-open"),
    ("X-Title", .str "DeepWiki")]

def contentOf (depth : Nat) (data : Json) : Result Json := do
  let choices ← if ← data.holds "choices" then data.item "choices" else pure (.arr [])
  if (← choices.size) = 0 then
    return .str "Error: No response content from OpenRouter API"
  let choice ← choices.first
  let message ← if ← choice.holds "message" then choice.item "message" else pure (.arr [])
  if !(← message.holds "content") then
    return .str "Error: Unexpected response format from OpenRouter API"
  match ← message.item "content" with
  | .str s => return .str (WikiStructure.format depth s)
  | v => .error (.attribute v.kindName "strip")

def streamOf : Result Json → Stream
  | .ok v => ⟨[v], none⟩
  | .error fault => .failing fault

/-- The name under which the cause of a failed request is asked for, when it has gone. -/
def causeName : WebFailure → String
  | .connection => "e_client"
  | .request => "e_req"
  | .other => "e_unexp"

def missingKey : String :=
  "OPENROUTER_API_KEY not configured. Please set this environment variable to use OpenRouter."

def bodyText (r : Web.Response) : String :=
  if r.value?.isSome then "" else r.text

/-- Asks for a completion. Whatever goes wrong is told in the stream. -/
def Client.callLater (client : Client) (arguments : Fields) (kind : Option Kind) :
    Run Stream := do
  let key := client.key.getD ""
  if key = "" then return .single missingKey
  if kind ≠ some .llm then return .single (unsupportedKind kind)
  let body := Json.obj (Fields.set "stream" (.bool false) arguments)
  match ← Web.send (baseUrl ++ "/chat/completions") (headers key) body with
  | .error failure => return .failing (.unbound (causeName failure.kind))
  | .ok response =>
      if response.status ≠ 200 then
        return .single s!"OpenRouter API error ({response.status}): {bodyText response}"
      match response.value? with
      | some data => return streamOf (contentOf (← Run.library).depth data)
      | none => return .failing (.unbound (causeName .other))

def generated (data : Json) : Result Generated := do
  let choices ← data.get "choices"
  if !choices.truthy then
    .error (.value s!"No choices in OpenRouter response: {data.display}")
  let choice ← choices.first
  let content ←
    if ← choice.holds "message" then (← choice.item "message").getD "content" (.str "")
    else if ← choice.holds "text" then choice.getD "text" (.str "")
    else .error (.value s!"Unexpected response format from OpenRouter: {choice.inText}")
  let usage ← do
    if ← data.holds "usage" then
      let usage ← data.item "usage"
      let number := fun name => usage.getD name (.int 0)
      pure (Usage.mk (← number "completion_tokens") (← number "prompt_tokens")
        (← number "total_tokens")).toJson
    else pure .null
  return { data := content, usage, raw := .value data }

end RepoWiki.Provider.OpenRouter
