import RepoWiki.Provider.Image
import RepoWiki.Provider.Service
import RepoWiki.Provider.TaggedPrompt

namespace RepoWiki.Provider

open Fields Service

inductive Reading where
  | firstMessage
  | streaming
  deriving DecidableEq, Repr

def Reading.label : Reading → String
  | .firstMessage => "get_first_message_content"
  | .streaming => "handle_streaming_response"

def Reading.apply (reading : Reading) (c : Completion) : Result Raw :=
  match reading with
  | .firstMessage => return .value (← c.firstMessage)
  | .streaming => return .stream c.contents

def userMessage (content : Json) : Json :=
  .obj [("role", .str "user"), ("content", content)]

def systemMessage (content : Json) : Json :=
  .obj [("role", .str "system"), ("content", content)]

def textsToEmbed : Json → Result Json
  | .str s => .ok (.arr [.str s])
  | .arr items => .ok (.arr items)
  | _ => .error (.kind "input must be a sequence of text")

namespace OpenAI

structure Client where
  key : Json
  keyName : Json
  baseUrl : Json
  messages : Bool

def defaultUrl : String := "https://api.openai.com/v1"

def Client.connection (client : Client) : Run Fields := do
  let key ← settingOrEnv client.key client.keyName
  if !key.truthy then throw (.value s!"Environment variable {client.keyName.inText} must be set")
  return [("api_key", key), ("base_url", client.baseUrl)]

def settingNames : List String :=
  ["api_key", "chat_completion_parser", "input_type", "base_url", "env_base_url_name",
    "env_api_key_name"]

def Client.ofSettings (settings : Fields) : Run Client := do
  takeOnly .openai settingNames settings
  let baseUrl ← address settings "OPENAI_BASE_URL" defaultUrl
  let client : Client := {
    key := setting settings "api_key"
    keyName := settingOr settings "env_api_key_name" "OPENAI_API_KEY"
    baseUrl
    messages := splitsPrompts settings }
  let _ ← client.connection
  return client

def storedNames : List String :=
  ["_api_key", "_api_kwargs", "_env_api_key_name", "_env_base_url_name", "_input_type", "base_url",
    "chat_completion_parser"]

def promptParts? (client : Client) (input : Json) : Result (Option (String × String)) := do
  if !client.messages then return none
  return (TaggedPrompt.parts? (← input.asSubject)).filter fun (system, user) =>
    system != "" && user != ""

def Client.messagesFor (client : Client) (input images detail : Json) : Run (List Json) := do
  let content := fun text : Json =>
    if images.truthy then Image.textWith text images detail else pure text
  match ← Run.lift (promptParts? client input) with
  | some (system, user) =>
      return [systemMessage (.str system), userMessage (← content (.str user))]
  | none => return [userMessage (← content input)]

def withDefault (name : String) (value : Json) (options : Fields) : Fields :=
  set name ((get? name options).getD value) options

def Client.arguments (client : Client) (input : Json) (options : Fields) (kind : Kind) :
    Run Fields := do
  match kind with
  | .embedder => return set "input" (← Run.lift (textsToEmbed input)) options
  | .llm =>
      let images := (get? "images" options).getD .null
      let detail := (get? "detail" options).getD (.str "auto")
      let messages ← client.messagesFor input images detail
      return set "messages" (.arr messages)
        (erase "detail" (erase "images" options))
  | .imageGeneration =>
      let options := set "prompt" input options
      if !has "model" options then
        throw (.value "model must be specified for image generation")
      let options := withDefault "size" (.str "1024x1024") options
      let options := withDefault "quality" (.str "standard") options
      let options := withDefault "n" (.int 1) options
      let options := withDefault "response_format" (.str "url") options
      Image.encodeSetting "mask" (← Image.encodeSetting "image" options)
  | kind => throw (unsupportedKind kind)

structure Gathered where
  id : Json := .str ""
  model : Json := .str ""
  created : Json := .int 0
  content : String := ""

def fieldOr (name : String) (old chunk : Json) : Json :=
  match chunk.field? name with
  | some v => if Record.truthy v then v else old
  | none => old

def chunkText (chunk : Json) : Result Json := do
  let choices := (chunk.field? "choices").getD (.arr [])
  if (← Record.size choices) = 0 then return .null
  let delta := ((← Record.first choices).field? "delta").getD .null
  return (delta.field? "content").getD .null

def Gathered.add (g : Gathered) (chunk : Json) : Result Gathered := do
  let text ← chunkText chunk
  let content ← if Record.truthy text then text.textAfter g.content else pure g.content
  return { id := fieldOr "id" g.id chunk, model := fieldOr "model" g.model chunk,
           created := fieldOr "created" g.created chunk, content }

def Gathered.completion (g : Gathered) : Completion :=
  .whole (.obj [("id", g.id), ("model", g.model), ("created", g.created),
    ("object", .str "chat.completion"),
    ("choices", .arr [.obj [("index", .int 0), ("finish_reason", .str "stop"),
      ("message", .obj [("content", .str g.content), ("role", .str "assistant")])]])])

def imageCall (arguments : Fields) : String :=
  if has "image" arguments then
    if has "mask" arguments then "images.edit" else "images.create_variation"
  else "images.generate"

def askImages (arguments : Fields) : Run Answer := do
  let reply ← ask (imageCall arguments) arguments
  return .value (← Run.lift (Record.field "data" reply))

def wantsStream (arguments : Fields) : Bool :=
  (get? "stream" arguments).elim false Json.truthy

/-- Calls a service, and tells how its answers are to be read from then on. A completion is
always asked for as a stream; where none is wanted it is put together again. -/
def call (arguments : Fields) (kind : Kind) : Run Answer := do
  match kind with
  | .embedder => return .value (← ask "embeddings" arguments)
  | .llm =>
      if wantsStream arguments then return .completion (← chat false arguments)
      let answer ← chat false (set "stream" (.bool true) arguments)
      let gathered ← Run.lift do (← answer.chunks).fold Gathered.add {}
      return .completion gathered.completion
  | .imageGeneration => askImages arguments
  | kind => throw (unsupportedKind kind)

def Client.callLater (client : Client) (arguments : Fields) (kind : Kind) : Run Answer := do
  let _ ← client.connection
  match kind with
  | .embedder => return .value (← ask "embeddings" arguments)
  | .llm => return .completion (← chat true arguments)
  | .imageGeneration => askImages arguments
  | kind => throw (unsupportedKind kind)

def readingAfter (arguments : Fields) (kind : Kind) : Reading :=
  if kind = .llm && wantsStream arguments then .streaming else .firstMessage

def usage (c : Completion) : Usage :=
  c.usage.toOption.getD {}

def generated (reading : Reading) (c : Completion) : Generated :=
  match reading.apply c with
  | .error fault => { error := some fault.message, raw := .value c.toJson }
  | .ok raw => { raw, usage := (usage c).toJson }

def imageOf (v : Json) : Result Json := do
  let url ← Record.field "url" v
  if Record.truthy url then return url
  Record.field "b64_json" v

def images (reply : Json) : Generated :=
  let raw : Raw := .value (.str (Record.inText reply))
  let found := do (← Record.elements reply).mapM imageOf
  match found with
  | .ok [image] => { data := image, raw }
  | .ok images => { data := .arr images, raw }
  | .error fault => { error := some fault.message, raw }

def roughTokens (s : String) : Nat :=
  (Text.words s).length

end OpenAI
end RepoWiki.Provider
