import RepoWiki.Provider.OpenAI

namespace RepoWiki
namespace Provider
namespace DashScope

structure Client where
  key : Json
  keyName : Json
  workspace : Json
  workspaceName : Json
  baseUrl : Json
  inputType : Json

def defaultUrl : String := "https://dashscope.aliyuncs.com/compatible-mode/v1"

structure Connection where
  key : Json
  /-- The workspace, null if there is none. -/
  workspace : Json
  url : Json

def Connection.toJson (c : Connection) : Json :=
  .obj [("api_key", c.key), ("base_url", c.url)]

/-- A workspace is told in the headers of the requests; the address then has no stroke at its
end. -/
def Client.connection (client : Client) : Run Connection := do
  let key ← Service.settingOrEnv client.key client.keyName
  let workspace ← Service.settingOrEnv client.workspace client.workspaceName
  if !key.truthy then throw (.value s!"Environment variable {client.keyName.inText} must be set")
  if !workspace.truthy then return ⟨key, .null, client.baseUrl⟩
  let url ← Run.lift (client.baseUrl.asWord "rstrip")
  return ⟨key, workspace, .str (Text.trimEndBy (· == '/') url)⟩

def settingNames : List String :=
  ["api_key", "workspace_id", "chat_completion_parser", "input_type", "base_url",
    "env_base_url_name", "env_api_key_name", "env_workspace_id_name"]

def Client.ofSettings (settings : Fields) : Run (Client × Connection) := do
  Service.takeOnly .dashscope settingNames settings
  let baseUrl ← Service.address settings "DASHSCOPE_BASE_URL" defaultUrl
  let client : Client := {
    key := Service.setting settings "api_key"
    keyName := Service.settingOr settings "env_api_key_name" "DASHSCOPE_API_KEY"
    workspace := Service.setting settings "workspace_id"
    workspaceName := Service.settingOr settings "env_workspace_id_name" "DASHSCOPE_WORKSPACE_ID"
    baseUrl
    inputType := Service.settingOr settings "input_type" "text" }
  return (client, ← client.connection)

/-- The settings that a client is stored by. The names of environment variables are not among
them. -/
def Client.settings (client : Client) : Fields :=
  [("api_key", client.key), ("base_url", client.baseUrl), ("input_type", client.inputType),
    ("workspace_id", client.workspace)]

def packedNames : List String :=
  ["_api_key", "_api_kwargs", "_env_api_key_name", "_env_base_url_name", "_env_workspace_id_name",
    "_input_type", "_workspace_id", "base_url", "chat_completion_parser"]

/-! ## Arguments -/

def workspaceHeader : String := "X-DashScope-WorkSpace"

/-- Sets a field of a field that holds an object; a field that is not there begins empty. -/
def setInside (outer inner : String) (value : Json) (arguments : Fields) : Result Fields :=
  match (Fields.get? outer arguments).getD (.obj []) with
  | .obj fields => .ok (Fields.set outer (.obj (Fields.set inner value fields)) arguments)
  | .arr _ => .error (.operation "list indices must be integers or slices, not str")
  | v => .error (.operation s!"'{v.kindName}' object does not support item assignment")

def addWorkspace (workspace : Json) (arguments : Fields) : Result Fields :=
  if workspace.isNull then .ok arguments
  else setInside "extra_headers" workspaceHeader workspace arguments

/-- The options of the model after a call was prepared with them: headers among them have been
added to. -/
def optionsAfter (options arguments : Fields) : Fields :=
  match Fields.get? "extra_headers" options, Fields.get? "extra_headers" arguments with
  | some _, some headers => Fields.set "extra_headers" headers options
  | _, _ => options

inductive Item where
  | document (text : Json)
  | value (v : Json)

def Item.text : Item → Json
  | .document text => text
  | .value v => .str v.inText

inductive Input where
  | single (item : Item)
  | list (items : List Item)

def Input.texts : Input → Json
  | .single item => item.text
  | .list items => .arr (items.map Item.text)

def Item.toJson : Item → Json
  | .document text => .obj [("text", text), ("meta_data", .null), ("vector", .null)]
  | .value v => v

def Input.toJson : Input → Json
  | .single item => item.toJson
  | .list items => .arr (items.map Item.toJson)

def Input.ofJson : Json → Input
  | .arr items => .list (items.map Item.value)
  | v => .single (.value v)

instance : Coe Json Input := ⟨Input.ofJson⟩

def messagesFor : Input → Result Json
  | .single (.value (.str s)) => .ok (.arr [userMessage (.str s)])
  | .list items => .ok (.arr (items.map Item.toJson))
  | .single (.value v) => .error (.value s!"Unsupported input type: <class '{v.kindName}'>")
  | .single (.document _) => .error (.value "Unsupported input type: <class 'Document'>")

/-- The arguments of a call; options of the same name win over the input. -/
def arguments (connection : Connection) (input : Input) (options : Fields) (kind : Kind) :
    Result Fields := do
  match kind with
  | .llm =>
      addWorkspace connection.workspace (Fields.merge [("messages", ← messagesFor input)] options)
  | .embedder =>
      addWorkspace connection.workspace (Fields.merge [("input", input.texts)] options)
  | kind => .error (Service.unsupportedKind kind)

/-! ## Reading answers -/

def firstMessage (c : Completion) : Json :=
  let content : Result Json := do
    let v ← c.firstMessage
    if Record.truthy v then
      let _ ← Record.size v
    return v
  match content with
  | .ok v => v
  | .error _ => .str c.inText

def finishedText (c : Completion) : String :=
  match c.firstMessage with
  | .ok v => Record.inText v
  | .error _ => c.inText

def joinTexts : Nat → List Json → Result String
  | _, [] => .ok ""
  | i, .str s :: rest => do return s ++ (← joinTexts (i + 1) rest)
  | i, v :: _ => .error (.operation
      s!"sequence item {i}: expected str instance, {Record.kindName v} found")

/-- The contents of the chunks that have one, and the last cost that a chunk tells. -/
def gather : Chunks → Result (List Json × Json) :=
  Chunks.fold (fun (contents, cost) chunk => do
      let content ← Completion.chunkContent chunk
      let contents := if Record.truthy content then contents ++ [content] else contents
      let cost := match chunk.field? "usage" with
        | some v => if Record.truthy v then v else cost
        | none => cost
      return (contents, cost)) ([], .null)

def generated (c : Completion) : Result Generated := do
  if c.has "choices" && c.has "usage" then
    return { data := .str (finishedText c), usage := (← c.usage).toJson,
             raw := .value (.str c.inText) }
  let (contents, cost) ← gather (← c.chunks)
  let text ← joinTexts 0 contents
  let usage ← if Record.truthy cost then pure (← Usage.ofRecord cost).toJson else pure .null
  return { data := .str text, usage, raw := .value (.str "streaming") }

def usage (c : Completion) : Result Usage :=
  if c.isWhole then c.usage else .ok .zero

/-- The vectors of a reply, where the first one has to have a length. -/
def measured (read : VectorReader) : VectorReader := fun reply => do
  let found ← read reply
  match found with
  | [] => return found
  | (values, _) :: _ =>
      let _ ← (Record.size values).mapError Fault.message
      return found

def parseEmbeddings (read : VectorReader) (reply : Json) : Embeddings :=
  Provider.parseEmbeddings (measured read) reply

/-! ## Calls -/

def isUsable : Json → Bool
  | .str s => s.toList.any fun c => !Text.isBlank c
  | _ => false

def zeros (n : Nat) : Json :=
  .arr (List.replicate n (.real 0))

/-- The entries for all texts, from those for the usable ones: the others get zeros, if it is
known how many. -/
def refill (dimension : Option Nat) : Nat → List Json → List Embedded → Result (List Embedded)
  | _, [], _ => .ok []
  | i, t :: texts, found =>
      if isUsable t then
        match found with
        | [] => .error (.index "list")
        | e :: found => do return e :: (← refill dimension (i + 1) texts found)
      else
        match dimension with
        | none => .error (.operation "can't multiply sequence by non-int of type 'NoneType'")
        | some n => do
            return .vector (zeros n) (.nat i) :: (← refill dimension (i + 1) texts found)

def dimension? (e : Embeddings) : Option Nat :=
  match e.data with
  | some (.vector values _ :: _) => (Record.size values).toOption
  | _ => none

/-- Embeds the usable texts and puts the vectors where the texts were. `fallback` is the length
of vectors where the reply does not show it. -/
def embed (fallback : Option Nat) (arguments : Fields) : Run Embeddings := do
  let input := (Fields.get? "input" arguments).getD (.arr [])
  if !input.truthy then return .failed "No input texts provided"
  let texts ← match input with
    | .str s => pure [Json.str s]
    | v => Run.lift v.elements
  let usable := texts.filter isUsable
  if usable.isEmpty then return .failed "No valid texts found after filtering"
  let step : Run Embeddings := do
    let library ← Run.library
    let reply ← Service.ask "embeddings" (Fields.set "input" (.arr usable) arguments)
    let found := parseEmbeddings library.read reply
    if usable.length = texts.length then return found
    let dimension := (dimension? found).or fallback
    let data ← Run.lift (refill dimension 0 texts (found.data.getD []))
    return { data := some data, raw := found.raw }
  Run.orElse step fun fault => return .failed fault.message

def chatArguments (arguments : Fields) : Result Fields :=
  if OpenAI.wantsStream arguments then .ok arguments
  else setInside "extra_body" "enable_thinking" (.bool false) arguments

def chat (waiting : Bool) (arguments : Fields) : Run Answer := do
  let arguments ← Run.lift (chatArguments arguments)
  let answer ← Service.chat waiting arguments
  if OpenAI.wantsStream arguments then return .pieces answer.contents
  return .generated (← Run.lift (generated answer))

def call (arguments : Fields) (kind : Kind) : Run Answer := do
  match kind with
  | .llm => chat false arguments
  | .embedder => return .embeddings (← embed none arguments)
  | kind => throw (Service.unsupportedKind kind)

def usualDimension : Nat := 256

def Client.callLater (client : Client) (arguments : Fields) (kind : Kind) : Run Answer := do
  let _ ← client.connection
  match kind with
  | .llm => chat true arguments
  | .embedder => return .embeddings (← embed (some usualDimension) arguments)
  | kind => throw (Service.unsupportedKind kind)

/-! ## Embedding with fixed options -/

structure Component where
  client : Client
  connection : Connection
  options : Fields

def componentName : String := "DashScopeEmbedder"

def Component.make (client : Option (Client × Connection)) (options : Json) :
    Result Component :=
  match options, client with
  | .obj fields, some (client, connection) => .ok ⟨client, connection, fields⟩
  | .obj _, none =>
      .error (.kind s!"{componentName} requires a ModelClient instance for model_client.")
  | _, _ =>
      .error (.kind s!"{componentName} requires a dictionary for model_kwargs, not a string")

def Component.arguments (c : Component) (input : Input) (options : Fields) : Result Fields :=
  DashScope.arguments c.connection input (Fields.merge c.options options) .embedder

def Component.embed (c : Component) (input : Input) (options : Fields) : Run Embeddings := do
  let arguments ← Run.lift (c.arguments input options)
  Run.orElse (DashScope.embed none arguments) fun fault =>
    return { error := some fault.message }

/-- The embeddings copied into a result of their own; whether they were complete is not
copied. -/
def copied (e : Embeddings) : Embeddings :=
  { data := some (e.data.getD []) }

/-- What a result says was embedded: a single text as a list of one. -/
def Input.told : Input → Json
  | .single (.value (.str s)) => .arr [.str s]
  | input => input.toJson

def Component.embedLater (c : Component) (input : Input) (options : Fields) : Run Embeddings := do
  let arguments ← Run.lift (c.arguments input options)
  let step : Run Embeddings := do
    let _ ← c.client.connection
    return copied (← DashScope.embed (some usualDimension) arguments)
  let result ← Run.orElse step fun fault => return { error := some fault.message }
  return { result with input := input.told }

end DashScope
end Provider
end RepoWiki
