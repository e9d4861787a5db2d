import RepoWiki.Json.Encoded
import RepoWiki.Provider.Service
/-
The client of the Bedrock services. Models of several makers are served; each maker has its own
form of request and of answer.
-/

namespace RepoWiki.Provider.Bedrock

inductive Maker where
  | anthropic
  | amazon
  | cohere
  | ai21
  | other
  deriving DecidableEq, Repr

def Maker.ofText : String → Maker
  | "anthropic" => .anthropic
  | "amazon" => .amazon
  | "cohere" => .cohere
  | "ai21" => .ai21
  | _ => .other

def makerName (model : Json) : Result String :=
  match model with
  | .str s =>
      match Text.cut? "." s with
      | some (maker, _) => .ok maker
      | none => .ok "amazon"
  | v => do
      if ← v.holds "." then .error (.attribute v.kindName "split") else return "amazon"

def textPart (text : Json) : Json :=
  .arr [.obj [("type", .str "text"), ("text", text)]]

def messageOf (message : Json) : Result Json := do
  let role := if (← message.get "role").same (.str "user") then "user" else "assistant"
  let content ← message.getD "content" (.str "")
  return .obj [("role", .str role), ("content", textPart content)]

def request (maker : Maker) (prompt messages : Json) : Result Fields := do
  match maker with
  | .anthropic =>
      let messages ←
        if messages.truthy then (← messages.elements).mapM messageOf
        else pure [.obj [("role", .str "user"), ("content", textPart prompt)]]
      return [("anthropic_version", .str "bedrock-2023-05-31"), ("messages", .arr messages),
        ("max_tokens", .int 4096)]
  | .amazon =>
      return [("inputText", prompt), ("textGenerationConfig", .obj [("maxTokenCount", .int 4096),
        ("stopSequences", .arr []), ("temperature", .real 0.7), ("topP", .real 0.8)])]
  | .cohere =>
      return [("prompt", prompt), ("max_tokens", .int 4096), ("temperature", .real 0.7),
        ("p", .real 0.8)]
  | .ai21 =>
      return [("prompt", prompt), ("maxTokens", .int 4096), ("temperature", .real 0.7),
        ("topP", .real 0.8)]
  | .other => return [("prompt", prompt)]

def place (maker : Maker) (top : Bool) : List String :=
  match maker, top with
  | .anthropic, false | .cohere, false | .ai21, false => ["temperature"]
  | .amazon, false => ["textGenerationConfig", "temperature"]
  | .anthropic, true => ["top_p"]
  | .amazon, true => ["textGenerationConfig", "topP"]
  | .cohere, true => ["p"]
  | .ai21, true => ["topP"]
  | .other, _ => []

def setAt (request : Fields) (value : Json) : List String → Fields
  | [name] => Fields.set name value request
  | [outer, name] =>
      let inner := ((Fields.get? outer request).bind Json.asFields?).getD []
      Fields.set outer (.obj (Fields.set name value inner)) request
  | _ => request

def steer (maker : Maker) (name : String) (top : Bool) (arguments request : Fields) : Fields :=
  match Fields.get? name arguments with
  | some value => setAt request value (place maker top)
  | none => request

def firstField (outer inner : String) (v : Json) : Result Json := do
  let item ← (← v.getD outer (.arr [.obj []])).first
  item.getD inner (.str "")

def textOf (maker : Maker) (answer : Json) : Result Json := do
  match maker with
  | .anthropic => firstField "content" "text" answer
  | .amazon => firstField "results" "outputText" answer
  | .cohere => firstField "generations" "text" answer
  | .ai21 =>
      let item ← (← answer.getD "completions" (.arr [.obj []])).first
      (← item.getD "data" (.obj [])).getD "text" (.str "")
  | .other =>
      match ["text", "content", "output", "completion"].findSome? answer.field? with
      | some v => return v
      | none => return .str answer.inText

structure Client where
  region : Json
  ready : Bool

def sessionName : String := "DeepWikiBedrockSession"

def connect (id secret role region : Json) : Run Unit := do
  Run.note "session" (.obj [("aws_access_key_id", id), ("aws_secret_access_key", secret),
    ("region_name", region)])
  if role.truthy then
    Run.note "client" (.obj [("service", .str "sts"), ("region", .null)])
    let reply ← Service.ask "assume_role" [("RoleArn", role),
      ("RoleSessionName", .str sessionName)]
    let credentials ← Run.lift (reply.item "Credentials")
    let id ← Run.lift (credentials.item "AccessKeyId")
    let secret ← Run.lift (credentials.item "SecretAccessKey")
    let token ← Run.lift (credentials.item "SessionToken")
    Run.note "session" (.obj [("aws_access_key_id", id), ("aws_secret_access_key", secret),
      ("aws_session_token", token), ("region_name", region)])
  Run.note "client" (.obj [("service", .str "bedrock-runtime"), ("region", region)])

def Client.ofSettings (settings : Fields) : Run Client := do
  let find := fun name variableName =>
    Service.settingOrEnv (Service.setting settings name) (.str variableName)
  let id ← find "aws_access_key_id" "AWS_ACCESS_KEY_ID"
  let secret ← find "aws_secret_access_key" "AWS_SECRET_ACCESS_KEY"
  let asked ← find "aws_region" "AWS_REGION"
  let region := if asked.truthy then asked else .str "us-east-1"
  let role ← find "aws_role_arn" "AWS_ROLE_ARN"
  let ready ← Run.orElse (do connect id secret role region; return true) fun _ => return false
  return ⟨region, ready⟩

def defaultModel : String := "anthropic.claude-3-sonnet-20240229-v1:0"

def unsupportedKind (kind : Option Kind) : Fault :=
  let name := kind.elim "None" Kind.label
  .value s!"Model type {name} is not supported by AWS Bedrock client"

def arguments (input : Json) (options : Fields) (kind : Option Kind) : Result Fields := do
  if kind ≠ some .llm then .error (unsupportedKind kind)
  let model := (Fields.get? "model" options).getD (.str defaultModel)
  let steering := options.filter fun (name, _) => name == "temperature" || name == "top_p"
  return Fields.merge [("model", model), ("input", input)] steering

def invoke (model : Json) (maker : Maker) (request : Fields) : Run Json := do
  let body := (Json.obj request).write .line
  let reply ← Service.ask "invoke_model" [("modelId", model), ("body", .str body)]
  let answer ← match reply with
    | .str s => Run.lift (Json.readOctets (Text.Utf8.encode s))
    | v => pure v
  Run.lift (textOf maker answer)

def notReady : String :=
  "AWS Bedrock client not initialized. Check your AWS credentials and region."

/-- Asks for a completion. What the service does wrong is told as the text. -/
def Client.call (client : Client) (arguments : Fields) (kind : Option Kind) : Run Json := do
  if !client.ready then return .str notReady
  if kind ≠ some .llm then throw (unsupportedKind kind)
  let model := (Fields.get? "model" arguments).getD (.str defaultModel)
  let maker := Maker.ofText (← Run.lift (makerName model))
  let prompt := (Fields.get? "input" arguments).getD (.str "")
  let messages := (Fields.get? "messages" arguments).getD .null
  let plain ← Run.lift (request maker prompt messages)
  let request := steer maker "top_p" true arguments
    (steer maker "temperature" false arguments plain)
  Run.orElse (invoke model maker request) fun fault => return .str s!"Error: {fault.message}"

end RepoWiki.Provider.Bedrock
