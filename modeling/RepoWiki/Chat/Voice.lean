import RepoWiki.Chat.Channel
import RepoWiki.Config.Model
import RepoWiki.Provider.Client

namespace RepoWiki.Chat

open Provider Provider.Record

inductive Hosted where
  | openrouter
  | openai
  | bedrock
  | azure
  deriving DecidableEq, Repr

namespace Hosted

def provider : Hosted → String
  | .openrouter => "openrouter"
  | .openai => "openai"
  | .bedrock => "bedrock"
  | .azure => "azure"

def label : Hosted → String
  | .openrouter => "OpenRouter API"
  | .openai => "Openai API"
  | .bedrock => "AWS Bedrock API"
  | .azure => "Azure AI API"

def advice : Hosted → String
  | .openrouter => "OPENROUTER_API_KEY environment variable with a valid API key."
  | .openai => "OPENAI_API_KEY environment variable with a valid API key."
  | .bedrock =>
      "AWS_ACCESS_KEY_ID and AWS_SECRET_ACCESS_KEY environment variables with valid credentials."
  | .azure =>
      "AZURE_OPENAI_API_KEY, AZURE_OPENAI_ENDPOINT, and AZURE_OPENAI_VERSION environment " ++
        "variables with valid values."

def problem (h : Hosted) (again : Bool) (fault : Fault) : String :=
  "\nError with " ++ h.label ++ (if again then " fallback" else "") ++ ": " ++ fault.message ++
    "\n\nPlease check that you have set the " ++ h.advice

def ofName? (channel : Channel) (name : String) : Option Hosted :=
  match name, channel with
  | "openrouter", _ => some .openrouter
  | "openai", _ => some .openai
  | "azure", _ => some .azure
  | "bedrock", .stream => some .bedrock
  | _, _ => none

end Hosted

inductive Voice where
  | ollama (options : Fields)
  | hosted (h : Hosted) (client : Client) (options : Fields)
  | google (name : Json) (options : Fields)
  /-- A model that can be prepared and not be listened to. -/
  | mute (client : Client) (options : Fields)

namespace Voice

/-! ## Opening -/

def option (options : Fields) (name : String) : Result (String × Json) :=
  match Fields.get? name options with
  | some v => .ok (name, v)
  | none => .error (.key (.str name))

def optionsOf (options : Fields) (names : List String) : Result Fields :=
  names.mapM (option options)

def option? (options : Fields) (name : String) : Fields :=
  ((Fields.get? name options).map fun v => (name, v)).toList

def hostedOptions (h : Hosted) (model : Json) (options : Fields) : Result Fields := do
  let streamed := [("model", model), ("stream", .bool true)]
  match h with
  | .openrouter | .openai =>
      return streamed ++ (← optionsOf options ["temperature"]) ++ option? options "top_p"
  | .bedrock => return [("model", model)] ++ (← optionsOf options ["temperature", "top_p"])
  | .azure => return streamed ++ (← optionsOf options ["temperature", "top_p"])

def ollamaOptions (options : Fields) : Result Fields := do
  let model ← option options "model"
  let inner ← optionsOf options ["temperature", "top_p", "num_ctx"]
  return [model, ("stream", .bool true), ("options", .obj inner)]

/-- The model of a provider. Names without a service of their own mean the usual one. -/
def start (channel : Channel) (provider : String) (model : Json) (options : Fields) :
    Run Voice := do
  match provider, channel with
  | "ollama", _ => return .ollama (← Run.lift (ollamaOptions options))
  | "dashscope", .socket =>
      let client ← Client.ofSettings provider []
      return .mute client (← Run.lift (hostedOptions .azure model options))
  | _, _ =>
      match Hosted.ofName? channel provider with
      | some h =>
          let client ← Client.ofSettings h.provider []
          return .hosted h client (← Run.lift (hostedOptions h model options))
      | none =>
          let (_, name) ← Run.lift (option options "model")
          return .google name
            (← Run.lift (optionsOf options ["temperature", "top_p", "top_k"]))

def arguments (voice : Voice) (prompt : String) : Run Fields := do
  let input := DashScope.Input.ofJson (.str prompt)
  match voice with
  | .ollama options => return Fields.merge [("prompt", .str (prompt ++ " /no_think"))] options
  | .hosted _ client options | .mute client options =>
      return (← client.arguments input (.obj options) (some .llm)).1
  | .google name options =>
      return [("model_name", name), ("generation_config", .obj options),
        ("prompt", .str prompt), ("stream", .bool true)]

/-! ## Listening -/

def ollamaText (chunk : Json) : Result (Option Json) :=
  let said := (chunk.field? "response").filter truthy
  let said := said.orElse fun _ => (chunk.field? "text").filter truthy
  match said.getD (.str (inText chunk)) with
  | .str "" => .ok none
  | .str s =>
      if Text.startsWith "model=" s || Text.startsWith "created_at=" s then .ok none
      else .ok (some (.str (Text.replaceAll "</think>" "" (Text.replaceAll "<think>" "" s))))
  | v => .error (.attribute (kindName v) "startswith")

def choiceText (chunk : Json) : Result (Option Json) := do
  let choices := (chunk.field? "choices").getD (.arr [])
  if (← size choices) = 0 then return none
  let delta := ((← first choices).field? "delta").filter fun d => !d.isNull
  return (delta.bind fun d => d.field? "content").filter fun t => !t.isNull

def plainText (chunk : Json) : Result (Option Json) :=
  match chunk with
  | .str s => .ok (some (.str s))
  | v => .ok (some ((v.field? "text").getD (.str (inText v))))

def fieldText (chunk : Json) : Result (Option Json) :=
  .ok (chunk.field? "text")

def sendEach (textOf : Json → Result (Option Json)) : List Json → Run Unit
  | [] => pure ()
  | chunk :: rest => do
      if let some text ← Run.lift (textOf chunk) then Run.send text
      sendEach textOf rest

def sendChunks (textOf : Json → Result (Option Json)) (chunks : Chunks) : Run Unit := do
  sendEach textOf chunks.pieces
  if let some text := chunks.broken then throw (.service text)

def sendStream (s : Stream) : Run Unit := do
  sendEach (fun piece => .ok (some piece)) s.pieces
  if let some fault := s.fault then throw fault

def sendAnswer (textOf : Json → Result (Option Json)) : Answer → Run Unit
  | .completion c => do sendChunks textOf (← Run.lift c.lateChunks)
  | .pieces s => sendStream s
  | .value v => Run.send (.str v.inText)
  | .generated _ | .embeddings _ =>
      throw (.operation "'async for' requires an object with __aiter__ method")

def speak (voice : Voice) (textOf : Json → Result (Option Json)) (arguments : Fields) :
    Run Unit := do
  match voice with
  | .ollama _ =>
      let reply ← Service.ask "ollama" arguments
      let broken ← Service.broken reply
      sendChunks ollamaText (← Run.lift (Completion.ofReply true reply broken).lateChunks)
  | .hosted _ client _ => sendAnswer textOf (← client.callLater (.obj arguments) .llm)
  | .google _ _ =>
      let reply ← Service.ask "google" arguments
      let broken ← Service.broken reply
      sendChunks fieldText (← Run.lift (Chunks.ofElements reply broken))
  | .mute _ _ => throw (.attribute Config.ClientClass.dashscope.label "generate_content")

def textAgain : Hosted → Json → Result (Option Json)
  | .openai => plainText
  | _ => choiceText

end Voice
end RepoWiki.Chat
