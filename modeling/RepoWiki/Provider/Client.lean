import RepoWiki.Provider.Azure
import RepoWiki.Provider.Bedrock
import RepoWiki.Provider.DashScope
import RepoWiki.Provider.OpenRouter

namespace RepoWiki.Provider

inductive Client where
  | openai (c : OpenAI.Client)
  | azure (c : Azure.Client)
  | dashscope (c : DashScope.Client) (connection : DashScope.Connection)
  | openrouter (c : OpenRouter.Client)
  | bedrock (c : Bedrock.Client)

namespace Client

def ofSettings (provider : String) (settings : Fields) : Run Client := do
  match provider with
  | "openai" => return .openai (← OpenAI.Client.ofSettings settings)
  | "azure" => return .azure (← Azure.Client.ofSettings settings)
  | "dashscope" =>
      let (c, connection) ← DashScope.Client.ofSettings settings
      return .dashscope c connection
  | "openrouter" => return .openrouter (← OpenRouter.Client.open)
  | "bedrock" => return .bedrock (← Bedrock.Client.ofSettings settings)
  | name => throw (.value s!"unknown provider: {name}")

def notATable (v : Json) : Fault :=
  .operation s!"argument after ** must be a mapping, not {v.kindName}"

def optionsOf (client : Client) (v : Json) : Result Fields :=
  match client, v with
  | _, .obj fields => .ok fields
  | .bedrock _, v => if v.truthy then .error (.attribute v.kindName "get") else .ok []
  | .openrouter _, v => if v.truthy then .error (notATable v) else .ok []
  | _, .arr items => .error (notATable (.arr items))
  | _, v => .error (.attribute v.kindName "copy")

/-- The arguments of a call, which should come as a table. What a kind of model that is not
served comes with is not looked at. -/
def argumentsOf (client : Client) (kind : Kind) (v : Json) : Result Fields :=
  match client, kind, v with
  | _, _, .obj fields => .ok fields
  | .bedrock _, .llm, v => if v.truthy then .error (.attribute v.kindName "get") else .ok []
  | .openrouter _, .llm, v => if v.truthy then .error (notATable v) else .ok []
  | .dashscope _ _, .llm, v | .dashscope _ _, .embedder, v => .error (.attribute v.kindName "get")
  | .openai _, .llm, .str _ => .error (.attribute "str" "copy")
  | .openai _, .llm, v | .openai _, .embedder, v | .openai _, .imageGeneration, v
  | .azure _, .llm, v | .azure _, .embedder, v => .error (notATable v)
  | _, _, _ => .ok []

def arguments (client : Client) (input : DashScope.Input) (options : Json)
    (kind : Option Kind) : Run (Fields × Fields) := do
  let options ← Run.lift (client.optionsOf options)
  let plain := input.toJson
  let known := kind.getD .undefined
  match client with
  | .openai c => return (← c.arguments plain options known, options)
  | .azure c => return (← Run.lift (c.arguments plain options known), options)
  | .dashscope _ connection =>
      let arguments ← Run.lift (DashScope.arguments connection input options known)
      return (arguments, DashScope.optionsAfter options arguments)
  | .openrouter _ => return (← Run.lift (OpenRouter.arguments plain options kind), options)
  | .bedrock _ => return (← Run.lift (Bedrock.arguments plain options kind), options)

def call (client : Client) (arguments : Json) (kind : Kind) : Run Answer := do
  let arguments ← Run.lift (client.argumentsOf kind arguments)
  match client with
  | .openai _ => OpenAI.call arguments kind
  | .azure _ => Azure.call arguments kind
  | .dashscope _ _ => DashScope.call arguments kind
  | .openrouter c => return .pieces (← c.callLater arguments (some kind))
  | .bedrock c => return .value (← c.call arguments (some kind))

def callLater (client : Client) (arguments : Json) (kind : Kind) : Run Answer := do
  let fields ← Run.lift (client.argumentsOf kind arguments)
  match client with
  | .openai c => c.callLater fields kind
  | .azure c => c.callLater fields kind
  | .dashscope c _ => c.callLater fields kind
  | client => client.call arguments kind

def readingAfter? (client : Client) (arguments : Fields) (kind : Kind) : Option Reading :=
  match client with
  | .openai _ | .azure _ => some (OpenAI.readingAfter arguments kind)
  | _ => none

end Client
end RepoWiki.Provider
