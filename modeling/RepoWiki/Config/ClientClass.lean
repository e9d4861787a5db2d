import RepoWiki.Json.Access

namespace RepoWiki.Config

inductive ClientClass where
  | google
  | openai
  | openrouter
  | ollama
  | bedrock
  | azure
  | dashscope
  deriving DecidableEq, Repr

namespace ClientClass

def all : List ClientClass :=
  [.google, .openai, .openrouter, .ollama, .bedrock, .azure, .dashscope]

def label : ClientClass → String
  | .google => "GoogleGenAIClient"
  | .openai => "OpenAIClient"
  | .openrouter => "OpenRouterClient"
  | .ollama => "OllamaClient"
  | .bedrock => "BedrockClient"
  | .azure => "AzureAIClient"
  | .dashscope => "DashscopeClient"

def provider : ClientClass → String
  | .google => "google"
  | .openai => "openai"
  | .openrouter => "openrouter"
  | .ollama => "ollama"
  | .bedrock => "bedrock"
  | .azure => "azure"
  | .dashscope => "dashscope"

def fullName : ClientClass → String
  | .openai => "api.openai_client.OpenAIClient"
  | .openrouter => "api.openrouter_client.OpenRouterClient"
  | .bedrock => "api.bedrock_client.BedrockClient"
  | .azure => "api.azureai_client.AzureAIClient"
  | .dashscope => "api.dashscope_client.DashscopeClient"
  | c => c.label

def mark (c : ClientClass) : Json :=
  .str s!"<class {c.label}>"

def ofLabel? (s : String) : Option ClientClass :=
  all.find? fun c => c.label == s

def ofProvider? (s : String) : Option ClientClass :=
  all.find? fun c => c.provider == s

def ofMark? (v : Json) : Option ClientClass :=
  all.find? fun c => c.mark.same v

/-- The kind that a value of a configuration file names. Lists and objects name nothing, and
cannot be asked. -/
def named? (v : Json) : Result (Option ClientClass) :=
  match v with
  | .str s => .ok (ofLabel? s)
  | .arr _ | .obj _ => .error (.operation s!"unhashable type: '{v.kindName}'")
  | _ => .ok none

end ClientClass

def clientField : String := "model_client"

def classField : String := "client_class"

end RepoWiki.Config
