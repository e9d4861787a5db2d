import RepoWiki.Config.ClientClass

namespace RepoWiki.Config

structure Model where
  client : Json
  options : Fields

def Model.toJson (m : Model) : Json :=
  .obj [(clientField, m.client), ("model_kwargs", .obj m.options)]

def asOptions (v : Json) : Result Fields :=
  match v with
  | .obj fields => .ok fields
  | v => .error (.operation s!"'{v.kindName}' object is not a mapping")

/-- The model of a provider. A model that the provider does not list has the options of its
default model. -/
def model (settings : Fields) (provider : Json) (name : Json) : Result Model := do
  let some providers := Fields.get? "providers" settings
    | .error (.value "Provider configuration not loaded")
  let label := provider.inText
  let chosen ← match provider with
    | .str s => providers.get s
    | v => do
        let _ ← providers.get ""
        let _ ← v.asKey
        pure .null
  if !chosen.truthy then
    .error (.value s!"Configuration for provider '{label}' not found")
  let client ← chosen.get clientField
  if !client.truthy then
    .error (.value s!"Model client not specified for provider '{label}'")
  let default ← chosen.get "default_model"
  let name := if name.truthy then name else default
  if !name.truthy then
    .error (.value s!"No default model specified for provider '{label}'")
  let listed ← Json.includes name (← chosen.getD "models" (.obj []))
  let options ← Json.index (if listed then name else default) (← chosen.item "models")
  if label = "ollama" then
    let inner ← if ← options.holds "options" then asOptions (← options.item "options")
      else pure []
    return ⟨client, Fields.merge [("model", name)] inner⟩
  return ⟨client, Fields.merge [("model", name)] (← asOptions options)⟩

def embedder (settings : Fields) : Json :=
  (Fields.get? "embedder" settings).getD (.obj [])

def usesOllama (settings : Fields) : Result Bool := do
  let e := embedder settings
  if !e.truthy then return false
  let client ← e.get clientField
  if client.truthy then
    match ClientClass.ofMark? client with
    | some c => return c = .ollama
    | none => .error (.attribute client.kindName "__name__")
  return (← e.getD classField (.str "")).same (.str ClientClass.ollama.label)

end RepoWiki.Config
