import RepoWiki.Config.ClientClass
import RepoWiki.Config.Placeholder
import RepoWiki.Config.Shipped
import RepoWiki.Json.Reader
import RepoWiki.Text.Case

namespace RepoWiki.Config

inductive Part where
  | generator
  | embedder
  | repository
  | languages
  deriving DecidableEq, Repr

def Part.fileName : Part → String
  | .generator => "generator.json"
  | .embedder => "embedder.json"
  | .repository => "repo.json"
  | .languages => "lang.json"

def Part.shipped : Part → Json
  | .generator => Shipped.generator
  | .embedder => Shipped.embedder
  | .repository => Shipped.repository
  | .languages => Shipped.languageSettings

def readFile (tree : FileTree) (path : String) : Result Json := do
  Json.read (← tree.readText path)

/-- A part of the configuration with its placeholders replaced. A file that is not there, or
cannot be read, counts as empty. -/
def Part.load (part : Part) (directory : Option String) : Run Json := do
  let host ← get
  let found : Result Json := do
    let v ← match directory with
      | some d => readFile host.tree (Path.tidy (Path.join d part.fileName))
      | none => pure part.shipped
    return expandIn host.env v
  return (found.toOption).getD (.obj [])

/-- A provider with the kind of its clients: the one it names, or else the one of its own
name. -/
def resolveProvider (name : String) (v : Json) : Result Json := do
  let named ← ClientClass.named? (← v.get classField)
  match named.or (ClientClass.ofProvider? name), v with
  | some c, .obj fields => return .obj (Fields.set clientField c.mark fields)
  | _, v => return v

def resolveGenerator (v : Json) : Result Json := do
  if !(← v.holds "providers") then return v
  let providers ← v.item "providers"
  match v, providers with
  | .obj fields, .obj ps =>
      let resolved ← ps.mapM fun (name, p) => do return (name, ← resolveProvider name p)
      return .obj (Fields.set "providers" (.obj resolved) fields)
  | _, ps => .error (.attribute ps.kindName "items")

def resolveEmbedderAt (key : String) (v : Json) : Result Json := do
  if !(← v.holds key) then return v
  let embedder ← v.item key
  if !(← embedder.holds classField) then return v
  match ← ClientClass.named? (← embedder.item classField), v, embedder with
  | some c, .obj fields, .obj inner =>
      return .obj (Fields.set key (.obj (Fields.set clientField c.mark inner)) fields)
  | _, _, _ => return v

def resolveEmbedder (v : Json) : Result Json := do
  resolveEmbedderAt "embedder_ollama" (← resolveEmbedderAt "embedder" v)

/-- Languages that are not told completely are those that come with the program. -/
def resolveLanguages (v : Json) : Result Json := do
  if !v.truthy then return Shipped.languageSettings
  if !(← v.holds "supported_languages") || !(← v.holds "default") then
    return Shipped.languageSettings
  return v

def load (part : Part) (directory : Option String) : Run Json := do
  let v ← part.load directory
  Run.lift <| match part with
    | .generator => resolveGenerator v
    | .embedder => resolveEmbedder v
    | .repository => .ok v
    | .languages => resolveLanguages v

def pick (keys : List String) (v : Json) (into : Fields) : Result Fields :=
  keys.foldlM (fun fields key => do
    if ← v.holds key then return Fields.set key (← v.item key) fields
    return fields) into

def directory? (name : Option String) : Option String :=
  name.filter (· ≠ "")

def loadAll (directory : Option String) : Run Fields := do
  let generator ← load .generator directory
  let embedder ← load .embedder directory
  let repository ← load .repository directory
  let languages ← load .languages directory
  Run.lift do
    let fields : Fields ← do
      if generator.truthy then
        let provider ← generator.getD "default_provider" (.str "google")
        pure [("default_provider", provider), ("providers", ← generator.getD "providers" (.obj []))]
      else pure []
    let fields ← if embedder.truthy then
        pick ["embedder", "embedder_ollama", "retriever", "text_splitter"] embedder fields
      else pure fields
    let fields ← if repository.truthy then
        pick ["file_filters", "repository"] repository fields
      else pure fields
    return if languages.truthy then Fields.set "lang_config" languages fields else fields

def standard : Run Fields :=
  loadAll none

/-! ## What the environment tells at the start -/

structure Startup where
  settings : Fields
  directory : Option String
  /-- Whether a wiki can only be changed with a code. -/
  guarded : Bool
  code : String

def meansYes (s : String) : Bool :=
  ["true", "1", "t"].contains (Text.lower s)

def startup : Run Startup := do
  let directory ← Run.env? "DEEPWIKI_CONFIG_DIR"
  let guarded := meansYes ((← Run.env? "DEEPWIKI_AUTH_MODE").getD "False")
  let code := (← Run.env? "DEEPWIKI_AUTH_CODE").getD ""
  return ⟨← loadAll (directory? directory), directory, guarded, code⟩

def keyNames : List String :=
  ["OPENAI_API_KEY", "GOOGLE_API_KEY", "OPENROUTER_API_KEY", "AWS_ACCESS_KEY_ID",
    "AWS_SECRET_ACCESS_KEY", "AWS_REGION", "AWS_ROLE_ARN"]

end RepoWiki.Config
