import RepoWiki.Config.ClientClass
import RepoWiki.Host
import RepoWiki.Provider.Completion
import RepoWiki.Provider.Kind
/-
Calls to model services. A call is noted before the reply is taken.
-/

namespace RepoWiki.Provider.Service

def reply : Run Json := do
  match (← get).model with
  | [] => throw (.service "no scripted reply")
  | r :: rest =>
      modify fun h => { h with model := rest }
      match r.field? "raise" with
      | some message => throw (.service message.inText)
      | none => return r

def ask (name : String) (arguments : Fields) : Run Json := do
  Run.note name (.obj arguments)
  reply

def broken (reply : Json) : Run (Option String) :=
  return (← Run.library).breaks reply

def chat (waiting : Bool) (arguments : Fields) : Run Completion := do
  let reply ← ask "chat" arguments
  return Completion.ofReply waiting reply (← broken reply)

def setting (settings : Fields) (name : String) : Json :=
  (Fields.get? name settings).getD .null

def settingOr (settings : Fields) (name default : String) : Json :=
  (Fields.get? name settings).getD (.str default)

def envNamed (name : Json) : Run Json := do
  match name with
  | .str s => return Json.ofText? (← Run.env? s)
  | v => throw (.operation s!"str expected, not {v.kindName}")

def settingOrEnv (given name : Json) : Run Json :=
  if given.truthy then return given else envNamed name

def address (settings : Fields) (variableName usual : String) : Run Json := do
  let given := setting settings "base_url"
  if given.truthy then return given
  match ← envNamed (settingOr settings "env_base_url_name" variableName) with
  | .null => return .str usual
  | v => return v

def takeOnly (client : Config.ClientClass) (names : List String) (settings : Fields) : Run Unit :=
  match settings.find? fun s => !names.contains s.1 with
  | some (name, _) => throw (.operation
      s!"{client.label}.__init__() got an unexpected keyword argument '{name}'")
  | none => return

def splitsPrompts (settings : Fields) : Bool :=
  match Fields.get? "input_type" settings with
  | some (.str s) => s = "messages"
  | _ => false

def unsupportedKind (kind : Kind) : Fault :=
  .value s!"model_type {kind.label} is not supported"

end RepoWiki.Provider.Service
