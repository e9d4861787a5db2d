import RepoWiki.Provider.Client

namespace RepoWiki.Provider

def tryOpen (c : Config.ClientClass) (settings : Fields) : Run Unit := do
  match c with
  | .google | .ollama => pure ()
  | c =>
      let _ ← Client.ofSettings c.provider settings
      pure ()

def tryOpenMarked (mark : Json) (settings : Fields) : Run Config.ClientClass := do
  match Config.ClientClass.ofMark? mark with
  | some c =>
      tryOpen c settings
      return c
  | none => throw (.operation s!"'{mark.kindName}' object is not callable")

def openerName (mark : Json) : String :=
  match Config.ClientClass.ofMark? mark with
  | some c => c.fullName ++ "()"
  | none => mark.inText

structure OpenEmbedder where
  client : Config.ClientClass
  options : Json

def openEmbedder (configuration : Fields) : Run OpenEmbedder := do
  let embedder ← match Fields.get? "embedder" configuration with
    | some v => pure v
    | none => throw (.key (.str "embedder"))
  let mark ← Run.lift (embedder.item Config.clientField)
  let settings ← if ← Run.lift (embedder.holds "initialize_kwargs") then
      match ← Run.lift (embedder.item "initialize_kwargs") with
      | .obj fields => pure fields
      | v => throw (.operation
          s!"{openerName mark} argument after ** must be a mapping, not {v.kindName}")
    else pure []
  let client ← tryOpenMarked mark settings
  return ⟨client, ← Run.lift (embedder.item "model_kwargs")⟩

end RepoWiki.Provider
