import RepoWiki.Host
import RepoWiki.Text.Base64

namespace RepoWiki.Provider.Image

def encode (path : String) : Run String := do
  match (← Run.tree).open? path with
  | .ok content => return String.ofList (Text.Base64.encode content.bytes)
  | .error (.file .notFound _) => throw (.value s!"Image file not found: {path}")
  | .error fault => throw (.value s!"Error encoding image {path}: {fault.message}")

def isAddress (s : String) : Bool :=
  Text.startsWith "http://" s || Text.startsWith "https://" s

/-- An image as a part of a message. What is not a text is taken to be such a part already. -/
def content (source detail : Json) : Run Json := do
  match source with
  | .str s =>
      let url ← if isAddress s then pure s else do
        pure ("data:image/jpeg;base64," ++ (← encode s))
      return .obj [("type", .str "image_url"),
        ("image_url", .obj [("url", .str url), ("detail", detail)])]
  | part => return part

def textWith (text images detail : Json) : Run Json := do
  let images ← match images with
    | .str s => pure [Json.str s]
    | .obj fields => pure [Json.obj fields]
    | v => Run.lift v.elements
  let parts ← images.mapM fun image => content image detail
  return .arr (.obj [("type", .str "text"), ("text", text)] :: parts)

def encodeSetting (name : String) (options : Fields) : Run Fields := do
  match Fields.get? name options with
  | some (.str path) =>
      if (← Run.tree).isFile path then return Fields.set name (.str (← encode path)) options
      else return options
  | _ => return options

end RepoWiki.Provider.Image
