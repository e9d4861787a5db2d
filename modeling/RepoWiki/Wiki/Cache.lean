import RepoWiki.Host
import RepoWiki.Json.Reader
import RepoWiki.Wiki.Content

namespace RepoWiki.Wiki.Cache

structure Key where
  owner : String
  repo : String
  kind : String
  language : String
  deriving DecidableEq, Repr

def mark : String := "deepwiki_cache_"

def ending : String := ".json"

namespace Key

def middle (k : Key) : String :=
  k.kind ++ "_" ++ k.owner ++ "_" ++ k.repo ++ "_" ++ k.language

def fileName (k : Key) : String :=
  mark ++ k.middle ++ ending

/-- The key that the parts of a file name stand for. The name of a repository takes all the parts
that are left over. -/
def ofParts? : List String → Option Key
  | kind :: owner :: rest =>
      if rest.length < 2 then none
      else some ⟨owner, Text.join "_" rest.dropLast, kind, rest.getLast?.getD ""⟩
  | _ => none

def ofFileName? (name : String) : Option Key :=
  ofParts? (Text.splitOn "_" (Text.replaceAll ending "" (Text.replaceAll mark "" name)))

end Key

def directoryOf (host : Host) : String :=
  Path.join host.dataRoot "wikicache"

def path (host : Host) (k : Key) : String :=
  Path.join (directoryOf host) k.fileName

/-! ## Languages -/

def languageSetting (settings : Fields) (name : String) : Result Json :=
  match Fields.get? "lang_config" settings with
  | some v => v.item name
  | none => .error (.key (.str "lang_config"))

def supports (settings : Fields) (language : Json) : Result Bool := do
  let known ← languageSetting settings "supported_languages"
  match known with
  | .obj _ | .arr _ | .str _ => language.includes known
  | v => throw (.attribute v.kindName "__contains__")

def languageFor (settings : Fields) (language : Json) : Result String := do
  if ← supports settings language then return language.inText
  return (← languageSetting settings "default").inText

/-! ## Files -/

def decode (s : String) : Result Stored := do
  Stored.read (← Json.read s)

def encode (w : Stored) : String :=
  w.toJson.write .indentedAscii

def load? (tree : FileTree) (file : String) : Option Stored :=
  match tree.readText file with
  | .ok s => (decode s).toOption
  | .error _ => none

/-! ## Requests -/

structure Guard where
  on : Json := .bool false
  code : Json := .str ""

def Guard.admits (g : Guard) (code : Json) : Bool :=
  !g.on.truthy || code.same g.code

/-- What a request asks for. The language is the only part that is looked at. -/
structure Wanted where
  owner : String
  repo : String
  kind : String
  language : Json

def Wanted.keyIn (w : Wanted) (language : String) : Key :=
  ⟨w.owner, w.repo, w.kind, language⟩

def Wanted.key (w : Wanted) : Key :=
  w.keyIn w.language.inText

def get (settings : Fields) (w : Wanted) : Run (Option Stored) := do
  let k := w.keyIn (← Run.lift (languageFor settings w.language))
  return load? (← Run.tree) (path (← MonadState.get) k)

def keyOf (settings : Fields) (s : Submission) : Result Key := do
  return ⟨s.subject.owner, s.subject.repo, s.subject.kind, ← languageFor settings (.str s.language)⟩

def store (settings : Fields) (s : Submission) : Run Unit := do
  let k ← Run.lift (keyOf settings s)
  let file := path (← MonadState.get) k
  match (← Run.tree).write file (.text (encode s.stored)) with
  | .ok tree => Run.setTree tree
  | .error _ => throw (.http 500 "Failed to save wiki cache")

def delete (settings : Fields) (g : Guard) (w : Wanted) (code : Json) : Run Unit := do
  if !(← Run.lift (supports settings w.language)) then
    throw (.http 400 "Language is not supported")
  if !g.admits code then throw (.http 401 "Authorization code is invalid")
  let file := path (← MonadState.get) w.key
  let tree ← Run.tree
  if !tree.exists? file then throw (.http 404 "Wiki cache not found")
  match tree.remove file with
  | .ok tree => Run.setTree tree
  | .error fault => throw (.http 500 ("Failed to delete wiki cache: " ++ fault.message))

def deleted (k : Key) : String :=
  s!"Wiki cache for {k.owner}/{k.repo} ({k.language}) deleted successfully"

/-! ## Listing -/

structure Listed where
  file : String
  key : Key
  time : Int

def Listed.toJson (l : Listed) : Json :=
  .obj [("id", .str l.file), ("owner", .str l.key.owner), ("repo", .str l.key.repo),
    ("name", .str (l.key.owner ++ "/" ++ l.key.repo)), ("repo_type", .str l.key.kind),
    ("submittedAt", .int l.time), ("language", .str l.key.language)]

def timeOf : Entry → Int
  | .file _ (some time) | .directory (some time) => Clock.milliseconds time
  | _ => 0

def listed? (tree : FileTree) (directory name : String) : Option Listed :=
  if Text.startsWith mark name && Text.endsWith ending name then
    match tree.find? (Path.join directory name), Key.ofFileName? name with
    | some entry, some key => some ⟨name, key, timeOf entry⟩
    | _, _ => none
  else none

def newestFirst (all : List Listed) : List Listed :=
  all.mergeSort fun a b => b.time ≤ a.time

def list : Run (List Listed) := do
  let directory := directoryOf (← MonadState.get)
  let tree ← Run.tree
  if !tree.exists? directory then return []
  match tree.names directory with
  | .ok names => return newestFirst (names.filterMap (listed? tree directory))
  | .error _ => throw (.http 500 "Failed to list processed projects from server cache.")

end RepoWiki.Wiki.Cache
