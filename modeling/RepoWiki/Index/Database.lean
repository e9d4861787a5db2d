import RepoWiki.Config.Model
import RepoWiki.Index.Source
import RepoWiki.Ollama
import RepoWiki.Provider.Opening
import RepoWiki.Repository.Clone

namespace RepoWiki.Index

structure Paths where
  repository : String
  database : String

def Paths.toJson (p : Paths) : Json :=
  .obj [("save_repo_dir", .str p.repository), ("save_db_file", .str p.database)]

structure Database where
  repository : Option String := none
  paths : Option Paths := none
  loaded : Bool := false

namespace Database

def isRemote (address : String) : Bool :=
  Text.startsWith "https://" address || Text.startsWith "http://" address

def place (root address : String) (hosting : Repository.Hosting) : String × String :=
  if isRemote address then
    let name := Repository.storageName address hosting
    (name, Path.join (Path.join root "repos") name)
  else (Path.base address, address)

def isFilled (tree : FileTree) (directory : String) : Result Bool := do
  if tree.exists? directory then return !(← tree.names directory).isEmpty else return false

/-- Makes a repository available, as a copy if it is somewhere else. A copy that is there already
is used as it is. -/
def locate (address : Json) (hosting : Repository.Hosting) (token : Json) : Run Paths := do
  let root := (← get).dataRoot
  Run.changeTree fun t => t.makeDirectories root
  let address ← Run.lift (address.asWord "startswith")
  let (name, directory) := place root address hosting
  if isRemote address then
    if !(← Run.lift (isFilled (← Run.tree) directory)) then
      let _ ← Repository.clone (.str address) (.str directory) hosting token
  let database := Path.join (Path.join root "databases") (name ++ ".pkl")
  Run.changeTree fun t => t.makeDirectories directory
  Run.changeTree fun t => t.makeDirectories (Path.parent database)
  return ⟨directory, database⟩

/-- Makes a repository available, and keeps what was at hand if that fails. -/
def create (db : Database) (address : Json) (hosting : Repository.Hosting) (token : Json) :
    Run (Database × Result Unit) := do
  match ← Run.attempt (locate address hosting token) with
  | .ok paths => return ({ db with repository := address.asText?, paths := some paths }, .ok ())
  | .error fault => return (db, .error fault)

def stored? (tree : FileTree) (file : String) : Option (List Document) :=
  match tree.open? file with
  | .ok (.value (.arr items)) => items.mapM Document.unpack?
  | _ => none

/-- The pieces of documents in turn. A piece is known for what its document is. -/
def cut (pieces : String → List String) (documents : List Document) : List Document :=
  documents.flatMap fun d => (pieces d.text).map fun text => { d with text }

def withVectors (vectors : List Vector) (documents : List Document) : List Document :=
  documents.mapIdx fun i d => { d with vector := vectors[i]?.getD d.vector }

def splitting (settings : Fields) : Result Fields :=
  match Fields.get? "text_splitter" settings with
  | some (.obj fields) => .ok fields
  | some v => .error (.operation s!"argument after ** must be a mapping, not {v.kindName}")
  | none => .error (.key (.str "text_splitter"))

def embed (settings : Fields) (single : Bool) (documents : List Document) :
    Run (List Document) := do
  let library ← Run.library
  let pieces ← Run.ofLibrary (library.split (← Run.lift (splitting settings)))
  let _ ← Provider.openEmbedder settings
  let documents := cut pieces documents
  if single then Ollama.embedDocuments documents
  else
    let _ ← Run.lift ((Config.embedder settings).getD "batch_size" (.int 500))
    return withVectors (← Run.ofLibrary (library.vectors (documents.map Document.text))) documents

def build (settings : Fields) (paths : Paths) (single : Option Bool) (wishes : Wishes) :
    Run (List Document) := do
  let documents ← readBy ((← Run.library).count single) settings (.str paths.repository) wishes
  let single ← match single with
    | some b => pure b
    | none => Run.lift (Config.usesOllama settings)
  let documents ← embed settings single documents
  Run.changeTree fun t => do
    let t ← t.makeDirectories (Path.parent paths.database)
    t.write paths.database (.value (.arr (documents.map Document.pack)))
  return documents

/-- The documents of a repository from its stored index. An index without documents is made
anew. -/
def index (db : Database) (settings : Fields) (single : Option Bool) (wishes : Wishes) :
    Run (Database × Result (List Document)) := do
  match db.paths with
  | none => return (db, .error (.operation "'NoneType' object is not subscriptable"))
  | some paths =>
      let stored := stored? (← Run.tree) paths.database
      let db := if stored.isSome then { db with loaded := true } else db
      match stored with
      | some (d :: rest) => return (db, .ok (d :: rest))
      | _ =>
          match ← Run.attempt (build settings paths single wishes) with
          | .ok documents => return ({ db with loaded := true }, .ok documents)
          | .error fault => return (db, .error fault)

def prepare (settings : Fields) (address : Json) (hosting : Repository.Hosting)
    (token : Json) (single : Option Bool) (wishes : Wishes) :
    Run (Database × Result (List Document)) := do
  let (db, made) ← create {} address hosting token
  match made with
  | .error fault => return (db, .error fault)
  | .ok () => db.index settings single wishes

end Database
end RepoWiki.Index
