import RepoWiki.Host
import RepoWiki.Json.Reader
/-
Where the results on projects are kept: one directory for all projects, with files named after
the project and the kind of result. Projects with directories of one name share their files.
-/

namespace RepoWiki.Outline.Archive

inductive Kind where
  | reports
  | summary
  | notes
  deriving DecidableEq, Repr

def Kind.label : Kind → String
  | .reports => "analysis"
  | .summary => "extract_analysis"
  | .notes => "summarize_text"

def fileName (project : String) (kind : Kind) : String :=
  project ++ "_project_" ++ kind.label ++ ".json"

/-- The directory of the archive. It is made if it is missing; if that fails the console tells,
and the path is given all the same. -/
def directory : Run String := do
  let dir := Path.join (← get).dataRoot "analysis"
  tryCatch
    (do
      Run.changeTree fun tree => tree.makeDirectories dir
      Run.print s!"缓存目录已就绪: {dir}")
    fun fault =>
      if fault.isFile then Run.print s!"无法创建缓存目录 {dir}: {fault.message}" else throw fault
  return dir

def pathOf (project : String) (kind : Kind) : Run String :=
  return Path.join (← directory) (fileName project kind)

/-- The stored result of a kind, or an empty object if there is none that can be read. -/
def load (project : String) (kind : Kind) : Run Json := do
  let path ← pathOf project kind
  let tree ← Run.tree
  if !tree.isFile path then
    Run.print s!"Warning: Analysis file '{path}' not found, returning empty dict."
    return .obj []
  match tree.readText path with
  | .error fault => if fault.isFile then return .obj [] else throw fault
  | .ok text =>
      match Json.read text with
      | .ok value => return value
      | .error (.json _) => return .obj []
      | .error fault => throw fault

def replace (path : String) (value : Json) : Run Unit := do
  if (← Run.tree).exists? path then Run.changeTree fun tree => tree.remove path
  Run.changeTree fun tree => tree.write path (.text (value.write .indented))

def save (path : String) (value : Json) : Run Unit :=
  Run.orElse (replace path value) fun fault =>
    Run.print s!"Error saving JSON file {path}: {fault.message}"

end RepoWiki.Outline.Archive
