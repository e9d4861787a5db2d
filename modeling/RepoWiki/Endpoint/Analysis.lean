import RepoWiki.Json.Halves
import RepoWiki.Outline.Project
/-
Requests about the analysis of a project. A request names a local directory, or a repository that
has been copied before. Whatever goes wrong becomes the answer, except for the program's end.
-/

namespace RepoWiki.Endpoint.Analysis

def problem (message : String) : Json :=
  .obj [("status", .str "error"), ("message", .str message)]

def copyOf (owner repo : Json) : Run String := do
  let label ← Run.lift do Json.textAfter (← owner.textBefore "_") repo
  return Path.join (Path.join (← get).dataRoot "repos") label

def projectOf (request : Json) : Run (Except String Json) := do
  let kind ← Run.lift (request.getD "type" (.str "github"))
  if kind.same (.str "local") then
    let path ← Run.lift (request.get "local_path")
    if path.truthy then return .ok path
    return .error "The local project path cannot be empty."
  let owner ← Run.lift (request.get "owner")
  let repo ← Run.lift (request.get "repo")
  let dir ← copyOf owner repo
  if (← Run.tree).exists? dir then return .ok (.str dir)
  return .error s!"The project directory does not exist.: {dir}"

def answer (request : Json) (step : Json → Run Json) : Run Json :=
  Run.orElse
    (do
      match ← projectOf request with
      | .ok project => step project
      | .error message => return problem message)
    fun fault => return problem fault.message

def success (fields : Fields) : Json :=
  .obj ([("status", .str "success")] ++ fields)

def analyse (request : Json) : Run Json :=
  answer request fun project => do
    return success [("analysis", ← Outline.Project.analyse project)]

def stored (request : Json) : Run Json :=
  answer request fun project => do
    return success [("analysis", ← Outline.Project.storedSummary project)]

/-- Stores notes, which come as the text of a value. A value that no file can hold is stored as far
as it goes. -/
def saveNotes (request : Json) : Run Json :=
  answer request fun project => do
    match ← Run.lift (request.get "summarize_text") with
    | .str text =>
        match Json.read text with
        | .error (.json message) => return problem s!"summarize_text error JSON：{message}"
        | .error fault => throw fault
        | .ok notes =>
            match Json.Halves.cut? .indented text with
            | none => Outline.Project.saveNotes project notes
            | some (written, fault) => Outline.Project.writeNotes project written (some fault)
            return success []
    | v =>
        throw (.operation
          s!"the JSON object must be str, bytes or bytearray, not {v.kindName}")

end RepoWiki.Endpoint.Analysis
