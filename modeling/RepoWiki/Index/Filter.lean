import RepoWiki.Config.Shipped
import RepoWiki.Json.Access
import RepoWiki.Path

namespace RepoWiki.Index

/-- What was asked for: lists of names, or null. Nothing asked for is not the same as an empty
list. -/
structure Wishes where
  excludedDirs : Json := .null
  excludedFiles : Json := .null
  includedDirs : Json := .null
  includedFiles : Json := .null

inductive Filter where
  | only (directories endings : List Json)
  | without (directories names : List Json)

namespace Filter

def usualDirectories : List String := [
  "./.venv/", "./venv/", "./env/", "./virtualenv/", "./node_modules/", "./bower_components/",
  "./jspm_packages/", "./.git/", "./.svn/", "./.hg/", "./.bzr/", "./__pycache__/",
  "./.pytest_cache/", "./.mypy_cache/", "./.ruff_cache/", "./.coverage/", "./dist/", "./build/",
  "./out/", "./target/", "./bin/", "./obj/", "./docs/", "./_docs/", "./site-docs/", "./_site/",
  "./.idea/", "./.vscode/", "./.vs/", "./.eclipse/", "./.settings/", "./logs/", "./log/", "./tmp/",
  "./temp/"]

def usualFiles : List String :=
  Config.Shipped.excludedFiles

def members (v : Json) : Result (List Json) := do
  (← v.elements).mapM Json.asKey

def configured (settings : Fields) (name : String) : Result (List Json) := do
  match Fields.get? "file_filters" settings with
  | none => return []
  | some filters => if ← filters.holds name then members (← filters.item name) else return []

def wished (v : Json) : Result (List Json) :=
  if v.isNull then .ok [] else members v

def asksFor (v : Json) : Result Bool :=
  if v.isNull then .ok false else return 0 < (← v.size)

def including (w : Wishes) : Result Bool := do
  if ← asksFor w.includedDirs then return true else asksFor w.includedFiles

def chosen (v : Json) : Result (List Json) :=
  if v.truthy then members v else .ok []

def onlyFor (w : Wishes) : Result Filter := do
  return .only (← chosen w.includedDirs) (← chosen w.includedFiles)

/-- The rule that leaves out what is usually left out, what the configuration names and what is
asked for. -/
def withoutFor (settings : Fields) (w : Wishes) : Result Filter := do
  let directories ← configured settings "excluded_dirs"
  let files ← configured settings "excluded_files"
  let moreDirectories ← wished w.excludedDirs
  let moreFiles ← wished w.excludedFiles
  return .without (usualDirectories.map .str ++ directories ++ moreDirectories)
    (usualFiles.map .str ++ files ++ moreFiles)

/-- The rule for some wishes. Where something is to be included, nothing else counts. -/
def ofWishes (settings : Fields) (w : Wishes) : Result Filter := do
  if ← including w then onlyFor w else withoutFor settings w

def directoryName (s : String) : String :=
  Text.trimBy (fun c => c = '.' || c = '/') s

def parts (path : String) : List String :=
  Text.splitOn "/" (Path.normalize path)

/-- Whether one of some names fits. A name that is no text only matters where none of the texts
fits. -/
def anyName (fits : String → Bool) (other : Json → Result Bool) (names : List Json) : Result Bool :=
  if (names.filterMap Json.asText?).any fits then .ok true
  else
    match names.find? fun v => v.asText?.isNone with
    | some v => other v
    | none => .ok false

def inside (directories : List Json) (path : String) : Result Bool :=
  anyName (fun d => (parts path).contains (directoryName d))
    (fun v => .error (.attribute v.kindName "strip")) directories

def endsWithOne (endings : List Json) (path : String) : Result Bool :=
  anyName (fun e => Text.endsWith e (Path.base path))
    (fun v => .error (.operation
      s!"endswith first arg must be str or a tuple of str, not {v.kindName}")) endings

def isNamed (names : List Json) (path : String) : Bool :=
  (names.filterMap Json.asText?).contains (Path.base path)

def admits (f : Filter) (path : String) : Result Bool :=
  match f with
  | .only directories endings => do
      if ← inside directories path then return true else endsWithOne endings path
  | .without directories names => do
      return !(← inside directories path) && !isNamed names path

end Filter
end RepoWiki.Index
