import RepoWiki.Document
import RepoWiki.Glob
import RepoWiki.Host
import RepoWiki.Index.Filter
import RepoWiki.Text.Case

namespace RepoWiki.Index

def codeEndings : List String :=
  [".py", ".js", ".ts", ".java", ".cpp", ".c", ".h", ".hpp", ".go", ".rs", ".jsx", ".tsx", ".html",
    ".css", ".php", ".swift", ".cs"]

def textEndings : List String :=
  [".md", ".txt", ".rst", ".json", ".yaml", ".yml"]

/-- The rough number of tokens of a value that stands several times in a row. Only texts and lists
can stand so. -/
def tokenCountOf (v : Json) (times : Nat) : Result Nat :=
  match v with
  | .str s => .ok (s.length * times / 4)
  | .arr items => .ok (items.length * times / 4)
  | v => .error (.operation s!"object of type '{v.kindName}' has no len()")

def tokenLimit : Nat := 8192

def isImplementation (path : String) : Bool :=
  !Text.startsWith "test_" path && !Text.startsWith "app_" path &&
    !Text.hasInfix "test" (Text.lower path)

def about (code : Bool) (ending path : String) (tokens : Nat) : Json :=
  .obj [("file_path", .str path), ("type", .str (String.ofList (ending.toList.drop 1))),
    ("is_code", .bool code), ("is_implementation", .bool (code && isImplementation path)),
    ("title", .str path), ("token_count", .nat tokens)]

/-- The document of a file, unless the file cannot be read or has too many tokens, by some way to
count them. -/
def documentBy? (count : String → Nat) (tree : FileTree) (root : String) (code : Bool)
    (ending file : String) : Option Document :=
  match tree.readText file with
  | .error _ => none
  | .ok text =>
      let tokens := count text
      if tokens > (if code then tokenLimit * 10 else tokenLimit) then none
      else
        let path := Path.relative tree.cwd file root
        some { text, about := about code ending path tokens }

def documentsOfBy (count : String → Nat) (tree : FileTree) (root : String) (filter : Filter)
    (files : List String) (code : Bool) (ending : String) : Result (List Document) := do
  return (← (files.filter (Text.endsWith ending)).filterM filter.admits).filterMap
    (documentBy? count tree root code ending)

def documentsBy (count : String → Nat) (tree : FileTree) (root : String) (filter : Filter) :
    Result (List Document) := do
  let files := Glob.everything tree root
  let code ← codeEndings.mapM (documentsOfBy count tree root filter files true)
  let texts ← textEndings.mapM (documentsOfBy count tree root filter files false)
  return (code ++ texts).flatten

/-- The documents of a repository, by a configuration and wishes. What is no path has none. -/
def readBy (count : String → Nat) (settings : Fields) (root : Json) (wishes : Wishes) :
    Run (List Document) := do
  let filter ← Run.lift (Filter.ofWishes settings wishes)
  match root with
  | .str root =>
      if root.toList.contains (Char.ofNat 0) then throw (.file .nulInside root)
      Run.lift (documentsBy count (← Run.tree) root filter)
  | _ => return []

end RepoWiki.Index
