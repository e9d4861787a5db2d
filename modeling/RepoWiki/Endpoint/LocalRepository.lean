import RepoWiki.Host
import RepoWiki.Wiki.Export

namespace RepoWiki.Endpoint.LocalRepository

def entersDirectory (name : String) : Bool :=
  !Text.startsWith "." name && name != "__pycache__" && name != "node_modules"

def showsFile (name : String) : Bool :=
  !Text.startsWith "." name && name != "__init__.py"

/-- The files that count, directory by directory from the top, with the directory of each. -/
def files (tree : FileTree) (root : String) : List (String × String) :=
  (tree.walk entersDirectory root).flatMap fun (directory, names) =>
    (names.filter showsFile).map fun name => (directory, name)

def below (tree : FileTree) (root directory name : String) : String :=
  let above := Path.relative tree.cwd directory root
  if above = "." then name else Path.join above name

def isReadme (name : String) : Bool :=
  Text.lower name = "readme.md"

def readme (tree : FileTree) (files : List (String × String)) : String :=
  ((files.filter fun f => isReadme f.2).findSome? fun (directory, name) =>
    match tree.readText (Path.join directory name) with
    | .ok s => if s = "" then none else some s
    | .error _ => none).getD ""

def fileList (tree : FileTree) (root : String) (files : List (String × String)) : List String :=
  (files.map fun f => below tree root f.1 f.2).mergeSort

/-- Values that can be asked whether they name a directory. A number is a handle, never that of
a directory. -/
def namesDirectory (tree : FileTree) : Json → Result Bool
  | .str path => .ok (tree.isDirectory path)
  | .int _ | .bool _ => .ok false
  | v => .error (.operation
      s!"stat: path should be string, bytes, os.PathLike or integer, not {v.kindName}")

def overview (tree : FileTree) (path : Json) : Result (Except Reply Json) := do
  if !path.truthy then
    return .error (.ofJson 400 (.obj [("error",
      .str "No path provided. Please provide a 'path' query parameter.")]))
  let root := path.inText
  if !(← namesDirectory tree path) then
    return .error (.ofJson 404 (.obj [("error", .str ("Directory not found: " ++ root))]))
  let found := files tree root
  return .ok (.obj [("file_tree", .str (Text.join "\n" (fileList tree root found))),
    ("readme", .str (readme tree found))])

end RepoWiki.Endpoint.LocalRepository
