import RepoWiki.FileTree

namespace RepoWiki.Glob

inductive Token where
  | any
  | one
  /-- One character inside some ranges, or outside all of them. -/
  | set (inside : Bool) (ranges : List (Char × Char))
  | char (c : Char)

def ranges : List Char → List (Char × Char)
  | a :: '-' :: b :: rest => (a, b) :: ranges rest
  | a :: rest => (a, a) :: ranges rest
  | [] => []

/-- The inside of brackets and what follows them. The first character never closes them. -/
def brackets? (cs : List Char) : Option (Bool × List Char × List Char) :=
  let (inside, cs) := match cs with
    | '!' :: rest => (false, rest)
    | cs => (true, cs)
  match cs with
  | [] => none
  | c :: rest =>
      match rest.dropWhile (· ≠ ']') with
      | _ :: after => some (inside, c :: rest.takeWhile (· ≠ ']'), after)
      | [] => none

def tokensFrom : Nat → List Char → List Token
  | 0, _ => []
  | _, [] => []
  | fuel + 1, '*' :: rest => .any :: tokensFrom fuel rest
  | fuel + 1, '?' :: rest => .one :: tokensFrom fuel rest
  | fuel + 1, '[' :: rest =>
      match brackets? rest with
      | some (inside, content, after) => .set inside (ranges content) :: tokensFrom fuel after
      | none => .char '[' :: tokensFrom fuel rest
  | fuel + 1, c :: rest => .char c :: tokensFrom fuel rest

def tokens (pattern : String) : List Token :=
  tokensFrom pattern.length pattern.toList

def anyTail (p : List Char → Bool) : List Char → Bool
  | [] => p []
  | c :: rest => p (c :: rest) || anyTail p rest

def matchTokens : List Token → List Char → Bool
  | [], cs => cs.isEmpty
  | .any :: ts, cs => anyTail (matchTokens ts) cs
  | .one :: ts, _ :: rest => matchTokens ts rest
  | .set inside rs :: ts, c :: rest =>
      (rs.any fun r => r.1 ≤ c && c ≤ r.2) == inside && matchTokens ts rest
  | .char d :: ts, c :: rest => c == d && matchTokens ts rest
  | _ :: _, [] => false

/-- Whether a name fits a pattern. Names that begin with a dot only fit patterns that do. -/
def fits (pattern name : String) : Bool :=
  (Text.startsWith "." pattern || !Text.startsWith "." name) &&
    matchTokens (tokens pattern) name.toList

def isPattern (p : String) : Bool :=
  p.toList.any fun c => c = '*' || c = '?' || c = '['

def everyLevel : String := "**"

def directoriesIn (tree : FileTree) (dir : String) : List String :=
  match tree.list (if dir = "" then "." else dir) with
  | .ok listing => listing.directories
  | .error _ => []

/-- The ways to the directories below a directory, each before those below it. Hidden ones are
left out. -/
def below (tree : FileTree) : Nat → String → List String
  | 0, _ => []
  | fuel + 1, dir =>
      ((directoriesIn tree dir).filter fun name => !Text.startsWith "." name).flatMap fun name =>
        name :: (below tree fuel (Path.join dir name)).map (Path.join name)

def split (p : String) : String × String :=
  (Path.parent p, Path.base p)

def expandFrom (tree : FileTree) : Nat → String → List String
  | 0, _ => []
  | fuel + 1, pattern =>
      let (above, last) := split pattern
      let directories := if isPattern above then expandFrom tree fuel above else [above]
      directories.flatMap fun dir =>
        let names :=
          if last = everyLevel then "" :: below tree FileTree.pathLimit dir
          else if isPattern last then (directoriesIn tree dir).filter (fits last)
          else if last = "" then if tree.isDirectory dir then [""] else []
          else if tree.exists? (Path.join dir last) then [last]
          else []
        names.map (Path.join dir)

def expand (tree : FileTree) (path : String) : List String :=
  if isPattern path then expandFrom tree (path.length + 1) path else [path]

def trimmed (path : String) : String :=
  let s := Text.trimEndBy (· == '/') path
  if s = "" then path else s

def everything (tree : FileTree) (path : String) : List String :=
  (expand tree (trimmed path)).flatMap fun root =>
    ("" :: below tree FileTree.pathLimit root).flatMap fun way =>
      let dir := Path.join root way
      match tree.names (if dir = "" then "." else dir) with
      | .ok names =>
          (names.filter fun name => !Text.startsWith "." name).map (Path.join dir)
      | .error _ => []

end RepoWiki.Glob
