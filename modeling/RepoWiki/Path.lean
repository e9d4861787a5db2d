import RepoWiki.Text.Basic

namespace RepoWiki.Path

def isAbsolute (p : String) : Bool :=
  Text.startsWith "/" p

def base (p : String) : String :=
  match Text.cutLast? "/" p with
  | some (_, last) => last
  | none => p

def parent (p : String) : String :=
  match Text.cutLast? "/" p with
  | none => ""
  | some (before, _) =>
      let head := before ++ "/"
      let trimmed := Text.trimEndBy (· == '/') head
      if trimmed = "" then head else trimmed

def join (a b : String) : String :=
  if isAbsolute b then b
  else if a = "" || Text.endsWith "/" a then a ++ b
  else a ++ "/" ++ b

/-- Splits off the ending from the last dot on. Dots at the start of the last part begin no
ending. -/
def splitExtension (p : String) : String × String :=
  let last := base p
  let stem := last.toList.dropWhile (· == '.')
  match Text.cutLast? "." (String.ofList stem) with
  | none => (p, "")
  | some (_, ext) =>
      (String.ofList (p.toList.take (p.length - ext.length - 1)), "." ++ ext)

def extension (p : String) : String :=
  (splitExtension p).2

/-- Adds a component to those already passed, last one first. Going up from the root stays
there; going up from the start of a relative path is kept. -/
def pushComponent (rooted : Bool) (done : List String) (c : String) : List String :=
  if c = "" || c = "." then done
  else if c = ".." then
    match done with
    | [] => if rooted then [] else [".."]
    | d :: rest => if d = ".." then ".." :: done else rest
  else c :: done

/-- The components of a path after `.` and `..` have been carried out. -/
def components (p : String) : List String :=
  ((Text.splitOn "/" p).foldl (pushComponent (isAbsolute p)) []).reverse

/-- The shortest path of the same meaning. Two slashes at the start are kept. -/
def normalize (p : String) : String :=
  let slashes :=
    if Text.startsWith "//" p && !Text.startsWith "///" p then "//"
    else if isAbsolute p then "/" else ""
  let out := slashes ++ Text.join "/" (components p)
  if out = "" then "." else out

def absolute (cwd p : String) : String :=
  normalize (if isAbsolute p then p else join cwd p)

def dropCommon : List String → List String → List String × List String
  | a :: as, b :: bs => if a = b then dropCommon as bs else (a :: as, b :: bs)
  | as, bs => (as, bs)

def relative (cwd p start : String) : String :=
  let (up, down) := dropCommon (components (absolute cwd start)) (components (absolute cwd p))
  let parts := up.map (fun _ => "..") ++ down
  if parts.isEmpty then "." else Text.join "/" parts

def pieces (p : String) : List String :=
  (Text.splitOn "/" p).filter fun c => c ≠ "" && c ≠ "."

/-- The steps of a path in order. A stroke at the end, after something else, is one more step,
which has no name. -/
def steps (p : String) : List String :=
  let named := (Text.splitOn "/" p).filter (· ≠ "")
  if Text.endsWith "/" p && !named.isEmpty then named ++ [""] else named

def stays (step : String) : Bool :=
  step = "" || step = "."

def climbs (step : String) : Bool :=
  step = ".."

/-- Whether a step leads to an entry of its own in the directory where it is taken. -/
def isName (step : String) : Bool :=
  !stays step && !climbs step && !step.toList.contains '/'

/-- A path without superfluous strokes and points. Two strokes at the start, and no more than
two, are kept. -/
def tidy (p : String) : String :=
  let inner := Text.join "/" (pieces p)
  if Text.startsWith "//" p && !Text.startsWith "///" p then "//" ++ inner
  else if isAbsolute p then "/" ++ inner
  else if inner = "" then "."
  else inner

end RepoWiki.Path
