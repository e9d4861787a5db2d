import RepoWiki.Host
import RepoWiki.Pattern
import RepoWiki.Text.Case
import RepoWiki.Text.Digit

namespace RepoWiki.Logging

def levels : List (String × Int) :=
  [("CRITICAL", 50), ("FATAL", 50), ("ERROR", 40), ("WARNING", 30), ("WARN", 30), ("INFO", 20),
    ("DEBUG", 10), ("NOTSET", 0)]

def info : Int := 20

def warning : Int := 30

def debug : Int := 10

def capitals (s : String) : String :=
  String.ofList ((s.toList.flatMap Text.titleChar).map Char.toUpper)

/-- The level of a name. Two names mean something else than a level; all others that are not
known mean the usual level. -/
def level (name : String) : Result Int :=
  match levels.lookup name with
  | some n => .ok n
  | none =>
      if name = "BASIC_FORMAT" then
        .error (.value "Unknown level: '%(levelname)s:%(name)s:%(message)s'")
      else if name = "_STYLES" then
        .error (.operation "Level not an integer or a valid string")
      else .ok info

structure Setup where
  level : Int
  levelName : String
  file : String
  maxBytes : Int
  backups : Int
  format : String

def defaultFormat : String :=
  "%(asctime)s - %(levelname)s - %(name)s - %(filename)s:%(lineno)d - %(message)s"

def measure : Pattern :=
  .alt (Pattern.word "*") (.run (fun c => (Text.digit? c).isSome) 1)

def conversions : String :=
  "diouxefgcrsaDIOUXEFGCRSA%\u0130\u0131\u017f"

def field : Pattern :=
  Pattern.chain [Pattern.word "%(", Pattern.name, Pattern.word ")", .run (Text.oneOf "#0+ -") 0,
    Pattern.maybe measure, Pattern.maybe (.seq (Pattern.word ".") measure),
    .one (Text.oneOf conversions)]

def checkedFormat (format : String) : Result String :=
  let format := if format = "" then defaultFormat else format
  if (field.search? format).isSome then .ok format
  else .error (.value s!"Invalid format '{format}' for '%' style")

/-- The number in an environment variable; where there is none, or no number, a default. -/
def numberSetting (name : String) (default : Int) : Run Int := do
  return match ← Run.env? name with
    | some s => ((Text.readInt s).toOption).getD default
    | none => default

def place (tree : FileTree) (directory asked : String) : Result String :=
  let trusted := tree.realPath directory
  let real := tree.realPath asked
  if tree.loops real then
    .error (.service s!"Symlink loop from {Text.display real}")
  else if Text.startsWith (trusted ++ "/") real then .ok real
  else
    let asked := Path.tidy asked
    .error (.value
      s!"LOG_FILE_PATH '{asked}' is outside the trusted log directory '{trusted}'")

def checkWritable (n : Int) : Result Unit :=
  if Text.digitLimit < (Nat.toDigits 10 n.natAbs).length then
    .error (.value (s!"Exceeds the limit ({Text.digitLimit} digits) for integer string " ++
      "conversion; use sys.set_int_max_str_digits() to increase the limit"))
  else .ok ()

def setup (program format : String) : Run Setup := do
  let directory := program ++ "/logs"
  Run.changeTree fun t => t.makePath directory
  let levelName := capitals ((← Run.env? "LOG_LEVEL").getD "INFO")
  let asked := (← Run.env? "LOG_FILE_PATH").getD (directory ++ "/application.log")
  let file ← Run.lift (place (← Run.tree) directory asked)
  Run.changeTree fun t => t.makePath (Path.parent file)
  let megabytes ← numberSetting "LOG_MAX_SIZE" 10
  let backups ← numberSetting "LOG_BACKUP_COUNT" 5
  Run.changeTree fun t => t.touch file
  let format ← Run.lift (checkedFormat format)
  let n ← Run.lift (level levelName)
  let maxBytes := megabytes * 1024 * 1024
  Run.lift (checkWritable maxBytes)
  return { level := n, levelName, file, maxBytes, backups, format }

def noise : String := "Detected file change in"

def admits (message : String) : Bool :=
  !Text.hasInfix noise message

structure Entry where
  level : Int
  message : String

def levelLabel (n : Int) : String :=
  ((levels.find? fun l => l.2 == n).map (·.1)).getD (toString n)

def Setup.entry (s : Setup) : Entry where
  level := debug
  message := s!"Logging configured: level={s.levelName}, file={s.file}, " ++
    s!"max_size={s.maxBytes} bytes, backup_count={s.backups}"

def Setup.keep (s : Setup) (entries : List Entry) : List Entry :=
  entries.filter fun e => s.level ≤ e.level && admits e.message

end RepoWiki.Logging
