import RepoWiki.Host
import RepoWiki.Repository.Address

namespace RepoWiki.Repository

def tokenUser : Hosting → Option String
  | .github => some ""
  | .gitlab => some "oauth2:"
  | .bitbucket => some "x-token-auth:"
  | .other => none

/-- The address to copy from: with a token, the authority carries it, and parameters, query and
fragment are left out. -/
def cloneUrl (address : Json) (hosting : Hosting) (token : Json) : Result Json := do
  if !token.truthy then return address
  let url ← Url.ofValue address
  match tokenUser hosting with
  | none => return address
  | some user =>
      if address.asText?.isNone then throw (.operation "Cannot mix str and non-str arguments")
      let scheme := if url.scheme = "" then "" else url.scheme ++ ":"
      let path := if url.path = "" || Path.isAbsolute url.path then url.path else "/" ++ url.path
      return .str (scheme ++ "//" ++ user ++ token.inText ++ "@" ++ url.authority ++ path)

def tokenMask : String := "***TOKEN***"

/-- A message without the token, which has to be a text. -/
def hideToken (token : Json) (message : String) : Result String := do
  if !token.truthy then return message
  if !(← token.includes (.str message)) then return message
  return Text.replaceAll token.inText tokenMask message

def unexpected (message : String) : Fault :=
  .value ("An unexpected error occurred: " ++ message)

def runGit (arguments : List Json) : Run Unit :=
  Run.note "run" (.arr (.str "git" :: arguments))

def deliver (directory : String) (tree : FileTree) (f : WorkFile) : FileTree :=
  tree.plant (Path.join directory (Text.join "/" f.way)) f.item.entry

/-- The output of the version control program and the files that it brings. Where it refuses, it
may say the token. -/
def told (token : Json) : CloneReply → Result (String × List WorkFile)
  | .done output files => .ok (output, files)
  | .refused message => do .error (.value ("Error during cloning: " ++ (← hideToken token message)))
  | .broken text => .error (unexpected text)

def runClone (address directory token : Json) : Run String := do
  runGit [.str "clone", .str "--depth=1", .str "--single-branch", address, directory]
  match (← get).clones with
  | [] => return ""
  | reply :: rest =>
      modify fun h => { h with clones := rest }
      let (output, files) ← Run.lift (told token reply)
      Run.setTree (files.foldl (deliver directory.inText) (← Run.tree))
      return output

def directoryOf (v : Json) : Result String :=
  match v, v.asInt? with
  | .str s, _ => .ok s
  | v, some _ => v.asPath
  | v, none => .error (.operation <|
      "stat: path should be string, bytes, os.PathLike or integer, not " ++ v.kindName)

/-- Prepares a directory that may receive a copy. Nothing is to be done if it holds something. -/
def prepareTarget (directory : String) : Run Bool := do
  let tree ← Run.tree
  let used ←
    if tree.exists? directory then
      pure !(← Run.lift (tree.names directory)).isEmpty
    else pure false
  if !used then Run.changeTree fun tree => tree.makeDirectories directory
  return used

def prepareClone (address directory : Json) (hosting : Hosting) (token : Json) :
    Run (Option Json) :=
  Run.orElse
    (do
      if ← prepareTarget (← Run.lift (directoryOf directory)) then return none
      return some (← Run.lift (cloneUrl address hosting token)))
    fun fault => throw (unexpected fault.message)

def clone (address directory : Json) (hosting : Hosting) (token : Json) : Run String := do
  runGit [.str "--version"]
  let _ ← Run.lift (told token (← get).git)
  match ← prepareClone address directory hosting token with
  | some url => runClone url directory token
  | none => return s!"Using existing repository at {directory.inText}"

end RepoWiki.Repository
