import RepoWiki.Url
/-
What a repository is called: its owner and its name, from the ways in which people write the
address of a repository.
-/

namespace RepoWiki.Repository

def knownHosts : List String :=
  ["github.com", "gitlab.com", "bitbucket.org"]

def cloneEnding : String := ".git"

def dropCloneEnding (s : String) : String :=
  if Text.endsWith cloneEnding s then String.ofList (s.toList.take (s.length - cloneEnding.length))
  else s

/-- `git@host:owner/name`. All points and letters of the ending are dropped from the end of the
path, however often they stand there; the rest after the first slash is the name. -/
def labelOfShell (address : String) : Result String := do
  match Text.cut? ":" address with
  | none => throw (.value "Invalid SSH URL format")
  | some (host, path) =>
      if !knownHosts.any fun known => Text.endsWith known host then
        throw (.value "Unsupported Git host in SSH URL")
      match Text.cut? "/" (Text.trimEndBy (Text.oneOf cloneEnding) path) with
      | some (owner, name) => return owner ++ "_" ++ name
      | none => throw (.value "Invalid path in SSH URL: owner/repo expected")

def labelOfUrl (address : String) : Result String := do
  let url ← Url.ofText address
  if url.authority = "" then throw (.value "Invalid URL: no host found")
  if !knownHosts.contains url.authority then
    throw (.value s!"Unsupported Git host: {url.authority}")
  match Text.splitOn "/" (dropCloneEnding (Text.trimBy (· == '/') url.path)) with
  | owner :: name :: _ => return owner ++ "_" ++ name
  | _ => throw (.value "Invalid URL: owner or repo not found")

def labelOfPair (address : String) : Result String := do
  if !Text.hasInfix "/" address then throw (.value "Invalid format: expected 'owner/repo'")
  match Text.cut? "/" (dropCloneEnding address) with
  | some (owner, name) =>
      if owner = "" || name = "" then throw (.value "Owner or repo name is empty")
      return owner ++ "_" ++ name
  | none => throw (.value "Invalid format: expected exactly one '/' separator")

def label (address : String) : Result String :=
  let address := Text.strip address
  if Text.startsWith "git@" address then labelOfShell address
  else if Text.hasInfix "://" address then labelOfUrl address
  else labelOfPair address

inductive Hosting where
  | github
  | gitlab
  | bitbucket
  | other
  deriving DecidableEq, Repr

def Hosting.ofText : String → Hosting
  | "github" => .github
  | "gitlab" => .gitlab
  | "bitbucket" => .bitbucket
  | _ => .other

/-- The name under which a repository is stored: owner and name for an address with a host, the
last part of the path otherwise. Every occurrence of the ending of a clone is dropped. -/
def storageName (address : String) (hosting : Hosting) : String :=
  let parts := (Text.splitOn "/" (Text.trimEndBy (· == '/') address)).reverse
  let name := Text.replaceAll cloneEnding "" (parts.head?.getD "")
  match parts with
  | _ :: owner :: _ :: _ :: _ :: _ => if hosting = .other then name else owner ++ "_" ++ name
  | _ => name

end RepoWiki.Repository
