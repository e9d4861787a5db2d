import RepoWiki.Repository.Address
import RepoWiki.Text.Base64
import RepoWiki.Text.Percent
import RepoWiki.Web

namespace RepoWiki.Repository

open Text

def tokenHeader (name : String) (form : Json → Json) (token : Json) : Fields :=
  if token.truthy then [(name, form token)] else []

def tokenAfter (word : String) (token : Json) : Json :=
  .str (word ++ token.inText)

def wrapFaults {α : Type} (lead : String) (step : Run α) : Run α :=
  Run.orElse step fun fault => throw (.value (lead ++ fault.message))

def wrapRequestFaults {α : Type} (lead : String) (step : Run α) : Run α :=
  tryCatch step fun fault =>
    throw (if fault.isRequest then .value (lead ++ fault.message) else fault)

def fetchProblem : String := "Error fetching file content: "

def contentProblem : String := "Failed to get file content: "

namespace GitHub

/-- The start of the addresses of the interface: a host of its own for the public service, a path
on the same host for others. -/
def interface (url : Url) : String :=
  if url.authority = "github.com" then "https://api.github.com"
  else url.scheme ++ "://" ++ url.authority ++ "/api/v3"

def contentUrl (repository path : Json) : Result String := do
  let url ← Url.ofValue repository
  if url.scheme = "" || url.authority = "" then
    throw (.value "Not a valid GitHub repository URL")
  match (splitOn "/" (trimBy (· == '/') url.path)).reverse with
  | name :: owner :: _ =>
      let name := replaceAll cloneEnding "" name
      return interface url ++ "/repos/" ++ owner ++ "/" ++ name ++ "/contents/" ++ path.inText
  | _ =>
      throw (.value "Invalid GitHub URL format - expected format: https://domain/owner/repo")

/-- The text that a content field holds. Line feeds inside it do not count. -/
def decodeContent (v : Json) : Result String :=
  match v.asWord "replace" with
  | .error fault => .error fault
  | .ok s =>
      let cs := s.toList.filter (· != '\n')
      if cs.any fun c => 0x80 ≤ c.toNat then
        .error (.value "string argument should contain only ASCII characters")
      else
        match Base64.decode cs with
        | .error problem => .error (.value problem.message)
        | .ok octets =>
            match Utf8.decode octets with
            | .ok text => .ok (String.ofList text)
            | .error fault => .error (.decode fault)

def textOf (answer : Json) : Result String := do
  if (← answer.holds "message") && (← answer.holds "documentation_url") then
    throw (.value ("GitHub API error: " ++ (← answer.item "message").inText))
  if (← answer.holds "content") && (← answer.holds "encoding") then
    let encoding ← answer.item "encoding"
    if encoding.same (.str "base64") then decodeContent (← answer.item "content")
    else throw (.value ("Unexpected encoding: " ++ encoding.inText))
  else throw (.value "File content not found in GitHub API response")

def fileContent (repository path token : Json) : Run String :=
  wrapFaults contentProblem do
    let url ← Run.lift (contentUrl repository path)
    let response ← wrapRequestFaults fetchProblem do
      let response ← Web.fetch url (tokenHeader "Authorization" (tokenAfter "token ") token)
      Run.lift response.check
      return response
    match response.json with
    | .ok answer => Run.lift (textOf answer)
    | .error (.request .badBody _) => throw (.value "Invalid response from GitHub API")
    | .error fault => throw fault

end GitHub

namespace GitLab

/-- The start of the addresses of the interface. A port other than the usual ones is put after
the authority once more. -/
def interface (url : Url) : Result String := do
  let base := url.scheme ++ "://" ++ url.authority
  match ← url.port? with
  | some port => return if port = 80 || port = 443 then base else base ++ s!":{port}"
  | none => return base

def projectUrl (repository : Json) : Result String := do
  let url ← Url.ofValue repository
  if url.scheme = "" || url.authority = "" then
    throw (.value "Not a valid GitLab repository URL")
  let start ← interface url
  let path := trimBy (· == '/') url.path
  if !hasInfix "/" path then
    throw (.value <| "Invalid GitLab URL format — expected something like " ++
      "https://gitlab.domain.com/group/project")
  return start ++ "/api/v4/projects/" ++ Percent.encode (replaceAll cloneEnding "" path)

def encodedPath : Json → Result String
  | .str s => .ok (Percent.encode s)
  | _ => .error (.operation "quote_from_bytes() expected bytes")

def defaultBranch : Json := .str "main"

def branch (project : String) (headers : Fields) : Run Json :=
  Run.orElse
    (do
      let response ← Web.fetch project headers
      if response.status = 200 then
        Run.lift do (← response.json).getD "default_branch" defaultBranch
      else return defaultBranch)
    fun _ => return defaultBranch

/-- A text that looks like a message of the interface is taken for one. -/
def checkMessage (text : String) : Result String := do
  if startsWith "\x7b" text && hasInfix "\"message\":" text then
    match Json.read text with
    | .ok answer =>
        if ← answer.holds "message" then
          throw (.value ("GitLab API error: " ++ (← answer.item "message").inText))
        else return text
    | .error (.json _) => return text
    | .error fault => throw fault
  else return text

def fileContent (repository path token : Json) : Run String :=
  wrapFaults contentProblem do
    let project ← Run.lift (projectUrl repository)
    let file ← Run.lift (encodedPath path)
    let headers := tokenHeader "PRIVATE-TOKEN" id token
    let branch ← branch project headers
    let url := project ++ "/repository/files/" ++ file ++ "/raw?ref=" ++ branch.inText
    let text ← wrapRequestFaults fetchProblem do
      let response ← Web.fetch url headers
      Run.lift response.check
      return response.text
    Run.lift (checkMessage text)

end GitLab

namespace Bitbucket

def repositoryUrl (repository : Json) : Result String := do
  let repository ← repository.asWord "startswith"
  if !(startsWith "https://bitbucket.org/" repository ||
      startsWith "http://bitbucket.org/" repository) then
    throw (.value "Not a valid Bitbucket repository URL")
  match (splitOn "/" (trimEndBy (· == '/') repository)).reverse with
  | name :: owner :: _ :: _ :: _ :: _ =>
      return "https://api.bitbucket.org/2.0/repositories/" ++ owner ++ "/" ++
        replaceAll cloneEnding "" name
  | _ => throw (.value "Invalid Bitbucket URL format")

def defaultBranch : Json := .str "main"

def branch (repository : String) (headers : Fields) : Run Json :=
  Run.orElse
    (do
      let response ← Web.fetch repository headers
      if response.status = 200 then
        Run.lift do (← (← response.json).getD "mainbranch" (.obj [])).getD "name" defaultBranch
      else return defaultBranch)
    fun _ => return defaultBranch

def statusProblem? (status : Int) : Option String :=
  if status = 404 then
    some "File not found on Bitbucket. Please check the file path and repository."
  else if status = 401 then
    some "Unauthorized access to Bitbucket. Please check your access token."
  else if status = 403 then
    some <| "Forbidden access to Bitbucket. You might not have permission to access this file."
  else if status = 500 then
    some "Internal server error on Bitbucket. Please try again later."
  else none

def fileContent (repository path token : Json) : Run String :=
  wrapFaults contentProblem do
    let base ← Run.lift (repositoryUrl repository)
    let headers := tokenHeader "Authorization" (tokenAfter "Bearer ") token
    let branch ← branch base headers
    let url := base ++ "/src/" ++ branch.inText ++ "/" ++ path.inText
    wrapRequestFaults fetchProblem do
      let response ← Web.fetch url headers
      match statusProblem? response.status with
      | some problem => throw (.value problem)
      | none =>
          Run.lift response.check
          return response.text

end Bitbucket

def fileContent (hosting : Hosting) (repository path token : Json) : Run String :=
  match hosting with
  | .github => GitHub.fileContent repository path token
  | .gitlab => GitLab.fileContent repository path token
  | .bitbucket => Bitbucket.fileContent repository path token
  | .other =>
      throw (.value "Unsupported repository URL. Only GitHub and GitLab are supported.")

end RepoWiki.Repository
