import RepoWiki.Charset
import RepoWiki.Clock
import RepoWiki.Connection
import RepoWiki.Document
import RepoWiki.FileTree
import RepoWiki.Provider.Output
/-
The machine and the services around the program, as a value: files, environment, console, and
the answers that outside services will give. A step of the program is a function of it; what the
program asked of the services is kept as a list of calls.
-/

namespace RepoWiki

structure Call where
  name : String
  args : Json

inductive WebFailure where
  | connection
  | request
  | other
  deriving DecidableEq, Repr

inductive WebReply where
  /-- `json` is the value that the body holds, where it was written as one. -/
  | answer (status : Int) (reason : String) (body : Content) (json : Option Json)
  | failure (kind : WebFailure) (text : String)

inductive WorkItem where
  | octets (bytes : List Nat)
  | link (target : String)

def WorkItem.entry : WorkItem → Entry
  | .octets bytes => .file (.octets bytes) none
  | .link target => .link target

structure WorkFile where
  way : List String
  item : WorkItem
  named : way.all Path.isName = true

inductive CloneReply where
  | done (output : String) (files : List WorkFile := [])
  | refused (message : String)
  | broken (text : String)

/-- What libraries do for the program: they cut texts into pieces, make vectors for texts, read
vectors with their positions off a reply, and count tokens, in one of two ways if they are told
which. They print markup up to some depth. What fails tells a text, and so does a reply of a model
that is a stream and breaks off. -/
structure Library where
  split : Fields → Except String (String → List String) := fun _ => .ok fun text => [text]
  vectors : List String → Except String (List Vector) := fun texts =>
    .ok (texts.map fun _ => .value (.arr (List.replicate 4 (.real 0.5))))
  read : Provider.VectorReader := Provider.vectorsOf
  count : Option Bool → String → Nat := fun _ text => text.length / 4
  depth : Nat := 975
  breaks : Json → Option String := fun _ => none

structure Host where
  tree : FileTree
  home : String := ""
  env : List (String × String) := []
  clock : Clock := {}
  console : Charset := .unicode
  printed : String := ""
  web : List WebReply := []
  clones : List CloneReply := []
  /-- What the version control program says when it is asked for its version. -/
  git : CloneReply := .done ""
  model : List Json := []
  embeddings : Fields := []
  library : Library := {}
  /-- The positions that the index answers a query with. For null it takes the first ones. -/
  ranking : Json := .null
  indexFault : Option String := none
  line : Connection := {}
  calls : List Call := []

def Host.dataRoot (host : Host) : String :=
  Text.trimEndBy (· == '/') host.home ++ "/.adalflow"

/-- A step of the program. After a fault the host is as the step left it. -/
abbrev Run := ExceptT Fault (StateM Host)

namespace Run

def lift {α : Type} (r : Result α) : Run α :=
  match r with
  | .ok x => pure x
  | .error e => throw e

/-- Carries on after a fault. The program's own end cannot be held up. -/
def orElse {α : Type} (step : Run α) (rescue : Fault → Run α) : Run α :=
  tryCatch step fun fault =>
    match fault with
    | .exit _ => throw fault
    | fault => rescue fault

def attempt {α : Type} (step : Run α) : Run (Result α) :=
  tryCatch (do return .ok (← step)) fun fault => pure (.error fault)

def tree : Run FileTree :=
  return (← get).tree

def setTree (t : FileTree) : Run Unit :=
  modify fun h => { h with tree := t }

def changeTree (f : FileTree → Result FileTree) : Run Unit := do
  setTree (← lift (f (← tree)))

def library : Run Library :=
  return (← get).library

def ofLibrary {α : Type} (r : Except String α) : Run α :=
  lift (r.mapError Fault.plain)

def env? (name : String) : Run (Option String) :=
  return ((← get).env.find? fun e => e.1 == name).map (·.2)

def note (name : String) (args : Json) : Run Unit :=
  modify fun h => { h with calls := h.calls ++ [⟨name, args⟩] }

def print (s : String) : Run Unit := do
  match (← get).console.check s with
  | .ok _ => modify fun h => { h with printed := h.printed ++ s ++ "\n" }
  | .error fault => throw (.encode fault)

/-! ## The line to the browser -/

def accept : Run Unit :=
  modify fun h => { h with line := h.line.add .accept }

def close : Run Unit :=
  modify fun h => { h with line := h.line.add .close }

def send (v : Json) : Run Unit := do
  let line := (← get).line.begin
  match line.fault? with
  | some text =>
      modify fun h => { h with line }
      throw (.service text)
  | none => modify fun h => { h with line := line.add (.send v) }

end Run
end RepoWiki
