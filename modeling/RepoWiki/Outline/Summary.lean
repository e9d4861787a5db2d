import RepoWiki.Json.Access
/-
The summary of a project: per file ending, the files with their classes, functions and
dependencies. Whatever is missing in the project data is filled in.
-/

namespace RepoWiki.Outline.Summary

/-- The value below some keys, or the default as soon as one of them cannot be reached. -/
def reach (default : Json) : List String → Json → Json
  | [], v => v
  | key :: rest, v =>
      match v.item key with
      | .ok x => reach default rest x
      | .error _ => default

/-- Texts come first, in the order of their code points; then the other values in the order of
their written form. -/
def listedBefore (a b : Json) : Bool :=
  match a, b with
  | .str s, .str t => s ≤ t
  | .str _, _ => true
  | _, .str _ => false
  | a, b => a.write .line ≤ b.write .line

def addMember (members : List Json) (v : Json) : Result (List Json) := do
  let v ← v.asKey
  return if members.any (Json.same v) then members else members ++ [v]

/-- What the imports name, each once and in order. -/
def dependencies (imports : Json) : Result (List Json) := do
  let members ← (← imports.elements).foldlM
    (fun members i => do
      if ← i.holds "import_path" then addMember members (← i.item "import_path")
      else if ← i.holds "path" then addMember members (← i.item "path")
      else return members) []
  return members.mergeSort listedBefore

def methodLimit : Nat := 50

def firstElements (n : Nat) (v : Json) : Result (List Json) :=
  match v with
  | .arr items => .ok (items.take n)
  | .str s => (Json.str (String.ofList (s.toList.take n))).elements
  | .obj _ => .error (.operation "unhashable type: 'slice'")
  | v => .error (.operation s!"'{v.kindName}' object is not subscriptable")

def classSummary (c : Json) : Result Json := do
  let methods := reach (.arr []) ["methods"] c
  let named ← firstElements methodLimit methods
  let count ← methods.size
  return .obj [("name", reach (.str "unknown") ["name"] c),
    ("methods", .arr (named.map (reach (.str "unknown") ["name"]))), ("method_count", .nat count)]

def functionSummary (f : Json) : Json :=
  .obj [("name", reach (.str "unknown") ["name"] f),
    ("parameters", reach (.str "") ["parameters"] f),
    ("return_type", reach (.str "unknown") ["return_type"] f)]

def fileSummary (file : Json) : Result Json := do
  let analysis := reach (.obj []) ["analysis_result"] file
  let parsed := reach (.obj []) ["parsed_data"] analysis
  let named ← dependencies (reach (.arr []) ["imports"] parsed)
  let classes ← (← (reach (.arr []) ["classes"] parsed).elements).mapM classSummary
  let functions ← (reach (.arr []) ["functions"] parsed).elements
  return .obj [("file_name", reach (.str "unknown") ["file_name"] file),
    ("language", reach (.str "unknown") ["metadata", "language"] analysis),
    ("key_classes", .arr classes), ("key_functions", .arr (functions.map functionSummary)),
    ("imports_count", reach (.int 0) ["statistics", "total_imports"] analysis),
    ("dependencies", .arr named)]

def keyText : Json → String
  | .str s => s
  | v => v.write .line

structure Module where
  key : Json
  files : List Json

def Module.toField (m : Module) : String × Json :=
  (keyText m.key, .obj [("file_count", .nat m.files.length), ("files", .arr m.files)])

def addFile (key file : Json) : List Module → List Module
  | [] => [⟨key, [file]⟩]
  | m :: rest =>
      if m.key.same key then { m with files := m.files ++ [file] } :: rest
      else m :: addFile key file rest

def ofProject (data : Json) : Result Json := do
  let files ← (reach (.arr []) ["files"] data).elements
  let modules ← files.foldlM
    (fun modules file => do
      let kind ← (reach (.str "unknown") ["file_type"] file).asKey
      return addFile kind (← fileSummary file) modules) []
  return .obj [("project_name", reach (.str "") ["project_name"] data),
    ("total_files", reach (.int 0) ["total_files"] data),
    ("modules", .obj (modules.map Module.toField))]

end RepoWiki.Outline.Summary
