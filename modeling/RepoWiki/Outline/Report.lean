import RepoWiki.Json.Access
import RepoWiki.Outline.Basic
/-
The report on an outline record: one shape for all languages, with signatures and counts. The
record may come from elsewhere, so a field that is missing is a fault.
-/

namespace RepoWiki.Outline.Report

def fieldIfSet (label : String) (v : Json) : Fields :=
  if v.truthy then [(label, v)] else []

/-- The import in its common shape. Of the fields that name what is brought in, the last one
counts. -/
def importInfo (i : Json) : Result Json := do
  let kind ← i.item "type"
  let line ← i.item "line_number"
  let fields : Fields := [("type", kind), ("line_number", line)]
  let fields ← ["path", "module", "imports", "package"].foldlM
    (fun fields label => do
      if ← i.holds label then return Fields.set "import_path" (← i.item label) fields
      else return fields) fields
  return .obj fields

def signature (name parameters : Json) : String :=
  name.inText ++ "(" ++ parameters.inText ++ ")"

/-- A function or method. The receiver stands before the signature, the result after it. -/
def callableInfo (kind : String) (f : Json) : Result Fields := do
  let name ← f.item "name"
  let parameters ← f.item "parameters"
  let line ← f.item "line_number"
  let result ← f.get "return_type"
  let modifiers ← f.get "modifiers"
  let receiver ← f.get "receiver"
  let sig := signature name parameters
  let sig := if result.truthy then sig ++ " -> " ++ result.inText else sig
  let sig := if receiver.truthy then "(" ++ receiver.inText ++ ") " ++ sig else sig
  return [("name", name), ("type", .str kind), ("parameters", parameters), ("line_number", line),
      ("signature", .str sig)] ++
    fieldIfSet "return_type" result ++ fieldIfSet "modifiers" modifiers ++
    fieldIfSet "receiver" receiver

def methodInfo (f : Json) : Result Json :=
  return .obj (← callableInfo "method" f)

def functionInfo (f : Json) : Result Json := do
  let fields ← callableInfo "function" f
  return .obj (fields ++ fieldIfSet "function_type" (← f.get "type"))

def goFunctionInfo (f : Json) : Result Json := do
  let name ← f.item "name"
  let parameters ← f.item "parameters"
  let line ← f.item "line_number"
  let results ← f.get "return_types"
  let sig := "func " ++ signature name parameters
  let sig := if results.truthy then sig ++ " -> (" ++ results.inText ++ ")" else sig
  return .obj <| [("name", name), ("type", .str "function"), ("parameters", parameters),
      ("line_number", line), ("signature", .str sig)] ++ fieldIfSet "return_type" results

def goMethodInfo (f : Json) : Result Json := do
  let name ← f.item "name"
  let receiver ← f.item "receiver"
  let parameters ← f.item "parameters"
  let line ← f.item "line_number"
  let results ← f.get "return_types"
  let sig := "func (" ++ receiver.inText ++ ") " ++ signature name parameters
  let sig := if results.truthy then sig ++ " -> (" ++ results.inText ++ ")" else sig
  return .obj <| [("name", name), ("type", .str "method"), ("receiver", receiver),
      ("parameters", parameters), ("line_number", line), ("signature", .str sig)] ++
    fieldIfSet "return_type" results

def classInfo (c : Json) : Result (Json × List Json) := do
  let name ← c.item "name"
  let line ← c.item "line_number"
  let parents ← c.get "inheritance"
  let methods ← (← (← c.getD "methods" (.arr [])).elements).mapM methodInfo
  return (.obj <| [("name", name), ("line_number", line), ("methods", .arr methods)] ++
    fieldIfSet "inheritance" parents, methods)

def listed (record : Json) (label : String) : Result (List Json) := do
  (← record.getD label (.arr [])).elements

def importsOf (record : Json) : Result Fields := do
  let imports ← record.get "imports"
  if imports.truthy then return [("imports", .arr (← (← imports.elements).mapM importInfo))]
  else return []

def goLists (record : Json) : Result (Fields × Nat) := do
  let functions ← (← listed record "functions").mapM goFunctionInfo
  let methods ← (← listed record "methods").mapM goMethodInfo
  return ([("functions", .arr functions), ("methods", .arr methods)], 0)

def classLists (record : Json) : Result (Fields × Nat) := do
  let classes ← (← listed record "classes").mapM classInfo
  let functions ← (← listed record "functions").mapM functionInfo
  return ([("functions", .arr functions), ("methods", .arr (classes.flatMap (·.2))),
    ("classes", .arr (classes.map (·.1)))], classes.length)

def listsOf (record : Json) : Result (Fields × Nat) := do
  match ← record.item "language" with
  | .str "go" => goLists record
  | _ => classLists record

def parsedData (record : Json) : Result (Fields × Nat) := do
  let package ← record.get "package"
  let imports ← importsOf record
  let (lists, classes) ← listsOf record
  return (fieldIfSet "package" package ++ (imports ++ lists), classes)

def countOf (fields : Fields) (label : String) : Json :=
  match Fields.get? label fields with
  | some (.arr items) => .nat items.length
  | _ => .nat 0

def ofRecord (record : Json) : Result Json := do
  let filename ← record.getD "filename" (.str "")
  let language ← record.getD "language" (.str "")
  let head : Fields := [("metadata", .obj [("filename", filename), ("language", language)])]
  if ← record.holds "error" then
    let message ← record.item "error"
    let file ← record.getD "file" (.str "")
    return .obj (head ++ [("error", .obj [("message", message), ("file", file)])])
  else
    let (data, classes) ← parsedData record
    let counts : Fields := [("total_imports", countOf data "imports"),
      ("total_classes", .nat classes), ("total_functions", countOf data "functions"),
      ("total_methods", countOf data "methods")]
    return .obj (head ++ [("parsed_data", .obj data), ("statistics", .obj counts)])

def text (report : Json) : String :=
  report.write .indented

end RepoWiki.Outline.Report
