import RepoWiki.Json.Access
import RepoWiki.Text.Case
/-
Requests as forms: which values the places of a form take, and what they are read as. Everything
that is wrong with a form is told at once, in the order of its places.
-/

namespace RepoWiki.Form

structure Problem where
  place : List String
  text : String
  kind : String

namespace Problem

def missing : Problem := ⟨[], "field required", "value_error.missing"⟩
def unfilled : Problem := ⟨[], "none is not an allowed value", "type_error.none.not_allowed"⟩
def notText : Problem := ⟨[], "str type expected", "type_error.str"⟩
def notList : Problem := ⟨[], "value is not a valid list", "type_error.list"⟩
def notTable : Problem := ⟨[], "value is not a valid dict", "type_error.dict"⟩
def notNamed : Problem := ⟨[], "keywords must be strings", "type_error"⟩
def notTruth : Problem := ⟨[], "value could not be parsed to a boolean", "type_error.bool"⟩
def notOffered : Problem := ⟨[], "unexpected value", "value_error.const"⟩

def inside (name : String) (p : Problem) : Problem :=
  { p with place := name :: p.place }

def line (p : Problem) : String :=
  Text.join " -> " p.place ++ "\n  " ++ p.text ++ " (type=" ++ p.kind ++ ")"

end Problem

def Checked (α : Type) : Type :=
  Except (List Problem) α

namespace Checked

def ok {α : Type} (a : α) : Checked α :=
  Except.ok a

def wrong {α : Type} (p : Problem) : Checked α :=
  Except.error [p]

def map {α β : Type} (f : α → β) (x : Checked α) : Checked β :=
  match x with
  | .ok a => .ok (f a)
  | .error ps => .error ps

/-- Reads one thing after the other; the problems of both count. -/
def seq {α β : Type} (f : Checked (α → β)) (x : Checked α) : Checked β :=
  match f, x with
  | .ok g, .ok a => .ok (g a)
  | .ok _, .error qs => .error qs
  | .error ps, .ok _ => .error ps
  | .error ps, .error qs => .error (ps ++ qs)

instance : Applicative Checked where
  pure := ok
  map := map
  seq f x := seq f (x ())

def inside {α : Type} (name : String) (x : Checked α) : Checked α :=
  match x with
  | .ok a => .ok a
  | .error ps => .error (ps.map (Problem.inside name))

end Checked

def report (title : String) (problems : List Problem) : String :=
  let count := problems.length
  let errors := if count = 1 then "error" else "errors"
  s!"{count} validation {errors} for {title}\n" ++ Text.join "\n" (problems.map Problem.line)

def outcome {α : Type} (title : String) (x : Checked α) : Result α :=
  match x with
  | .ok a => .ok a
  | .error problems => .error (.form (report title problems))

def body (owner : String) (v : Json) : Result Fields :=
  match v with
  | .obj fields => .ok fields
  | v => .error (.operation s!"{owner}() argument after ** must be a mapping, not {v.kindName}")

/-! ## Values -/

def text (v : Json) : Checked String :=
  match v with
  | .str s => .ok s
  | .bool _ | .int _ | .real _ => .ok v.inText
  | _ => .wrong .notText

def filled {α : Type} (read : Json → Checked α) (v : Json) : Checked α :=
  match v with
  | .null => .wrong .unfilled
  | v => read v

def optional {α : Type} (read : Json → Checked α) (v : Json) : Checked (Option α) :=
  match v with
  | .null => .ok none
  | v => (read v).map some

def listFrom {α : Type} (read : Json → Checked α) : Nat → List Json → Checked (List α)
  | _, [] => .ok []
  | n, v :: rest =>
      ((filled read v).inside (toString n)).map List.cons |>.seq (listFrom read (n + 1) rest)

def list {α : Type} (read : Json → Checked α) (v : Json) : Checked (List α) :=
  match v with
  | .arr items => listFrom read 0 items
  | _ => .wrong .notList

def pair? (v : Json) : Option (Json × Json) :=
  match v.elements with
  | .ok [.arr _, _] | .ok [.obj _, _] => none
  | .ok [k, x] => some (k, x)
  | _ => none

def tableFrom? (done : List (Json × Json)) : List Json → Option (List (Json × Json))
  | [] => some done
  | v :: rest => do
      let (k, x) ← pair? v
      tableFrom? (Json.setEntry k x done) rest

def table? (v : Json) : Option (List (Json × Json)) :=
  match v with
  | .obj fields => some (fields.map fun f => (.str f.1, f.2))
  | v =>
      match v.elements with
      | .ok items => tableFrom? [] items
      | .error _ => none

def fieldOf? (e : Json × Json) : Option (String × Json) :=
  match e.1 with
  | .str k => some (k, e.2)
  | _ => none

def nested {α : Type} (read : Fields → Checked α) (v : Json) : Checked α :=
  match table? v with
  | none => .wrong .notTable
  | some entries =>
      match entries.mapM fieldOf? with
      | some fields => read fields
      | none => .wrong .notNamed

def setNamed {α : Type} (name : String) (value : α) : List (String × α) → List (String × α)
  | [] => [(name, value)]
  | (k, v) :: rest =>
      if k = name then (k, value) :: rest else (k, v) :: setNamed name value rest

def namedFrom {α : Type} (read : Json → Checked α) :
    List (Json × Json) → Checked (List (String × α))
  | [] => .ok []
  | (k, v) :: rest =>
      (((text k).inside "__key__").map Prod.mk |>.seq ((filled read v).inside k.inText)).map
        List.cons |>.seq (namedFrom read rest)

/-- Values by their names. Of a name that comes twice, the last value counts. -/
def named {α : Type} (read : Json → Checked α) (v : Json) : Checked (List (String × α)) :=
  match table? v with
  | some entries =>
      (namedFrom read entries).map (List.foldl (fun done e => setNamed e.1 e.2 done) [])
  | none => .wrong .notTable

def yes : List String := ["1", "on", "t", "true", "y", "yes"]

def no : List String := ["0", "off", "f", "false", "n", "no"]

def truth (v : Json) : Checked Bool :=
  match v with
  | .bool b => .ok b
  | .str s =>
      if yes.contains (Text.lower s) then .ok true
      else if no.contains (Text.lower s) then .ok false
      else .wrong .notTruth
  | v =>
      if v.same (.int 1) then .ok true
      else if v.same (.int 0) then .ok false
      else .wrong .notTruth

/-! ## Places -/

def required {α : Type} (name : String) (read : Json → Checked α) (fields : Fields) : Checked α :=
  match Fields.get? name fields with
  | some v => (filled read v).inside name
  | none => (Checked.wrong .missing).inside name

def requiredOr {α : Type} (name : String) (default : α) (read : Json → Checked α)
    (fields : Fields) : Checked α :=
  match Fields.get? name fields with
  | some v => (filled read v).inside name
  | none => .ok default

/-- A place that may be left open, with a value for the case that it is left out. -/
def maybeOr {α : Type} (name : String) (default : Option α) (read : Json → Checked α)
    (fields : Fields) : Checked (Option α) :=
  match Fields.get? name fields with
  | some v => (optional read v).inside name
  | none => .ok default

def maybe {α : Type} (name : String) (read : Json → Checked α) (fields : Fields) :
    Checked (Option α) :=
  maybeOr name none read fields

end RepoWiki.Form
