import RepoWiki.Outline.GoFile
/-
The outline of a source file: what it brings in, its classes with their methods, and its
functions. A file is read line by line; once a class has begun, methods belong to the latest
class.
-/

namespace RepoWiki.Outline

structure ClassEntry where
  name : String
  inheritance : Option String
  methods : List Callable
  line : Int
  deriving DecidableEq, Repr

def ClassEntry.toJson (c : ClassEntry) : Json :=
  .obj [("name", .str c.name), ("inheritance", Json.ofText? c.inheritance),
    ("methods", .arr (c.methods.map Callable.toJson)), ("line_number", .int c.line)]

structure Entries where
  imports : List Import := []
  classes : List ClassEntry := []
  functions : List Callable := []
  deriving DecidableEq, Repr

def addMethod (f : Callable) : List ClassEntry → List ClassEntry
  | [] => []
  | [c] => [{ c with methods := c.methods ++ [f] }]
  | c :: rest => c :: addMethod f rest

def Entries.addCallable (e : Entries) (f : Callable) : Entries :=
  if f.isMethod && !e.classes.isEmpty then { e with classes := addMethod f e.classes }
  else { e with functions := e.functions ++ [f] }

def ClassEntry.ofLine? (l : Language) (line : String) (number : Int) : Option ClassEntry :=
  (classPattern? l).bind fun p =>
    (p.match? line).map fun m => ⟨m.group 1, m.group? 2, [], number + 1⟩

def step (l : Language) (e : Entries) (line : String) (number : Int) : Entries :=
  if line = "" then e
  else
    match Import.find? (Import.forms l) line number with
    | some i => { e with imports := e.imports ++ [i] }
    | none =>
        if l.isComment line then e
        else
          match ClassEntry.ofLine? l line number with
          | some c => { e with classes := e.classes ++ [c] }
          | none =>
              match Callable.ofLine? l (!e.classes.isEmpty) line number with
              | some f => e.addCallable f
              | none => e

def readLines (l : Language) : Entries → Int → List String → Entries
  | e, _, [] => e
  | e, number, line :: rest => readLines l (step l e (Text.strip line) number) (number + 1) rest

def Entries.ofLines (l : Language) (lines : List String) : Entries :=
  readLines l {} 0 lines

def Entries.toJson (name : String) (l : Language) (e : Entries) : Json :=
  .obj [("filename", .str name), ("language", .str l.label),
    ("imports", .arr (e.imports.map Import.toJson)),
    ("classes", .arr (e.classes.map ClassEntry.toJson)),
    ("functions", .arr (e.functions.map Callable.toJson))]

def ofLines (path : String) (lines : List String) : Json :=
  match Language.ofFileName path with
  | .go => (Go.File.ofLines lines).toJson (Path.base path)
  | l => (Entries.ofLines l lines).toJson (Path.base path) l

def ofFault (path message : String) : Json :=
  match Language.ofFileName path with
  | .go => .obj [("error", .str message), ("file", .str path)]
  | _ => .obj [("error", .str message)]

end RepoWiki.Outline
