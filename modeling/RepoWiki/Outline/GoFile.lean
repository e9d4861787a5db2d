import RepoWiki.Outline.Callable
import RepoWiki.Outline.Import
/-
Go sources. A file is read line by line; the state says whether the line lies inside a block
comment or inside a bracketed list of imports.
-/

namespace RepoWiki.Outline.Go

open Pattern

structure Function where
  name : String
  receiver : Option String
  parameters : String
  returnTypes : String
  line : Int
  deriving DecidableEq, Repr

def results (n : Nat) : Pattern :=
  maybe (chain [word "(", .group n (.run (noneOf ")") 0), word ")"])

def functionLine (tail : Pattern) : Pattern :=
  chain [word "func", blanks1, .group 1 name, blanks, parameterList 2, blanks, results 3, blanks,
    tail]

def methodLine (tail : Pattern) : Pattern :=
  chain [word "func", blanks1, word "(", .group 1 (.run (noneOf ")") 1), word ")", blanks1,
    .group 2 name, blanks, parameterList 3, blanks, results 4, blanks, tail]

def Function.ofLine? (tail : Pattern) (line : String) (number : Int) : Option Function :=
  ((functionLine tail).match? line).map fun m =>
    ⟨m.group 1, none, Text.strip (m.group 2), Text.strip (m.group 3), number + 1⟩

def Function.ofMethodLine? (tail : Pattern) (line : String) (number : Int) : Option Function :=
  ((methodLine tail).match? line).map fun m =>
    ⟨m.group 2, some (Text.strip (m.group 1)), Text.strip (m.group 3), Text.strip (m.group 4),
      number + 1⟩

def Function.ofOpenLine? (line : String) (number : Int) : Option Function :=
  let brace := word "\x7b"
  (Function.ofLine? brace line number).or (Function.ofMethodLine? brace line number)

def Function.toLineJson (f : Function) : Json :=
  .obj <| [("name", .str f.name), ("parameters", .str f.parameters)] ++
    (f.receiver.map fun r => ("receiver", Json.str r)).toList ++
    [("return_types", .str f.returnTypes), ("line_number", .int f.line),
      ("is_method", .bool f.receiver.isSome)]

def Function.toJson (f : Function) : Json :=
  .obj <| [("name", .str f.name)] ++
    (f.receiver.map fun r => ("receiver", Json.str r)).toList ++
    [("parameters", .str f.parameters), ("return_types", .str f.returnTypes),
      ("line_number", .int f.line),
      ("type", .str (if f.receiver.isSome then "method" else "function"))]

/-! ## Files -/

structure File where
  package : Option String := none
  imports : List Import := []
  functions : List Function := []
  methods : List Function := []
  deriving DecidableEq, Repr

structure Context where
  inImports : Bool := false
  inComment : Bool := false
  deriving DecidableEq, Repr

def packageLine : Pattern :=
  chain [word "package", blanks1, .group 1 name]

def pathMarks : String := "\"`"

def quotedPath : Pattern :=
  chain [.one (Text.oneOf pathMarks), .group 1 (.run (noneOf pathMarks) 1),
    .one (Text.oneOf pathMarks)]

def importLine : Pattern :=
  chain [word "import", blanks1, choice [
    chain [word "\"", .group 1 (.run (noneOf "\"") 1), word "\""],
    chain [word "`", .group 2 (.run (noneOf "`") 1), word "`"],
    .group 3 (.run (fun c => !Text.isBlank c && c != ';') 1)]]

def bodyStart : Pattern :=
  .alt (word "\x7b") .atEnd

def File.addImport (f : File) (path : String) (number : Int) : File :=
  { f with imports := f.imports ++ [⟨"import", [("path", path)], number + 1⟩] }

/-- What a line outside comments and import lists adds. -/
def File.addLine (f : File) (line : String) (number : Int) : File :=
  match importLine.match? line with
  | some m =>
      f.addImport (Import.orElseText (m.group 1) (Import.orElseText (m.group 2) (m.group 3))) number
  | none =>
      match Function.ofLine? bodyStart line number with
      | some fn => { f with functions := f.functions ++ [fn] }
      | none =>
          match Function.ofMethodLine? bodyStart line number with
          | some fn => { f with methods := f.methods ++ [fn] }
          | none => f

def step (state : Context × File) (line : String) (number : Int) : Context × File :=
  let (ctx, f) := state
  if Text.hasInfix "/*" line && !Text.hasInfix "*/" line then ({ ctx with inComment := true }, f)
  else if ctx.inComment then
    (if Text.hasInfix "*/" line then { ctx with inComment := false } else ctx, f)
  else if line = "" || Text.startsWith "//" line then (ctx, f)
  else
    match packageLine.match? line with
    | some m => (ctx, { f with package := some (m.group 1) })
    | none =>
        if line = "import (" then ({ ctx with inImports := true }, f)
        else if ctx.inImports then
          if line = ")" then ({ ctx with inImports := false }, f)
          else
            match quotedPath.search? line with
            | some m => (ctx, f.addImport (m.group 1) number)
            | none => (ctx, f)
        else (ctx, f.addLine line number)

def readLines : Context × File → Int → List String → File
  | state, _, [] => state.2
  | state, number, line :: rest =>
      readLines (step state (Text.strip line) number) (number + 1) rest

def File.ofLines (lines : List String) : File :=
  readLines ({}, {}) 0 lines

def File.toJson (name : String) (f : File) : Json :=
  .obj [("filename", .str name), ("language", .str Language.go.label),
    ("imports", .arr (f.imports.map Import.toJson)),
    ("functions", .arr (f.functions.map Function.toJson)),
    ("methods", .arr (f.methods.map Function.toJson)), ("package", Json.ofText? f.package)]

end RepoWiki.Outline.Go
