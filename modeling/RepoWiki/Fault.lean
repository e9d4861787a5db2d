import RepoWiki.Json.Display
import RepoWiki.Text.Utf8
/-
What can go wrong. A fault is a cause; its wording is fixed in one place.
-/

namespace RepoWiki

inductive FileProblem where
  | notFound
  | alreadyExists
  | notDirectory
  | isDirectory
  | nameTooLong
  | linkLoop
  /-- A path with the character that ends paths. -/
  | nulInside
  deriving DecidableEq, Repr

def FileProblem.code : FileProblem → Nat
  | .notFound => 2
  | .alreadyExists => 17
  | .notDirectory => 20
  | .isDirectory => 21
  | .nameTooLong => 36
  | .linkLoop => 40
  | .nulInside => 22

def FileProblem.message : FileProblem → String
  | .notFound => "No such file or directory"
  | .alreadyExists => "File exists"
  | .notDirectory => "Not a directory"
  | .isDirectory => "Is a directory"
  | .nameTooLong => "File name too long"
  | .linkLoop => "Too many levels of symbolic links"
  | .nulInside => "embedded null byte"

/-- A character set that cannot hold some code points of a text: those from `first` to `last`, of
which `code` comes first. -/
structure EncodeFault where
  charset : String
  code : Nat
  first : Nat
  last : Nat
  reason : String
  deriving DecidableEq, Repr

def codeEscape (n : Nat) : String :=
  String.ofList <|
    if n < 0x100 then '\\' :: 'x' :: Json.hexDigits 2 n
    else if n < 0x10000 then '\\' :: 'u' :: Json.hexDigits 4 n
    else '\\' :: 'U' :: Json.hexDigits 8 n

def EncodeFault.message (f : EncodeFault) : String :=
  if f.first = f.last then
    s!"'{f.charset}' codec can't encode character '{codeEscape f.code}' in position " ++
      s!"{f.first}: {f.reason}"
  else
    s!"'{f.charset}' codec can't encode characters in position {f.first}-{f.last}: {f.reason}"

inductive RequestProblem where
  | failed
  | badBody
  | badStatus
  deriving DecidableEq, Repr

inductive Fault where
  | value (text : String)
  | kind (text : String)
  | operation (text : String)
  | attribute (owner name : String)
  | key (key : Json)
  | index (what : String)
  | file (problem : FileProblem) (path : String)
  | decode (fault : Text.Utf8.Fault)
  | encode (fault : EncodeFault)
  | json (text : String)
  | depth (text : String)
  | request (problem : RequestProblem) (text : String)
  | service (text : String)
  | plain (text : String)
  | unsupported (text : String)
  | grammar (text : String)
  /-- A fault whose text was asked for after it had gone. -/
  | unbound (name : String)
  | exit (code : Nat)
  | form (text : String)
  | http (status : Nat) (detail : String)
  deriving Inhabited

namespace Fault

def message : Fault → String
  | .value s | .kind s | .operation s | .json s | .depth s | .request _ s | .service s | .plain s
  | .unsupported s | .grammar s | .form s => s
  | .attribute owner name => s!"'{owner}' object has no attribute '{name}'"
  | .key k => k.display
  | .index what => what ++ " index out of range"
  | .file .nulInside _ => FileProblem.nulInside.message
  | .file problem path =>
      s!"[Errno {problem.code}] {problem.message}: {Text.display path}"
  | .decode fault => fault.message
  | .encode fault => fault.message
  | .unbound name =>
      s!"cannot access free variable '{name}' where it is not associated with a value in " ++
        "enclosing scope"
  | .exit code => toString code
  | .http _ detail => detail

/-- Whether the fault is about a value as such: this includes texts that cannot be decoded,
encoded or read, and forms. -/
def isValue : Fault → Bool
  | .value _ | .json _ | .decode _ | .encode _ | .form _ | .file .nulInside _ => true
  | _ => false

def isRequest : Fault → Bool
  | .request _ _ => true
  | _ => false

def isFile : Fault → Bool
  | .file .nulInside _ => false
  | .file _ _ => true
  | _ => false

end Fault

abbrev Result := Except Fault

end RepoWiki
