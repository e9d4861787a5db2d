import RepoWiki.Json.Basic
import RepoWiki.Outline.Language
import RepoWiki.Pattern

namespace RepoWiki.Outline

open Pattern

/-- A line that brings something in. `parts` holds what was named, each under its label. -/
structure Import where
  kind : String
  parts : List (String × String)
  line : Int
  deriving DecidableEq, Repr

def Import.toJson (i : Import) : Json :=
  .obj <| ("type", .str i.kind) :: i.parts.map (fun (k, v) => (k, .str v)) ++
    [("line_number", .int i.line)]

/-- The grammar of a line form cannot be used: a group in it is never closed. -/
structure GrammarFault where
  position : Nat
  deriving DecidableEq, Repr

def GrammarFault.message (fault : GrammarFault) : String :=
  s!"missing ), unterminated subpattern at position {fault.position}"

namespace Import

/-! ## Forms of lines -/

def quoteMarks : String := "'\""

def quoted (n : Nat) : Pattern :=
  chain [.one (Text.oneOf quoteMarks), .group n (.run (noneOf quoteMarks) 1),
    .one (Text.oneOf quoteMarks)]

def upToSemicolon (keyword : String) : Pattern :=
  chain [word keyword, blanks1, .group 1 (.run (noneOf ";") 1), word ";"]

def pythonImport : Pattern :=
  chain [word "import", blanks1, .group 1 (.run inLine 1), .atEnd]

def pythonFrom : Pattern :=
  chain [word "from", blanks1, .group 1 (.run (wordOr ".") 1), blanks1, word "import", blanks1,
    .group 2 (.run inLine 1)]

def javaImport : Pattern :=
  chain [word "import", blanks1, maybe (.seq (word "static") blanks1),
    .group 1 (.run (wordOr ".*") 1), word ";"]

def includeLine : Pattern :=
  chain [blanks, word "#include", blanks1,
    .alt (chain [word "<", .group 1 (.run (noneOf ">") 1), word ">"])
      (chain [word "\"", .group 2 (.run (noneOf "\"") 1), word "\""])]

def scriptImport : Pattern :=
  chain [word "import", blanks1,
    maybe (chain [.group 1 (.run inLine 1), blanks1, word "from", blanks1]), quoted 2]

def scriptRequire : Pattern :=
  chain [blanks, words ["const", "let", "var"], blanks1, .run inLine 1, blanks, word "=", blanks,
    word "require(", quoted 1, word ")"]

def rustModule : Pattern :=
  chain [word "mod", blanks1, .group 1 name, blanks, word "\x7b"]

def swiftImport : Pattern :=
  chain [word "import", blanks1, .group 1 (.run inLine 1)]

def csharpNamespace : Pattern :=
  chain [word "namespace", blanks1, .group 1 (.run (noneOf "\x7b") 1), blanks, word "\x7b"]

def cssImport : Pattern :=
  chain [word "@import", blanks1, maybe (word "url("), maybe (.one (Text.oneOf quoteMarks)),
    .group 1 (.run (noneOf "\"')") 1), maybe (.one (Text.oneOf quoteMarks)),
    maybe (word ")"), word ";"]

/-! ## Reading a line -/

def orElseText (a b : String) : String :=
  if a = "" then b else a

structure Form where
  pattern : Pattern
  kind : String
  parts : Found → List (String × String)

def Form.single (pattern : Pattern) (kind label : String) : Form :=
  ⟨pattern, kind, fun m => [(label, m.group 1)]⟩

def scriptForms : List Form :=
  [⟨scriptImport, "import", fun m =>
      [("imports", Text.strip (orElseText (m.group 1) "*")), ("module", m.group 2)]⟩,
    .single scriptRequire "require" "module"]

def forms : Language → List Form
  | .python =>
      [.single pythonImport "import" "module",
        ⟨pythonFrom, "from_import", fun m => [("module", m.group 1), ("imports", m.group 2)]⟩]
  | .java => [.single javaImport "import" "package"]
  | .cFamily =>
      [⟨includeLine, "include", fun m => [("file", orElseText (m.group 1) (m.group 2))]⟩]
  | .javascript | .typescript => scriptForms
  | .rust => [.single (upToSemicolon "use") "use" "module", .single rustModule "mod" "name"]
  | .php =>
      [.single (upToSemicolon "namespace") "namespace" "name",
        .single (upToSemicolon "use") "use" "name"]
  | .swift => [.single swiftImport "import" "module"]
  | .csharp =>
      [.single (upToSemicolon "using") "using" "namespace",
        .single csharpNamespace "namespace" "name"]
  | .css => [.single cssImport "import" "file"]
  | .go | .html | .unknown => []

def find? (forms : List Form) (line : String) (number : Int) : Option Import :=
  forms.findSome? fun form =>
    (form.pattern.match? line).map fun m => ⟨form.kind, form.parts m, number + 1⟩

/-- Reads a line whose number, counted from zero, is given. The form of a single Go import is
not usable; Go files are read by a grammar of their own. -/
def ofLine (l : Language) (line : String) (number : Int) : Except GrammarFault (Option Import) :=
  match l with
  | .go => .error ⟨10⟩
  | _ => .ok (find? (forms l) line number)

end Import
end RepoWiki.Outline
