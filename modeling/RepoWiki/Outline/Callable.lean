import RepoWiki.Json.Basic
import RepoWiki.Outline.Language
import RepoWiki.Pattern

namespace RepoWiki.Outline

open Pattern

/-! ## Classes -/

def pythonClass : Pattern :=
  chain [word "class", blanks1, .group 1 name,
    maybe (chain [word "(", .group 2 (.run (noneOf ")") 1), word ")"]), word ":"]

def modifiedClass (access modifiers : List String) : Pattern :=
  chain <| [blanks, maybe (words access), blanks] ++
    modifiers.map (fun m => maybe (.seq (word m) blanks1)) ++
    [word "class", blanks1, .group 1 name]

def javaClass : Pattern :=
  modifiedClass ["public", "private", "protected"] ["abstract", "final"]

def csharpClass : Pattern :=
  modifiedClass ["public", "private", "protected", "internal"] ["abstract", "sealed"]

def cClass : Pattern :=
  chain [blanks, words ["class", "struct"], blanks1, .group 1 name, blanks,
    maybe (chain [word ":", blanks, words ["public", "private", "protected"], blanks1, name]),
    blanks, word "\x7b"]

def scriptClass : Pattern :=
  chain [word "class", blanks1, .group 1 name,
    maybe (chain [blanks1, word "extends", blanks1, name]), blanks, word "\x7b"]

def phpClass : Pattern :=
  chain [word "class", blanks1, .group 1 name,
    maybe (chain [blanks1, word "extends", blanks1, name]),
    maybe (chain [blanks1, word "implements", blanks1, .run (noneOf "\x7b") 1]),
    blanks, word "\x7b"]

def swiftClass : Pattern :=
  chain [word "class", blanks1, .group 1 name,
    maybe (chain [word ":", blanks, .run (noneOf "\x7b") 1]), blanks, word "\x7b"]

def classPattern? : Language → Option Pattern
  | .python => some pythonClass
  | .java => some javaClass
  | .cFamily => some cClass
  | .javascript | .typescript => some scriptClass
  | .php => some phpClass
  | .swift => some swiftClass
  | .csharp => some csharpClass
  | .go | .rust | .html | .css | .unknown => none

/-! ## Functions -/

structure Callable where
  name : String
  parameters : String
  returnType : Option String
  /-- Present in the languages that write modifiers before the return type. -/
  modifiers : Option String
  line : Int
  isMethod : Bool
  deriving DecidableEq, Repr

def Callable.toJson (f : Callable) : Json :=
  .obj <| [("name", .str f.name), ("parameters", .str f.parameters),
      ("return_type", Json.ofText? f.returnType)] ++
    (f.modifiers.map fun m => ("modifiers", Json.str m)).toList ++
    [("line_number", .int f.line), ("is_method", .bool f.isMethod)]

def parameterList (n : Nat) : Pattern :=
  chain [word "(", .group n (.run (noneOf ")") 0), word ")"]

def resultAfter (mark : String) (n : Nat) : Pattern :=
  maybe (chain [word mark, blanks, .group n (.run (noneOf "\x7b") 1)])

def openBrace : Pattern :=
  .seq blanks (word "\x7b")

def pythonDefinition (lead : List Pattern) : Pattern :=
  chain <| lead ++ [word "def", blanks1, .group 1 name, blanks, parameterList 2, blanks,
    maybe (chain [word "->", blanks,
      .group 3 (.run (fun c => wordOr "[]," c || Text.isBlank c) 1)]), blanks, word ":"]

def pythonMethod : Pattern := pythonDefinition [blanks1]

def pythonFunction : Pattern := pythonDefinition []

def typedFunction (modifiers : List String) : Pattern :=
  chain [blanks, .group 1 (.many (.alt (words modifiers) (.one Text.isBlank))),
    .group 2 (.run (wordOr "<>[]") 1), blanks1, .group 3 name, blanks, parameterList 4, blanks,
    maybe (word "\x7b")]

def javaFunction : Pattern :=
  typedFunction ["public", "private", "protected", "static", "final", "abstract",
    "synchronized", "native"]

def csharpFunction : Pattern :=
  typedFunction ["public", "private", "protected", "static", "virtual", "override", "abstract"]

def cFunction : Pattern :=
  chain [blanks,
    .group 1 (some1 (.seq (.run (fun c => wordOr "*" c || Text.isBlank c) 1) blanks1)),
    .group 2 name, blanks, parameterList 3, openBrace]

def arrowFunction (tail : List Pattern) : Pattern :=
  chain <| [blanks, words ["const", "let", "var"], blanks1, .group 1 name, blanks, word "=", blanks,
    parameterList 2, blanks] ++ tail ++ [word "=>"]

def javascriptMethod : Pattern :=
  chain [blanks, .group 1 name, blanks, parameterList 2, openBrace]

def javascriptFunction : Pattern :=
  chain [maybe (.seq (word "function") blanks1), .group 1 name, blanks, parameterList 2,
    openBrace]

def javascriptArrow : Pattern := arrowFunction []

def typescriptMethod : Pattern :=
  chain [blanks, maybe (.seq name blanks1), .group 1 name, blanks, parameterList 2, blanks,
    resultAfter ":" 3, openBrace]

def typescriptFunction : Pattern :=
  chain [maybe (.seq (word "function") blanks1), .group 1 name, blanks, parameterList 2,
    blanks, resultAfter ":" 3, openBrace]

def typescriptArrow : Pattern := arrowFunction [resultAfter ":" 3, blanks]

def keywordFunction (keyword mark : String) : Pattern :=
  chain [word keyword, blanks1, .group 1 name, blanks, parameterList 2, blanks,
    resultAfter mark 3, openBrace]

def rustFunction : Pattern := keywordFunction "fn" "->"

def phpFunction : Pattern := keywordFunction "function" ":"

def swiftFunction : Pattern := keywordFunction "func" "->"

/-- The result type that the name of a function suggests where none is written. -/
def impliedResult (name : String) : String :=
  if ["get", "is", "has"].any (Text.startsWith · name) then "boolean"
  else if ["create", "make"].any (Text.startsWith · name) then "object"
  else if ["calculate", "compute"].any (Text.startsWith · name) then "number"
  else if Text.startsWith "to" name && 2 < name.length then
    Text.lower (String.ofList (name.toList.drop 2))
  else "any"

/-- A form of line together with what it makes of a match. `isMethod` tells whether the function
belongs to the class around it. -/
structure CallableForm where
  pattern : Pattern
  make : Found → Int → Callable

def CallableForm.plain (pattern : Pattern) (isMethod : Bool) : CallableForm :=
  ⟨pattern, fun m line => ⟨m.group 1, m.group 2, m.group? 3, none, line, isMethod⟩⟩

def CallableForm.typed (pattern : Pattern) (isMethod : Bool) : CallableForm :=
  ⟨pattern, fun m line =>
    ⟨m.group 3, m.group 4, some (Text.strip (m.group 2)), some (Text.strip (m.group 1)), line,
      isMethod⟩⟩

def CallableForm.typeFirst (pattern : Pattern) (isMethod : Bool) : CallableForm :=
  ⟨pattern, fun m line =>
    ⟨m.group 2, m.group 3, some (Text.strip (m.group 1)), none, line, isMethod⟩⟩

def CallableForm.implied (pattern : Pattern) (isMethod : Bool) : CallableForm :=
  ⟨pattern, fun m line =>
    ⟨m.group 1, m.group 2, some (impliedResult (m.group 1)), none, line, isMethod⟩⟩

/-- The forms of a language in the order in which they are tried, inside a class or outside. -/
def callableForms (l : Language) (inClass : Bool) : List CallableForm :=
  let whenInClass (f : CallableForm) : List CallableForm := if inClass then [f] else []
  match l with
  | .python => whenInClass (.plain pythonMethod true) ++ [.plain pythonFunction inClass]
  | .java => [.typed javaFunction inClass]
  | .cFamily => [.typeFirst cFunction inClass]
  | .javascript =>
      whenInClass (.implied javascriptMethod true) ++
        [.implied javascriptFunction inClass, .implied javascriptArrow false]
  | .typescript =>
      whenInClass (.plain typescriptMethod true) ++
        [.plain typescriptFunction inClass, .plain typescriptArrow false]
  | .rust => [.plain rustFunction false]
  | .php => [.plain phpFunction inClass]
  | .swift => [.plain swiftFunction inClass]
  | .csharp => [.typed csharpFunction inClass]
  | .go | .html | .css | .unknown => []

/-- The function or method that a line begins, by the first form that fits. -/
def Callable.ofLine? (l : Language) (inClass : Bool) (line : String) (number : Int) :
    Option Callable :=
  (callableForms l inClass).findSome? fun form =>
    (form.pattern.match? line).map fun m => form.make m (number + 1)

/-- The C function that a line begins in a file of some language: only in files of the C family
does a class around it make it a method. -/
def Callable.ofCLine? (l : Language) (inClass : Bool) (line : String) (number : Int) :
    Option Callable :=
  Callable.ofLine? .cFamily (inClass && l = .cFamily) line number

/-! ## Markup and style sheets -/

structure Marker where
  name : String
  kind : String
  line : Int
  deriving DecidableEq, Repr

def Marker.toJson (m : Marker) : Json :=
  .obj [("name", .str m.name), ("type", .str m.kind), ("line_number", .int m.line)]

def htmlTag : Pattern :=
  chain [word "<", .group 1 name, maybe (.seq blanks1 (.run (noneOf ">") 0)), word ">"]

def cssSelector : Pattern :=
  chain [.group 1 (.run (noneOf "\x7b") 1), openBrace]

def Marker.ofHtml? (line : String) (number : Int) : Option Marker :=
  (htmlTag.match? line).bind fun m =>
    if Text.endsWith "/>" line then none else some ⟨m.group 1, "html_tag", number + 1⟩

def Marker.ofCss? (line : String) (number : Int) : Option Marker :=
  (cssSelector.match? line).map fun m => ⟨Text.strip (m.group 1), "css_selector", number + 1⟩

end RepoWiki.Outline
