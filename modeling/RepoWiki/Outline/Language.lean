import RepoWiki.Path
import RepoWiki.Text.Case

namespace RepoWiki.Outline

inductive Language where
  | python
  | java
  | cFamily
  | javascript
  | typescript
  | go
  | rust
  | php
  | swift
  | csharp
  | html
  | css
  | unknown
  deriving DecidableEq, Repr

namespace Language

def label : Language → String
  | .python => "python"
  | .java => "java"
  | .cFamily => "c_cpp"
  | .javascript => "javascript"
  | .typescript => "typescript"
  | .go => "go"
  | .rust => "rust"
  | .php => "php"
  | .swift => "swift"
  | .csharp => "csharp"
  | .html => "html"
  | .css => "css"
  | .unknown => "unknown"

def all : List Language :=
  [.python, .java, .cFamily, .javascript, .typescript, .go, .rust, .php, .swift, .csharp,
    .html, .css, .unknown]

def ofLabel (s : String) : Language :=
  (all.find? fun l => l.label == s).getD .unknown

def endings : List (String × Language) :=
  [(".py", .python), (".java", .java), (".c", .cFamily), (".h", .cFamily), (".cpp", .cFamily),
    (".hpp", .cFamily), (".js", .javascript), (".jsx", .javascript), (".ts", .typescript),
    (".tsx", .typescript), (".go", .go), (".rs", .rust), (".php", .php), (".swift", .swift),
    (".cs", .csharp)]

def ofEnding? (ending : String) : Option Language :=
  (endings.find? fun e => e.1 == ending).map (·.2)

def ofFileName (path : String) : Language :=
  (ofEnding? (Text.lower (Path.extension path))).getD .unknown

def hasSlashComments (l : Language) : Bool :=
  [.java, .cFamily, .javascript, .typescript, .go, .rust, .php, .swift, .csharp].contains l

def isComment (l : Language) (line : String) : Bool :=
  match l with
  | .python => Text.startsWith "#" line
  | .html => Text.startsWith "<!--" line
  | .css => Text.startsWith "/*" line
  | _ =>
      l.hasSlashComments &&
        (Text.startsWith "//" line || Text.startsWith "/*" line || Text.startsWith "*" line)

end Language
end RepoWiki.Outline
