import RepoWiki.Text.Basic

namespace RepoWiki.Markup

inductive Node where
  | element (name : String) (attributes : List (String × String)) (children : List Node)
  | text (s : String)
  | section (s : String)
  | comment (s : String)
  | instruction (target data : String)

namespace Node

mutual

def depth : Node → Nat
  | .element _ _ children => depthOfAll children + 1
  | _ => 0

def depthOfAll : List Node → Nat
  | [] => 0
  | node :: rest => max (depth node) (depthOfAll rest)

end

def escapeChar : Char → List Char
  | '&' => "&amp;".toList
  | '<' => "&lt;".toList
  | '"' => "&quot;".toList
  | '>' => "&gt;".toList
  | c => [c]

def escape (s : String) : String :=
  String.ofList (s.toList.flatMap escapeChar)

def printAttributes (attributes : List (String × String)) : String :=
  String.join (attributes.map fun (name, value) => s!" {name}=\"{escape value}\"")

/-- An only child that is text stays on the line of its element. -/
def onlyText? : List Node → Option String
  | [.text s] => some (escape s)
  | [.section s] => some ("<![CDATA[" ++ s ++ "]]>")
  | _ => none

mutual

def print (indent : String) : Node → String
  | .element name attributes children =>
      let start := indent ++ "<" ++ name ++ printAttributes attributes
      match children with
      | [] => start ++ "/>\n"
      | children =>
          match onlyText? children with
          | some s => start ++ ">" ++ s ++ "</" ++ name ++ ">\n"
          | none =>
              start ++ ">\n" ++ printAll (indent ++ "\t") children ++ indent ++
                "</" ++ name ++ ">\n"
  | .text s => indent ++ escape s ++ "\n"
  | .section s => "<![CDATA[" ++ s ++ "]]>"
  | .comment s => indent ++ "<!--" ++ s ++ "-->\n"
  | .instruction target data => indent ++ "<?" ++ target ++ " " ++ data ++ "?>\n"

def printAll (indent : String) : List Node → String
  | [] => ""
  | node :: rest => print indent node ++ printAll indent rest

end

end Node
end RepoWiki.Markup
