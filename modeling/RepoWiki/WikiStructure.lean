import RepoWiki.Markup.Reader
/-
The structure of a wiki, as a model writes it. A structure that can be read is printed anew;
from one that cannot, the pages are picked out and a structure is built around them.
-/

namespace RepoWiki.WikiStructure

def firstBetween? (start stop : List Char) (cs : List Char) : Option (List Char × List Char) := do
  let (_, rest) ← Text.cutList start cs
  Text.cutList stop rest

def firstText? (name : String) (cs : List Char) : Option String :=
  (firstBetween? ("<" ++ name ++ ">").toList ("</" ++ name ++ ">").toList cs).map fun (s, _) =>
    Text.strip (String.ofList s)

def allTextsFrom (name : String) : Nat → List Char → List String
  | 0, _ => []
  | fuel + 1, cs =>
      match firstBetween? ("<" ++ name ++ ">").toList ("</" ++ name ++ ">").toList cs with
      | some (s, rest) => Text.strip (String.ofList s) :: allTextsFrom name fuel rest
      | none => []

def allTexts (name : String) (cs : List Char) : List String :=
  allTextsFrom name cs.length cs

structure Page where
  id : String
  title : Option String
  description : Option String
  importance : Option String
  files : List String
  related : List String

def Page.ofBody (id : String) (body : List Char) : Page where
  id := id
  title := firstText? "title" body
  description := firstText? "description" body
  importance := firstText? "importance" body
  files := allTexts "file_path" body
  related := allTexts "related" body

def pageStart : String := "<page id=\""

def pagesFrom : Nat → List Char → List Page
  | 0, _ => []
  | fuel + 1, cs =>
      let found := do
        let (id, rest) ← firstBetween? pageStart.toList "\">".toList cs
        let (body, rest) ← Text.cutList "</page>".toList rest
        return (Page.ofBody (String.ofList id) body, rest)
      match found with
      | some (page, rest) => page :: pagesFrom fuel rest
      | none => []

structure Structure where
  title : Option String
  description : Option String
  pages : List Page

def Structure.ofBody (body : List Char) : Structure where
  title := firstText? "title" body
  description := firstText? "description" body
  pages := pagesFrom body.length body

def line (indent name s : String) : String :=
  s!"{indent}<{name}>{s}</{name}>\n"

def optionalLine (indent name : String) (s : Option String) : String :=
  s.elim "" (line indent name)

def Page.print (p : Page) : String :=
  s!"    <page id=\"{p.id}\">\n" ++ optionalLine "      " "title" p.title ++
    optionalLine "      " "description" p.description ++
    optionalLine "      " "importance" p.importance ++ "      <relevant_files>\n" ++
    String.join (p.files.map (line "        " "file_path")) ++ "      </relevant_files>\n" ++
    "      <related_pages>\n" ++ String.join (p.related.map (line "        " "related")) ++
    "      </related_pages>\n" ++ "    </page>\n"

def Structure.print (s : Structure) : String :=
  "<wiki_structure>\n" ++ optionalLine "  " "title" s.title ++
    optionalLine "  " "description" s.description ++ "  <pages>\n" ++
    String.join (s.pages.map Page.print) ++ "  </pages>\n</wiki_structure>"

def openTag : String := "<wiki_structure>"

def closeTag : String := "</wiki_structure>"

def bodyOf? (s : String) : Option String :=
  (firstBetween? openTag.toList closeTag.toList s.toList).map fun (body, _) => String.ofList body

def rebuild (body : String) : String :=
  (Structure.ofBody (Text.strip body).toList).print

def isReference (cs : List Char) : Bool :=
  ["amp;", "lt;", "gt;", "apos;", "quot;"].any fun r => r.toList.isPrefixOf cs

def escapeAmpersands : List Char → List Char
  | [] => []
  | '&' :: rest =>
      if isReference rest then '&' :: escapeAmpersands rest
      else "&amp;".toList ++ escapeAmpersands rest
  | c :: rest => c :: escapeAmpersands rest

def mended (s : String) : String :=
  Text.replaceAll "  >" ">" (String.ofList (escapeAmpersands s.toList))

def tidy (depth : Nat) (body : String) : String :=
  match Markup.Node.ofText? depth (mended (openTag ++ body ++ closeTag)) with
  | some node => Text.strip (node.print "")
  | none => rebuild body

/-- An answer of a model: one that begins with markup and holds a structure is replaced by that
structure in good form. -/
def format (depth : Nat) (answer : String) : String :=
  if Text.startsWith "<" (Text.strip answer) && Text.hasInfix ">" answer then
    match bodyOf? answer with
    | some body => tidy depth body
    | none => answer
  else answer

end RepoWiki.WikiStructure
