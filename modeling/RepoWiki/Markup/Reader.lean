import RepoWiki.Markup.NameTable
import RepoWiki.Markup.Node
import RepoWiki.Text.Word
/-
Reads marked-up text. What is not well formed is refused as a whole.
-/

namespace RepoWiki.Markup
namespace Reader

def isLegal (c : Char) : Bool :=
  c = '\t' || c = '\n' || c = '\r' || (0x20 ≤ c.toNat && c.toNat ≠ 0xFFFE && c.toNat ≠ 0xFFFF)

def isSpace (c : Char) : Bool :=
  c = ' ' || c = '\t' || c = '\n' || c = '\r'

def beginsName (c : Char) : Bool :=
  c.isAlpha || c = '_' || Text.inRanges letterRanges c.toNat

def inName (c : Char) : Bool :=
  beginsName c || c.isDigit || c = '-' || c = '.' || Text.inRanges innerRanges c.toNat

def name? (cs : List Char) : Option (String × List Char) :=
  let p := fun c => inName c || c = ':'
  match cs with
  | c :: _ =>
      if beginsName c || c = ':' then some (String.ofList (cs.takeWhile p), cs.dropWhile p)
      else none
  | [] => none

/-- The part of a name before a colon, if the name is well formed: one colon at most, and a
proper name on both sides of it. -/
def nameSpace? (name : String) : Option (Option String) :=
  let proper := fun s : String =>
    match s.toList with
    | c :: _ => beginsName c
    | [] => false
  match Text.splitOn ":" name with
  | [s] => if proper s then some none else none
  | [space, s] => if proper space && proper s then some (some space) else none
  | _ => none

def after? (s : String) (cs : List Char) : Option (List Char) :=
  if s.toList.isPrefixOf cs then some (cs.drop s.length) else none

def apostrophe : Char :=
  Char.ofNat 0x27

def references : List (String × Char) :=
  [("&amp;", '&'), ("&lt;", '<'), ("&gt;", '>'), ("&quot;", '"'), ("&apos;", apostrophe)]

def reference? (cs : List Char) : Option (Char × List Char) :=
  references.findSome? fun (s, c) => (after? s cs).map fun rest => (c, rest)

/-- A value up to its closing quote. Blanks of all kinds are spaces. -/
def value? (quote : Char) : Nat → List Char → Option (List Char × List Char)
  | 0, _ => none
  | _, [] => none
  | fuel + 1, c :: rest =>
      if c = quote then some ([], rest)
      else if c = '<' then none
      else if c = '&' then do
        let (d, rest) ← reference? (c :: rest)
        let (value, rest) ← value? quote fuel rest
        return (d :: value, rest)
      else do
        let (value, rest) ← value? quote fuel rest
        return ((if isSpace c then ' ' else c) :: value, rest)

inductive TagEnd where
  | opened
  | closed

def attributes? : Nat → List Char → Option (List (String × String) × TagEnd × List Char)
  | 0, _ => none
  | fuel + 1, cs =>
      let inner := cs.dropWhile isSpace
      match inner with
      | '>' :: rest => some ([], .opened, rest)
      | '/' :: '>' :: rest => some ([], .closed, rest)
      | _ =>
          if inner.length = cs.length then none
          else do
            let (name, rest) ← name? inner
            let rest ← after? "=" (rest.dropWhile isSpace)
            match rest.dropWhile isSpace with
            | quote :: rest =>
                if quote = '"' || quote = apostrophe then
                  let (value, rest) ← value? quote (rest.length + 1) rest
                  let (others, ending, rest) ← attributes? fuel rest
                  return ((name, String.ofList value) :: others, ending, rest)
                else none
            | [] => none

def xmlAddress : String := "http://www.w3.org/XML/1998/namespace"

def xmlnsAddress : String := "http://www.w3.org/2000/xmlns/"

/-- The name space that an attribute declares, if it does: the empty name is the default one. -/
def declared? (name : String) : Option String :=
  if name = "xmlns" then some ""
  else if Text.startsWith "xmlns:" name then
    some (String.ofList (name.toList.drop "xmlns:".length))
  else none

def mayDeclare (space address : String) : Bool :=
  space != "xmlns" && address != xmlnsAddress && !address.any (· == ' ') &&
    (space == "" || address != "") && (space == "xml") == (address == xmlAddress)

abbrev Scope := List (String × String)

/-- The address of the name space of a name, none where the name has no such part, and the name
itself. Nothing if the name is not well formed or its name space is not known. -/
def expanded? (known : Scope) (name : String) : Option (Option String × String) :=
  match nameSpace? name with
  | some none => some (none, name)
  | some (some space) => do
      let address ← known.lookup space
      return (some address, String.ofList (name.toList.drop (space.length + 1)))
  | none => none

/-- The name spaces that are known inside an element, if its attributes are in order: each name
space known, and no name twice, whether as it is written or with the address of its space. -/
def scope? (known : Scope) (name : String) (attributes : List (String × String)) :
    Option Scope := do
  let declarations := attributes.filterMap fun (n, v) => (declared? n).map fun s => (s, v)
  let known := declarations ++ known
  let names := attributes.map (·.1)
  let declaring := names.filter fun n => (declared? n).isSome
  let _ ← expanded? known name
  let ordinary ← (names.filter fun n => (declared? n).isNone).mapM (expanded? known)
  if declarations.all (fun (s, v) => mayDeclare s v) &&
      declaring.all (fun n => (nameSpace? n).isSome) &&
      names.eraseDups.length = names.length && ordinary.eraseDups.length = ordinary.length
  then some known else none

def arrange (attributes : List (String × String)) : List (String × String) :=
  let declares := fun (a : String × String) => (declared? a.1).isSome
  attributes.filter declares ++ attributes.filter fun a => !declares a

def text? : Nat → List Char → Option (List Char × List Char)
  | 0, _ => none
  | _, [] => some ([], [])
  | fuel + 1, c :: rest =>
      if c = '<' then some ([], c :: rest)
      else if c = '&' then do
        let (d, rest) ← reference? (c :: rest)
        let (s, rest) ← text? fuel rest
        return (d :: s, rest)
      else if (after? "]]>" (c :: rest)).isSome then none
      else do
        let (s, rest) ← text? fuel rest
        return (c :: s, rest)

def comment? (cs : List Char) : Option (String × List Char) := do
  let (s, rest) ← Text.cutList "--".toList cs
  return (String.ofList s, ← after? ">" rest)

def instruction? (cs : List Char) : Option (Node × List Char) := do
  let (target, rest) ← name? cs
  if target.toLower = "xml" || target.any (· == ':') then none
  else
    match after? "?>" rest with
    | some rest => return (.instruction target "", rest)
    | none =>
        match rest with
        | c :: _ =>
            if isSpace c then
              let (data, rest) ← Text.cutList "?>".toList (rest.dropWhile isSpace)
              return (.instruction target (String.ofList data), rest)
            else none
        | [] => none

/-- Puts a part in front of others. A text joins a text that follows, and an empty section
leaves no trace. -/
def join (node : Node) (nodes : List Node) : List Node :=
  match node, nodes with
  | .text s, .text t :: rest => .text (s ++ t) :: rest
  | .section "", nodes => nodes
  | node, nodes => node :: nodes

def content? : Nat → Scope → List Char → Option (List Node × List Char)
  | 0, _, _ => none
  | _, _, [] => none
  | fuel + 1, known, '<' :: rest => do
      match rest with
      | '/' :: _ => return ([], '<' :: rest)
      | _ =>
          let (node, rest) ← part? fuel known rest
          let (nodes, rest) ← content? fuel known rest
          return (join node nodes, rest)
  | fuel + 1, known, cs => do
      let (s, rest) ← text? (cs.length + 1) cs
      let (nodes, rest) ← content? fuel known rest
      return (join (.text (String.ofList s)) nodes, rest)
where
  part? : Nat → Scope → List Char → Option (Node × List Char)
    | 0, _, _ => none
    | fuel + 1, known, cs => do
        if let some rest := after? "!--" cs then
          let (s, rest) ← comment? rest
          return (.comment s, rest)
        else if let some rest := after? "![CDATA[" cs then
          let (s, rest) ← Text.cutList "]]>".toList rest
          return (.section (String.ofList s), rest)
        else if let some rest := after? "?" cs then instruction? rest
        else
          let (name, rest) ← name? cs
          let (attributes, ending, rest) ← attributes? (rest.length + 1) rest
          let known ← scope? known name attributes
          let attributes := arrange attributes
          match ending with
          | .closed => return (.element name attributes [], rest)
          | .opened =>
              let (children, rest) ← content? fuel known rest
              let rest ← after? ("</" ++ name) rest
              let rest ← after? ">" (rest.dropWhile isSpace)
              return (.element name attributes children, rest)

end Reader

/-- The tree of a text, unless its elements lie deeper in each other than is allowed. -/
def Node.ofText? (depth : Nat) (s : String) : Option Node := do
  let cs := Text.unifyNewlines s.toList
  if !cs.all Reader.isLegal then none
  else
    let rest ← Reader.after? "<" cs
    let (node, rest) ← Reader.content?.part? (2 * cs.length + 2) [("xml", Reader.xmlAddress)] rest
    if rest.all Reader.isSpace && node.depth ≤ depth then return node else none

end RepoWiki.Markup
