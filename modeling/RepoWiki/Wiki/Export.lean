import RepoWiki.Charset
import RepoWiki.Clock
import RepoWiki.Wiki.Content

namespace RepoWiki

structure Reply where
  status : Nat := 200
  mediaType : String
  body : String
  disposition : Option String := none

namespace Reply

def ofJson (status : Nat) (v : Json) : Reply :=
  { status, mediaType := "application/json", body := v.write .compact }

end Reply

namespace Wiki
namespace Export

inductive Format where
  | markdown
  | json
  deriving DecidableEq, Repr

namespace Format

def read (v : Json) : Form.Checked Format :=
  match v with
  | .str "markdown" => .ok .markdown
  | .str "json" => .ok .json
  | _ => .wrong .notOffered

def mediaType : Format → String
  | .markdown => "text/markdown"
  | .json => "application/json"

def ending : Format → String
  | .markdown => ".md"
  | .json => ".json"

end Format

structure Request where
  address : String
  pages : List Page
  format : Format

namespace Request

def ofFields (f : Fields) : Form.Checked Request :=
  Request.mk <$> Form.required "repo_url" Form.text f
    <*> Form.required "pages" (Form.list Page.read) f <*> Form.required "format" Format.read f

def read (v : Json) : Result Request := do
  Form.outcome "Export" (ofFields (← Form.body "Export" v))

end Request

def link (title id : String) : String :=
  s!"[{title}](#{id})"

def linkTo? (pages : List Page) (id : String) : Option String :=
  (pages.find? fun p => p.id == id).map fun p => link p.title id

def related (pages : List Page) (ids : List String) : String :=
  if ids.isEmpty then ""
  else
    let links := ids.filterMap (linkTo? pages)
    "### Related Pages\n\n" ++
      if links.isEmpty then "" else "Related topics: " ++ Text.join ", " links ++ "\n\n"

def markdownPage (pages : List Page) (p : Page) : String :=
  s!"<a id='{p.id}'></a>\n\n## {p.title}\n\n" ++ related pages p.relatedPages ++
    p.content ++ "\n\n---\n\n"

def markdown (now : Clock) (address : String) (pages : List Page) : String :=
  s!"# Wiki Documentation for {address}\n\nGenerated on: {now.spoken}\n\n" ++
    "## Table of Contents\n\n" ++
    String.join (pages.map fun p => "- " ++ link p.title p.id ++ "\n") ++ "\n" ++
    String.join (pages.map (markdownPage pages))

def record (now : Clock) (address : String) (pages : List Page) : Json :=
  .obj [("metadata", .obj [("repository", .str address), ("generated_at", .str now.iso),
      ("page_count", .nat pages.length)]),
    ("pages", .arr (pages.map Page.toJson))]

def json (now : Clock) (address : String) (pages : List Page) : String :=
  (record now address pages).write .indentedAscii

def lastPart (address : String) : String :=
  (Text.splitOn "/" (Text.trimEndBy (· = '/') address)).getLast?.getD "wiki"

def reply (now : Clock) (r : Request) : Result Reply :=
  let name := lastPart r.address ++ "_wiki_" ++ now.stamp ++ r.format.ending
  let body := match r.format with
    | .markdown => markdown now r.address r.pages
    | .json => json now r.address r.pages
  let disposition := "attachment; filename=" ++ name
  match Charset.latin1.check disposition with
  | .ok () =>
      .ok { mediaType := r.format.mediaType, body, disposition := some disposition }
  | .error fault => .error (.http 500 ("Error exporting wiki: " ++ fault.message))

end Export
end Wiki
end RepoWiki
