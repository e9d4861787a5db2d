import RepoWiki.Form

namespace RepoWiki.Wiki

open Form

structure Page where
  id : String
  title : String
  content : String
  filePaths : List String
  importance : String
  relatedPages : List String

namespace Page

def ofFields (f : Fields) : Form.Checked Page :=
  Page.mk <$> required "id" text f <*> required "title" text f
    <*> required "content" text f <*> required "filePaths" (list text) f
    <*> required "importance" text f
    <*> required "relatedPages" (list text) f

def read (v : Json) : Form.Checked Page :=
  nested ofFields v

def toJson (p : Page) : Json :=
  .obj [("id", .str p.id), ("title", .str p.title), ("content", .str p.content),
    ("filePaths", Json.texts p.filePaths), ("importance", .str p.importance),
    ("relatedPages", Json.texts p.relatedPages)]

end Page

structure Section where
  id : String
  title : String
  pages : List String
  subsections : Option (List String)

namespace Section

def ofFields (f : Fields) : Form.Checked Section :=
  Section.mk <$> required "id" text f <*> required "title" text f
    <*> required "pages" (list text) f
    <*> maybe "subsections" (list text) f

def read (v : Json) : Form.Checked Section :=
  nested ofFields v

def toJson (s : Section) : Json :=
  .obj [("id", .str s.id), ("title", .str s.title), ("pages", Json.texts s.pages),
    ("subsections", .ofOption (s.subsections.map Json.texts))]

end Section

structure Plan where
  id : String
  title : String
  description : String
  pages : List Page
  sections : Option (List Section)
  rootSections : Option (List String)

namespace Plan

def ofFields (f : Fields) : Form.Checked Plan :=
  Plan.mk <$> required "id" text f <*> required "title" text f
    <*> required "description" text f <*> required "pages" (list Page.read) f
    <*> maybe "sections" (list Section.read) f
    <*> maybe "rootSections" (list text) f

def read (v : Json) : Form.Checked Plan :=
  nested ofFields v

def toJson (p : Plan) : Json :=
  .obj [("id", .str p.id), ("title", .str p.title), ("description", .str p.description),
    ("pages", .arr (p.pages.map Page.toJson)),
    ("sections", .ofOption (p.sections.map fun s => .arr (s.map Section.toJson))),
    ("rootSections", .ofOption (p.rootSections.map Json.texts))]

end Plan

structure Subject where
  owner : String
  repo : String
  kind : String
  token : Option String
  localPath : Option String
  address : Option String

namespace Subject

def ofFields (f : Fields) : Form.Checked Subject :=
  Subject.mk <$> required "owner" text f <*> required "repo" text f
    <*> required "type" text f <*> maybe "token" text f
    <*> maybe "localPath" text f <*> maybe "repoUrl" text f

def read (v : Json) : Form.Checked Subject :=
  nested ofFields v

def toJson (s : Subject) : Json :=
  .obj [("owner", .str s.owner), ("repo", .str s.repo), ("type", .str s.kind),
    ("token", .ofText? s.token), ("localPath", .ofText? s.localPath),
    ("repoUrl", .ofText? s.address)]

end Subject

structure Stored where
  plan : Plan
  pages : List (String × Page)
  address : Option String := none
  subject : Option Subject
  provider : Option String
  model : Option String

namespace Stored

def ofFields (f : Fields) : Form.Checked Stored :=
  Stored.mk <$> required "wiki_structure" Plan.read f
    <*> required "generated_pages" (named Page.read) f
    <*> maybe "repo_url" text f <*> maybe "repo" Subject.read f
    <*> maybe "provider" text f <*> maybe "model" text f

def read (v : Json) : Result Stored := do
  outcome "Wiki" (ofFields (← body "Wiki" v))

def toJson (w : Stored) : Json :=
  .obj [("wiki_structure", w.plan.toJson),
    ("generated_pages", .obj (w.pages.map fun p => (p.1, p.2.toJson))),
    ("repo_url", .ofText? w.address), ("repo", .ofOption (w.subject.map Subject.toJson)),
    ("provider", .ofText? w.provider), ("model", .ofText? w.model)]

end Stored

structure Submission where
  subject : Subject
  language : String
  plan : Plan
  pages : List (String × Page)
  provider : String
  model : String

namespace Submission

def ofFields (f : Fields) : Form.Checked Submission :=
  Submission.mk <$> required "repo" Subject.read f <*> required "language" text f
    <*> required "wiki_structure" Plan.read f
    <*> required "generated_pages" (named Page.read) f
    <*> required "provider" text f <*> required "model" text f

def read (v : Json) : Result Submission := do
  outcome "Submission" (ofFields (← body "Submission" v))

def stored (s : Submission) : Stored :=
  { plan := s.plan, pages := s.pages, subject := some s.subject, provider := some s.provider,
    model := some s.model }

end Submission
end RepoWiki.Wiki
