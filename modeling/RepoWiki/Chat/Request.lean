import RepoWiki.Form
import RepoWiki.Index.Filter
import RepoWiki.Text.Percent

namespace RepoWiki.Chat

open Form

structure Message where
  role : String
  content : String
  deriving DecidableEq, Repr

namespace Message

def ofFields (f : Fields) : Form.Checked Message :=
  Message.mk <$> required "role" text f <*> required "content" text f

def isFromUser (m : Message) : Bool :=
  m.role == "user"

def isFromAssistant (m : Message) : Bool :=
  m.role == "assistant"

end Message

structure Request where
  address : String
  messages : List Message
  file : Option String
  token : Option String
  kind : Option String
  provider : String
  model : Option String
  language : Option String
  excludedDirs : Option String
  excludedFiles : Option String
  includedDirs : Option String
  includedFiles : Option String

namespace Request

def ofFields (f : Fields) : Form.Checked Request :=
  Request.mk <$> required "repo_url" text f
    <*> required "messages" (list (nested Message.ofFields)) f
    <*> maybe "filePath" text f <*> maybe "token" text f
    <*> maybeOr "type" (some "github") text f
    <*> requiredOr "provider" "google" text f <*> maybe "model" text f
    <*> maybeOr "language" (some "en") text f
    <*> maybe "excluded_dirs" text f <*> maybe "excluded_files" text f
    <*> maybe "included_dirs" text f <*> maybe "included_files" text f

def title : String := "ChatCompletionRequest"

def read (v : Json) : Result Request := do
  outcome title (ofFields (← body ("api.websocket_wiki." ++ title) v))

def namesIn (s : Option String) : Json :=
  match s with
  | none | some "" => .null
  | some s =>
      .arr (((Text.splitOn "\n" s).filter fun l => Text.strip l ≠ "").map
        (.str ∘ Text.Percent.decode))

def wishes (r : Request) : Index.Wishes :=
  ⟨namesIn r.excludedDirs, namesIn r.excludedFiles, namesIn r.includedDirs,
    namesIn r.includedFiles⟩

def last? (r : Request) : Option Message :=
  r.messages.getLast?

def fileName? (r : Request) : Option String :=
  r.file.filter fun f => f ≠ ""

def repositoryName (r : Request) : String :=
  (Text.splitOn "/" r.address).getLast?.getD r.address

def kindText (r : Request) : String :=
  r.kind.getD "None"

end Request
end RepoWiki.Chat
