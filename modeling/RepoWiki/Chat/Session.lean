import RepoWiki.Chat.Instruction
import RepoWiki.Chat.Prompt
import RepoWiki.Chat.Research
import RepoWiki.Chat.Voice
import RepoWiki.Index.Retrieval
import RepoWiki.Outline.Project
import RepoWiki.Repository.FileContent
/-
Answering a question about a repository: on a stream or over a socket. Both take the same steps;
they differ in the wording of the prompt, in the models they know, and in that a socket has to be
closed and may fail.
-/

namespace RepoWiki.Chat

open Run

/-! ## Refusals -/

inductive Refusal where
  | unprepared (fault : Fault)
  | noMessages
  | notFromUser

namespace Refusal

def noDocuments : String :=
  "No valid document embeddings found. This may be due to embedding size inconsistencies or API " ++
  "errors during document processing. Please try again or check your repository content."

def unevenSizes : String :=
  "Inconsistent embedding sizes detected. Some documents may have failed to embed properly. " ++
  "Please try again."

/-- What is said about a fault of the preparation, and whether it has words of its own. -/
def ofFault (fault : Fault) : Bool × String :=
  if fault.isValue && Text.hasInfix "No valid documents with embeddings found" fault.message then
    (true, noDocuments)
  else if !fault.isValue && Text.hasInfix "All embeddings should be of the same size" fault.message
    then (true, unevenSizes)
  else (false, "Error preparing retriever: " ++ fault.message)

def status : Refusal → Nat
  | .unprepared _ => 500
  | .noMessages | .notFromUser => 400

/-- What a refusal says, and whether it needs a word in front that tells it is one. -/
def words : Refusal → Bool × String
  | .unprepared fault => ofFault fault
  | .noMessages => (true, "No messages provided")
  | .notFromUser => (true, "Last message must be from the user")

def fault (r : Refusal) : Fault :=
  .http r.status r.words.2

def text (r : Refusal) : String :=
  (if r.words.1 then "Error: " else "") ++ r.words.2

end Refusal

/-! ## Preparing -/

/-- How the tokens of a request are counted. -/
def Request.counter (r : Request) (library : Library) : String → Nat :=
  library.count (some (r.provider == "ollama"))

def tooLong (count : String → Nat) (channel : Channel) (m : Message) : Bool :=
  channel.tokenLimit < count m.content

def retrieval (settings : Fields) (r : Request) : Run Index.Retrieval := do
  let opened ← Index.Retrieval.start settings (.str r.provider) (.ofText? r.model)
  let hosting := Repository.Hosting.ofText (r.kind.getD "")
  let (prepared, done) ← opened.prepare (.str r.address) hosting (Json.ofText? r.token) r.wishes
  lift done
  return prepared

def lookedUp (r : Request) (question : String) : String :=
  match r.fileName? with
  | some file => "Contexts related to " ++ file
  | none => question

def contextFor (documents : Index.Retrieval) (r : Request) (question : String) : Run String := do
  match ← documents.find? (.str (lookedUp r question)) with
  | some found => return (Prompt.context found).toOption.getD ""
  | none => return ""

def languageName (settings : Fields) (language : Option String) : Result String := do
  let known ← match Fields.get? "lang_config" settings with
    | some v => pure v
    | none => .error (.key (.str "lang_config"))
  let code ← match language with
    | none | some "" => known.item "default"
    | some s => pure (.str s)
  let names ← known.item "supported_languages"
  match names, code with
  | .obj _, .arr _ | .obj _, .obj _ => .error (.operation s!"unhashable type: '{code.kindName}'")
  | .obj fields, .str s => return ((Fields.get? s fields).getD (.str "English")).inText
  | .obj _, _ => return "English"
  | v, _ => .error (.attribute v.kindName "get")

def fileFor (r : Request) : Run String := do
  match r.fileName? with
  | none => return ""
  | some file =>
      let hosting := Repository.Hosting.ofText (r.kind.getD "")
      orElse (Repository.fileContent hosting (.str r.address) (.str file)
        (Json.ofText? r.token))
        fun _ => return ""

/-- The notes on the project, which are shown on the console too. Only a socket asks for them. -/
def notesFor (channel : Channel) (r : Request) : Run (Option String) := do
  match channel with
  | .stream => return none
  | .socket =>
      let name ← if r.kind = some "local" then pure r.repositoryName
        else lift (Repository.label r.address)
      let notes := (← Outline.Project.notes name).write .indented
      print ("====================================》" ++ notes)
      return some notes

structure Prepared where
  voice : Voice
  arguments : Fields
  short : String

def prompts (count : String → Nat) (channel : Channel) (settings : Fields) (r : Request)
    (documents : Index.Retrieval) (last : Message) : Run (String × String) := do
  let q := Question.ofMessages r.messages last
  let context ← if tooLong count channel last then pure "" else contextFor documents r q.text
  let language ← lift (languageName settings r.language)
  let subject : Instruction.Subject := ⟨r.kindText, r.address, r.repositoryName, language⟩
  let setting : Prompt.Setting := {
    instruction := Instruction.text channel subject q.round
    exchanges := exchanges r.messages
    fileName := r.file.getD ""
    file := ← fileFor r }
  let notes ← notesFor channel r
  return (Prompt.whole setting context notes q.text, Prompt.short setting q.text)

def prepare (channel : Channel) (settings : Fields) (r : Request) :
    Run (Except Refusal Prepared) := do
  let count := r.counter (← library)
  match ← attempt (retrieval settings r) with
  | .error fault => return .error (.unprepared fault)
  | .ok documents =>
      match r.last? with
      | none => return .error .noMessages
      | some last =>
          if !last.isFromUser then return .error .notFromUser
          let (prompt, short) ← prompts count channel settings r documents last
          let model ← lift (Config.model settings (.str r.provider) (.ofText? r.model))
          let voice ← Voice.start channel r.provider (.ofText? r.model) model.options
          return .ok ⟨voice, ← voice.arguments prompt, short⟩

/-! ## Answering -/

def finish : Channel → Run Unit
  | .stream => pure ()
  | .socket => close

def isTooLong (fault : Fault) : Bool :=
  ["maximum context length", "token limit", "too many tokens"].any fun s =>
    Text.hasInfix s fault.message

def apology : String :=
  "\nI apologize, but your request is too large for me to process. Please try a shorter query " ++
  "or break it into smaller parts."

def firstTry (channel : Channel) (p : Prepared) : Run Unit := do
  match p.voice with
  | .hosted h _ _ =>
      orElse
        (do
          p.voice.speak Voice.choiceText p.arguments
          finish channel)
        fun fault => do
          send (.str (h.problem false fault))
          finish channel
  | voice =>
      voice.speak Voice.choiceText p.arguments
      finish channel

/-- The second attempt, with a short prompt. The usual model has no name that could be asked for
again. -/
def secondTry (settings : Fields) (r : Request) (p : Prepared) : Run Unit := do
  match p.voice with
  | .ollama _ => p.voice.speak Voice.choiceText (← p.voice.arguments p.short)
  | .hosted h _ _ =>
      orElse (do p.voice.speak (Voice.textAgain h) (← p.voice.arguments p.short))
        fun fault => send (.str (h.problem true fault))
  | .google _ _ | .mute _ _ =>
      let model ← lift (Config.model settings (.str r.provider) (.ofText? r.model))
      let _ ← lift (model.toJson.item "model")

def answer (channel : Channel) (settings : Fields) (r : Request) (p : Prepared) : Run Unit :=
  orElse (firstTry channel p) fun fault =>
    if isTooLong fault then
      orElse (secondTry settings r p) fun _ => do
        send (.str apology)
        finish channel
    else do
      send (.str ("\nError: " ++ fault.message))
      finish channel

/-! ## The two channels -/

def mediaType : String := "text/event-stream"

def streamFault (fault : Fault) : Fault :=
  match fault with
  | .http status detail => .http status detail
  | .exit code => .exit code
  | fault => .http 500 ("Error in streaming chat completion: " ++ fault.message)

def stream (settings : Fields) (r : Request) : Run (List Json) := do
  match ← attempt (prepare .stream settings r) with
  | .error fault => throw (streamFault fault)
  | .ok (.error refusal) => throw refusal.fault
  | .ok (.ok p) =>
      let before := (← get).line.sent.length
      answer .stream settings r p
      return (← get).line.sent.drop before

def converse (settings : Fields) (received : Json) : Run Unit := do
  let r ← lift (Request.read received)
  match ← prepare .socket settings r with
  | .error refusal =>
      send (.str refusal.text)
      close
  | .ok p => answer .socket settings r p

/-- Serves a socket. Nothing is received if the browser has gone. -/
def socket (settings : Fields) (received : Option Json) : Run Unit := do
  accept
  if let some v := received then
    orElse (converse settings v) fun fault =>
      orElse
        (do
          send (.str ("Error: " ++ fault.message))
          close)
        fun _ => pure ()

end RepoWiki.Chat
