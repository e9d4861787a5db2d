import RepoWiki.Index.Database
import RepoWiki.Index.Validation

namespace RepoWiki.Index

structure Searcher where
  limit : Json
  count : Nat

structure Retrieval where
  settings : Fields
  /-- Whether texts are embedded one by one. -/
  single : Bool
  model : Config.Model
  client : Config.ClientClass
  embedder : Provider.OpenEmbedder
  documents : List Document := []
  searcher : Option Searcher := none

namespace Retrieval

def formatRules : String :=
  "\n\nIMPORTANT FORMATTING RULES:\n" ++
  "1. DO NOT include your thinking or reasoning process in the output\n" ++
  "2. Provide only the final, polished answer\n" ++
  "3. DO NOT include ```markdown fences at the beginning or end of your answer\n" ++
  "4. DO NOT wrap your response in any kind of fences\n" ++
  "5. Start your response directly with the content\n" ++
  "6. The content will already be rendered as markdown\n" ++
  "7. Do not use backslashes before special characters like [ ] \x7b \x7d in your answer\n" ++
  "8. When listing tags or similar items, write them as plain text without escape characters\n" ++
  "9. For pipe characters (|) in text, write them directly without escaping them"

def localModel? (settings : Fields) : Result (Option Json) := do
  let embedder := Config.embedder settings
  let model ← (← embedder.getD "model_kwargs" (.obj [])).get "model"
  return if model.truthy then some model else none

def checkLocalModel (settings : Fields) : Run Unit := do
  if let some model ← Run.lift (localModel? settings) then
    if !(← Ollama.hasModel model .null) then
      let name := model.inText
      throw (.plain <| s!"Ollama model '{name}' not found. Please run 'ollama pull {name}' to " ++
        "install it.")

def start (settings : Fields) (provider model : Json) : Run Retrieval := do
  let single ← Run.lift (Config.usesOllama settings)
  if single then checkLocalModel settings
  let embedder ← Provider.openEmbedder settings
  let model ← Run.lift (Config.model settings provider model)
  let client ← Provider.tryOpenMarked model.client []
  return { settings, single, model, client, embedder }

def noDocuments : Fault :=
  .value "No valid documents with embeddings found. Cannot create retriever."

def buildSearcher (settings : Fields) (documents : List Document) : Run Searcher := do
  let limit ← match Fields.get? "retriever" settings with
    | some (.obj fields) => pure ((Fields.get? "top_k" fields).getD (.int 5))
    | some v => throw (.operation s!"argument after ** must be a mapping, not {v.kindName}")
    | none => throw (.key (.str "retriever"))
  match (← get).indexFault with
  | some message => throw (.service message)
  | none => return ⟨limit, documents.length⟩

/-- Prepares the documents of a repository. What could be asked before can still be asked if
that fails. -/
def prepare (r : Retrieval) (address : Json) (hosting : Repository.Hosting) (token : Json)
    (wishes : Wishes) : Run (Retrieval × Result Unit) := do
  let r := { r with documents := [] }
  let (_, found) ← Database.prepare r.settings address hosting token (some r.single) wishes
  match found with
  | .error fault => return (r, .error fault)
  | .ok documents =>
      let r := { r with documents }
      match validated documents with
      | .error fault => return (r, .error fault)
      | .ok kept =>
          let r := { r with documents := kept }
          if kept.isEmpty then return (r, .error noDocuments)
          match ← Run.attempt (buildSearcher r.settings kept) with
          | .ok searcher => return ({ r with searcher := some searcher }, .ok ())
          | .error fault => return (r, .error fault)

/-- How many documents the index gives. A limit that is no whole number is none as long as there
are fewer documents. -/
def wanted (s : Searcher) : Result Int :=
  match s.limit, s.limit.asInt? with
  | _, some n => .ok (min n s.count)
  | .real x, _ =>
      if Float.ofNat s.count < x then .ok s.count
      else .error (.operation "'float' object cannot be interpreted as an integer")
  | v, _ => .error (.operation
      s!"'<' not supported between instances of 'int' and '{v.kindName}'")

def search (s : Searcher) (question : Json) : Run (List Json) := do
  Run.note "retriever" question
  match (← get).ranking with
  | .null =>
      let n ← Run.lift (wanted s)
      return (List.range n.toNat).map Json.nat
  | positions => Run.lift positions.elements

def documentAt (documents : List Document) (position : Json) : Result Document :=
  match position.asInt? with
  | some n => Json.itemAt "list" documents n
  | none => .error (.operation
      s!"list indices must be integers or slices, not {position.kindName}")

def find (r : Retrieval) (question : Json) : Run (List Document) := do
  match r.searcher with
  | none => throw (.attribute "RAG" "retriever")
  | some s => (← search s question).mapM fun i => Run.lift (documentAt r.documents i)

def apologyReason : String := "Error occurred while processing the query."

def apology : String :=
  "I apologize, but I encountered an error while processing your question. Please try again or " ++
  "rephrase your question."

def find? (r : Retrieval) (question : Json) : Run (Option (List Document)) :=
  Run.orElse (do return some (← r.find question)) fun _ => return none

/-- Embeds a question. On the own machine only a single text can be embedded. -/
def embedQuestion (r : Retrieval) (question : Json) : Run Provider.Embeddings := do
  if r.single then
    match question with
    | .arr [q] => Provider.Embedder.embed q
    | .arr _ => throw (.value "Ollama embedder only supports a single string")
    | q => Provider.Embedder.embed q
  else Provider.Embedder.embed question

end Retrieval
end RepoWiki.Index
