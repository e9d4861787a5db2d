import RepoWiki.Document
/-
The text that goes to the model: the instruction, the conversation so far, a file, what was found
about the question, and the question.
-/

namespace RepoWiki.Chat.Prompt

/-! ## Documents -/

def addToGroup (path : Json) (text : String) : List (Json × List String) → List (Json × List String)
  | [] => [(path, [text])]
  | (p, texts) :: rest =>
      if p.same path then (p, texts ++ [text]) :: rest
      else (p, texts) :: addToGroup path text rest

def groups (texts : List (Json × String)) : List (Json × List String) :=
  texts.foldl (fun done t => addToGroup t.1 t.2 done) []

def located (d : Document) : Result (Json × String) := do
  return (← (← d.about.getD "file_path" (.str "unknown")).asKey, d.text)

def groupText (g : Json × List String) : String :=
  "## File Path: " ++ g.1.inText ++ "\n\n" ++ Text.join "\n\n" g.2

def contextOf (groups : List (Json × List String)) : String :=
  "\n\n" ++ Text.repeated 10 "-" ++ Text.join "\n\n" (groups.map groupText)

def context (documents : List Document) : Result String := do
  if documents.isEmpty then return ""
  return contextOf (groups (← documents.mapM located))

/-! ## Parts -/

def exchange (e : String × String) : String :=
  s!"<turn>\n<user>{e.1}</user>\n<assistant>{e.2}</assistant>\n</turn>\n"

def history (exchanges : List (String × String)) : String :=
  String.join (exchanges.map exchange)

structure Setting where
  instruction : String
  exchanges : List (String × String)
  fileName : String
  file : String

def opening (s : Setting) : String :=
  let told := history s.exchanges
  "/no_think " ++ s.instruction ++ "\n\n" ++
    (if told = "" then ""
      else "<conversation_history>\n" ++ told ++ "</conversation_history>\n\n") ++
    (if s.file = "" then ""
      else "<currentFileContent path=\"" ++ s.fileName ++ "\">\n" ++ s.file ++
        "\n</currentFileContent>\n\n")

def question (text : String) : String :=
  "<query>\n" ++ text ++ "\n</query>\n\nAssistant: "

def contextBlock (s : String) : String :=
  "<START_OF_CONTEXT>\n" ++ s ++ "\n<END_OF_CONTEXT>\n\n"

def plainNote : String :=
  "<note>Answering without retrieval augmentation.</note>\n\n"

def sizeNote : String :=
  "<note>Answering without retrieval augmentation due to input size constraints.</note>\n\n"

def found (context : String) (notes : Option String) : String :=
  match Text.strip context, notes with
  | "", none => plainNote
  | "", some notes => contextBlock notes ++ plainNote
  | _, none => contextBlock context
  | _, some notes => contextBlock (context ++ "\n" ++ notes)

def whole (s : Setting) (context : String) (notes : Option String) (text : String) : String :=
  opening s ++ found context notes ++ question text

def short (s : Setting) (text : String) : String :=
  opening s ++ sizeNote ++ question text

end RepoWiki.Chat.Prompt
