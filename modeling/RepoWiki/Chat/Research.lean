import RepoWiki.Chat.Request
/-
What is asked. A conversation with a mark in it is a research over several rounds, and a question
that only asks to go on stands for the question it began with.
-/

namespace RepoWiki.Chat
namespace Research

def mark : String := "[DEEP RESEARCH]"

def topicOf (s : String) : String :=
  Text.strip (Text.replaceAll mark "" s)

def isMarked (m : Message) : Bool :=
  Text.hasInfix mark m.content

/-- The last message, and every message that is the same, without its mark. -/
def unmark (last m : Message) : Message :=
  if isMarked m && m == last then { m with content := topicOf m.content } else m

def saysContinue (s : String) : Bool :=
  Text.hasInfix "continue" (Text.lower s)

def asksToContinue (s : String) : Bool :=
  saysContinue s && Text.hasInfix "research" (Text.lower s)

/-- The question of the first message of the user that does not speak of going on. -/
def firstTopic (messages : List Message) : String :=
  ((messages.find? fun m => m.isFromUser && !saysContinue m.content).map fun m =>
    topicOf m.content).getD ""

def round (messages : List Message) : Nat :=
  (messages.filter Message.isFromAssistant).length + 1

end Research

structure Question where
  text : String
  round : Option Nat

def Question.ofMessages (messages : List Message) (last : Message) : Question :=
  if messages.any Research.isMarked then
    let unmarked := messages.map (Research.unmark last)
    let text := (Research.unmark last last).content
    let topic := Research.firstTopic unmarked
    let text := if Research.asksToContinue text && topic ≠ "" then topic else text
    ⟨text, some (Research.round messages)⟩
  else ⟨last.content, none⟩

/-- The exchanges of a conversation: pairs of a message of the user and one of the assistant, at
even places. -/
def exchanges : List Message → List (String × String)
  | user :: assistant :: rest =>
      if user.isFromUser && assistant.isFromAssistant then
        (user.content, assistant.content) :: exchanges rest
      else exchanges rest
  | _ => []

end RepoWiki.Chat
