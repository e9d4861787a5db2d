import RepoWiki.Json.Access

namespace RepoWiki

inductive Turn where
  | record (parts : Fields)
  | bare (v : Json)

namespace Turn

def ofTexts (id : String) (user assistant : Json) : Turn :=
  .record [("id", .str id), ("user_query", .obj [("query_str", user)]),
    ("assistant_response", .obj [("response_str", assistant)])]

def ofRecord : Json → Turn
  | .obj parts => .record parts
  | v => .bare v

def part? (name : String) : Turn → Option Json
  | .record parts => Fields.get? name parts
  | .bare _ => none

def id? (t : Turn) : Option Json :=
  (t.part? "id").filter fun id => !id.isNull

def user (t : Turn) : Json :=
  ((t.part? "user_query").bind fun q => q.field? "query_str").getD .null

def assistant (t : Turn) : Json :=
  ((t.part? "assistant_response").bind fun r => r.field? "response_str").getD .null

end Turn

inductive Turns where
  | list (items : List Turn)
  | record
  | bare (v : Json)

namespace Turns

def ofValue : Json → Turns
  | .arr items => .list (items.map .bare)
  | v => .bare v

def ofRecord : Json → Turns
  | .arr items => .list (items.map Turn.ofRecord)
  | .obj _ => .record
  | v => .bare v

def items? : Turns → Option (List Turn)
  | .list items => some items
  | .record => none
  | .bare v => if v.truthy then (v.elements.toOption).map fun vs => vs.map .bare else some []

end Turns

/-- Whether a conversation can take a turn by itself. -/
inductive Taking where
  | able
  | spoilt
  | unable
  deriving DecidableEq, Repr

structure Conversation where
  taking : Taking := .able
  closed : Bool := false
  turns : Option Turns := some (.list [])

namespace Conversation

def kindName : String := "Conversation"

def ofRecord (v : Json) : Conversation where
  taking := if (v.field? "append_dialog_turn").isSome then .spoilt else .unable
  closed := v.asFields?.isNone
  turns := (v.field? "dialog_turns").map Turns.ofRecord

def canBeKey : Json → Bool
  | .arr _ => false
  | _ => true

/-- The turns that have an id, by their ids; the flag tells whether all could be looked at. -/
def entriesFrom (done : List (Json × Turn)) : List Turn → List (Json × Turn) × Bool
  | [] => (done, true)
  | t :: rest =>
      match t.id? with
      | none => entriesFrom done rest
      | some id => if canBeKey id then entriesFrom (Json.setEntry id t done) rest else (done, false)

def entries (c : Conversation) : List (Json × Turn) × Conversation :=
  match c.turns with
  | none => ([], if c.closed then {} else { c with turns := some (.list []) })
  | some turns =>
      match turns.items? with
      | none => ([], {})
      | some items =>
          match entriesFrom [] items with
          | (found, true) => (found, c)
          | (found, false) => (found, {})

def push? (c : Conversation) (t : Turn) : Option Conversation :=
  match c.turns with
  | some (.list items) => some { c with turns := some (.list (items ++ [t])) }
  | none => if c.closed then none else some { c with turns := some (.list [t]) }
  | _ => none

/-- Adds a turn. `make` gives a turn a new id each time; a conversation that cannot take the turn
is replaced by a new one, and the turn is made again. -/
def add (c : Conversation) (make : Nat → Turn) (made : Nat) : Conversation × Nat :=
  let c := if c.taking = .unable then {} else c
  match c.push? (make made) with
  | some c => (c, made + 1)
  | none => ({ turns := some (.list [make (made + 1)]) }, made + 2)

/-- Adds something as a turn; a conversation that is none has no way to do that. -/
def append (c : Conversation) (t : Turn) : Result Conversation :=
  match c.taking with
  | .unable => .error (.attribute kindName "append_dialog_turn")
  | .spoilt => .error (.operation "object is not callable")
  | .able =>
      match c.push? t with
      | some c => .ok c
      | none => .error (.attribute kindName "append")

def dropTurns (c : Conversation) : Result Conversation :=
  match c.turns with
  | some _ => .ok { c with turns := none }
  | none => .error (.attribute kindName "dialog_turns")

def setTurns (c : Conversation) (turns : Turns) : Result Conversation :=
  if c.closed then .error (.attribute kindName "dialog_turns")
  else .ok { c with turns := some turns }

def length? (c : Conversation) : Option Nat :=
  match c.turns with
  | some (.list items) => some items.length
  | _ => none

end Conversation
end RepoWiki
