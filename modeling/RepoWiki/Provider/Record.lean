import RepoWiki.Json.Access
/-
Replies of model services. An object of a reply is a record: its fields are asked for by name,
it is neither a list nor a table, and its text is its written form.
-/

namespace RepoWiki.Provider.Record

def recordKind : String := "Obj"

def kindName : Json → String
  | .obj _ => recordKind
  | v => v.kindName

def has (name : String) (v : Json) : Bool :=
  (v.field? name).isSome

def fieldOf (owner name : String) (v : Json) : Result Json :=
  match v with
  | .obj fields =>
      match Fields.get? name fields with
      | some x => .ok x
      | none => .error (.attribute owner name)
  | v => .error (.attribute v.kindName name)

def field (name : String) (v : Json) : Result Json :=
  fieldOf recordKind name v

def first (v : Json) : Result Json :=
  match v with
  | .obj _ => .error (.operation s!"'{recordKind}' object is not subscriptable")
  | v => v.first

def elements (v : Json) : Result (List Json) :=
  match v with
  | .obj _ => .error (.operation s!"'{recordKind}' object is not iterable")
  | v => v.elements

def size (v : Json) : Result Nat :=
  match v with
  | .obj _ => .error (.operation s!"object of type '{recordKind}' has no len()")
  | v => v.size

def truthy : Json → Bool
  | .obj _ => true
  | v => v.truthy

mutual

def display : Json → String
  | .obj fields => (Json.obj fields).write .canonical
  | .arr items => "[" ++ ", ".intercalate (displayItems items) ++ "]"
  | v => v.display

def displayItems : List Json → List String
  | [] => []
  | v :: rest => display v :: displayItems rest

end

def inText : Json → String
  | .str s => s
  | v => display v

end RepoWiki.Provider.Record
