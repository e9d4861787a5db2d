/-
Values of the data format that configurations, requests, replies and stored results share.
Objects keep their fields in the order in which they were first written.
-/

namespace RepoWiki

/-- A structured value. Whole numbers and doubles are told apart. -/
inductive Json where
  | null
  | bool (b : Bool)
  | int (n : Int)
  | real (x : Float)
  | str (s : String)
  | arr (items : List Json)
  | obj (fields : List (String × Json))
  deriving Inhabited

/-- Fields in the order in which they were first written, each key once. -/
abbrev Fields := List (String × Json)

namespace Fields

def get? (key : String) : Fields → Option Json
  | [] => none
  | (k, v) :: rest => if k = key then some v else get? key rest

def has (key : String) (fields : Fields) : Bool :=
  (fields.get? key).isSome

/-- Writes a value: in place if the key is there, at the end otherwise. -/
def set (key : String) (value : Json) : Fields → Fields
  | [] => [(key, value)]
  | (k, v) :: rest => if k = key then (k, value) :: rest else (k, v) :: set key value rest

def merge (fields update : Fields) : Fields :=
  update.foldl (fun acc (k, v) => Fields.set k v acc) fields

def erase (key : String) (fields : Fields) : Fields :=
  fields.filter fun f => f.1 ≠ key

def keys (fields : Fields) : List String :=
  fields.map (·.1)

end Fields

namespace Json

def field? (key : String) : Json → Option Json
  | .obj fields => Fields.get? key fields
  | _ => none

def isNull : Json → Bool
  | .null => true
  | _ => false

/-- A value counts as false if it is null, false, zero or empty. -/
def truthy : Json → Bool
  | .null => false
  | .bool b => b
  | .int n => n ≠ 0
  | .real x => x != 0.0
  | .str s => s ≠ ""
  | .arr items => !items.isEmpty
  | .obj fields => !fields.isEmpty

def ofOption (v : Option Json) : Json :=
  v.getD .null

def ofText? (s : Option String) : Json :=
  (s.map Json.str).getD .null

def nat (n : Nat) : Json :=
  .int n

def texts (items : List String) : Json :=
  .arr (items.map Json.str)

def asText? : Json → Option String
  | .str s => some s
  | _ => none

def asItems? : Json → Option (List Json)
  | .arr items => some items
  | _ => none

def asFields? : Json → Option Fields
  | .obj fields => some fields
  | _ => none

end Json
end RepoWiki
