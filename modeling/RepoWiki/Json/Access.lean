import RepoWiki.Decimal.Nearest
import RepoWiki.Fault
/-
Reaching into values whose shape is not known. Each operation works on some kinds of values and
fails on the others with a text that names the kind.
-/

namespace RepoWiki.Json

def item (key : String) (v : Json) : Result Json :=
  match v with
  | .obj fields =>
      match Fields.get? key fields with
      | some x => .ok x
      | none => .error (.key (.str key))
  | .arr _ => .error (.operation "list indices must be integers or slices, not str")
  | .str _ => .error (.operation "string indices must be integers, not 'str'")
  | v => .error (.operation s!"'{v.kindName}' object is not subscriptable")

def isAtomic : Json → Bool
  | .arr _ | .obj _ => false
  | _ => true

def asKey (v : Json) : Result Json :=
  if v.isAtomic then .ok v else .error (.operation s!"unhashable type: '{v.kindName}'")

/-- The item at an index, which counts from the end if it is negative. -/
def itemAt {α : Type} (what : String) (items : List α) (n : Int) : Result α :=
  let place := if n < 0 then n + items.length else n
  match if place < 0 then none else items[place.toNat]? with
  | some x => .ok x
  | none => .error (.index what)

def first (v : Json) : Result Json :=
  match v with
  | .arr (x :: _) => .ok x
  | .arr [] => .error (.index "list")
  | .str s =>
      match s.toList with
      | c :: _ => .ok (.str (String.singleton c))
      | [] => .error (.index "string")
  | .obj _ => .error (.key (.int 0))
  | v => .error (.operation s!"'{v.kindName}' object is not subscriptable")

/-- The field of an object, or a default; other values have no fields to ask for. -/
def getD (key : String) (v : Json) (default : Json) : Result Json :=
  match v with
  | .obj fields => .ok ((Fields.get? key fields).getD default)
  | v => .error (.attribute v.kindName "get")

def get (key : String) (v : Json) : Result Json :=
  v.getD key .null

def asInt? : Json → Option Int
  | .bool b => some (if b then 1 else 0)
  | .int n => some n
  | _ => none

def sameNumber (a b : Json) : Bool :=
  match a, b, a.asInt?, b.asInt? with
  | .real x, .real y, _, _ => x == y
  | .real x, _, _, some n => Decimal.whole? x == some n
  | _, .real y, some n, _ => Decimal.whole? y == some n
  | _, _, some m, some n => m == n
  | _, _, _, _ => false

mutual

/-- Equality: numbers by value, objects without regard to the order of their fields. -/
def same : Json → Json → Bool
  | .null, .null => true
  | .str a, .str b => a == b
  | .arr as, .arr bs => sameItems as bs
  | .obj as, .obj bs => as.length == bs.length && sameFields as bs
  | a, b => sameNumber a b

def sameItems : List Json → List Json → Bool
  | [], [] => true
  | a :: as, b :: bs => same a b && sameItems as bs
  | _, _ => false

def sameFields : List (String × Json) → List (String × Json) → Bool
  | [], _ => true
  | (k, v) :: rest, bs =>
      (match Fields.get? k bs with
        | some w => same v w
        | none => false) && sameFields rest bs

end

def setEntry {α : Type} (key : Json) (value : α) : List (Json × α) → List (Json × α)
  | [] => [(key, value)]
  | (k, v) :: rest => if k.same key then (k, value) :: rest else (k, v) :: setEntry key value rest

def index (key v : Json) : Result Json :=
  match v, key.asInt? with
  | .obj fields, _ => do
      match ← key.asKey with
      | .str s => (Json.obj fields).item s
      | k => .error (.key k)
  | .arr items, some n => itemAt "list" items n
  | .arr _, none =>
      .error (.operation s!"list indices must be integers or slices, not {key.kindName}")
  | .str s, some n => do return .str (String.singleton (← itemAt "string" s.toList n))
  | .str _, none => .error (.operation s!"string indices must be integers, not '{key.kindName}'")
  | v, _ => .error (.operation s!"'{v.kindName}' object is not subscriptable")

def includes (key v : Json) : Result Bool :=
  match v, key with
  | .obj fields, key => do
      match ← key.asKey with
      | .str s => return Fields.has s fields
      | _ => return false
  | .arr items, key => .ok (items.any key.same)
  | .str s, .str part => .ok (Text.hasInfix part s)
  | .str _, key => .error (.operation
      s!"'in <string>' requires string as left operand, not {key.kindName}")
  | v, _ => .error (.operation s!"argument of type '{v.kindName}' is not iterable")

def holds (key : String) (v : Json) : Result Bool :=
  match v with
  | .obj fields => .ok (Fields.has key fields)
  | .arr items => .ok (items.any (same (.str key)))
  | .str s => .ok (Text.hasInfix key s)
  | v => .error (.operation s!"argument of type '{v.kindName}' is not iterable")

def elements (v : Json) : Result (List Json) :=
  match v with
  | .arr items => .ok items
  | .obj fields => .ok (fields.map fun f => .str f.1)
  | .str s => .ok (s.toList.map fun c => .str (String.singleton c))
  | v => .error (.operation s!"'{v.kindName}' object is not iterable")

def size (v : Json) : Result Nat :=
  match v with
  | .arr items => .ok items.length
  | .obj fields => .ok fields.length
  | .str s => .ok s.length
  | v => .error (.operation s!"object of type '{v.kindName}' has no len()")

def textAfter (s : String) (v : Json) : Result String :=
  match v with
  | .str t => .ok (s ++ t)
  | v => .error (.operation s!"can only concatenate str (not \"{v.kindName}\") to str")

def textBefore (v : Json) (t : String) : Result String :=
  match v with
  | .str s => .ok (s ++ t)
  | .arr _ => .error (.operation "can only concatenate list (not \"str\") to list")
  | v => .error (.operation s!"unsupported operand type(s) for +: '{v.kindName}' and 'str'")

def asWord (operation : String) (v : Json) : Result String :=
  match v with
  | .str s => .ok s
  | v => .error (.attribute v.kindName operation)

def asSubject (v : Json) : Result String :=
  match v with
  | .str s => .ok s
  | v => .error (.operation s!"expected string or bytes-like object, got '{v.kindName}'")

def asPath (v : Json) : Result String :=
  match v with
  | .str s => .ok s
  | v => .error (.operation s!"expected str, bytes or os.PathLike object, not {v.kindName}")

end RepoWiki.Json
