import RepoWiki.Json.Access

namespace RepoWiki

inductive Vector where
  | missing
  | value (v : Json)
  | array (shape : List Nat)

namespace Vector

def none : Vector := .value .null

def empty : Vector := .value (.arr [])

def toJson : Vector → Json
  | .missing => .null
  | .value v => v
  | .array shape => .obj [("array", .arr (shape.map Json.nat))]

/-- The number of entries. Of an array of several dimensions the last one counts. Nothing is
measured where there is no vector. -/
def size? : Vector → Option (Result Nat)
  | .missing | .value .null => Option.none
  | .value (.arr items) => some (.ok items.length)
  | .value (.str s) => some (.ok s.length)
  | .value (.obj fields) => some (.ok fields.length)
  | .value _ => Option.none
  | .array shape =>
      match shape.getLast? with
      | some n => some (.ok n)
      | Option.none => some (.error (.index "tuple"))

def pack : Vector → Json
  | .missing => .null
  | .value v => .arr [v]
  | .array shape => .obj [("array", .arr (shape.map Json.nat))]

def natOf (v : Json) : Nat :=
  (v.asInt?.getD 0).toNat

def unpack : Json → Vector
  | .arr [v] => .value v
  | .obj [(_, .arr items)] => .array (items.map natOf)
  | _ => .missing

@[simp] theorem natOf_nat (n : Nat) : natOf (.nat n) = n := by
  simp [natOf, Json.nat, Json.asInt?]

@[simp] theorem unpack_pack (v : Vector) : unpack v.pack = v := by
  cases v with
  | missing => rfl
  | value v => rfl
  | array shape =>
    have h : (shape.map Json.nat).map natOf = shape := by
      simp [Function.comp_def]
    simp only [pack, unpack, h]

end Vector

structure Document where
  text : String
  about : Json := .null
  vector : Vector := .none

namespace Document

def toJson (d : Document) : Json :=
  .obj [("text", .str d.text), ("meta_data", d.about), ("vector", d.vector.toJson)]

def pack (d : Document) : Json :=
  .arr [.str d.text, d.about, d.vector.pack]

def unpack? : Json → Option Document
  | .arr [.str text, about, vector] => some ⟨text, about, .unpack vector⟩
  | _ => none

@[simp] theorem unpack?_pack (d : Document) : unpack? d.pack = some d := by
  simp [pack, unpack?]

def detail? (name : String) (d : Document) : Option Json :=
  d.about.field? name

/-- Asks for the path of the file that a document comes from. There has to be something known
about the document. -/
def askPath (d : Document) : Result Json :=
  d.about.get "file_path"

theorem askPath_of_obj {d : Document} {fields : Fields} (h : d.about = .obj fields) :
    d.askPath = .ok ((Fields.get? "file_path" fields).getD .null) := by
  rw [askPath, h]
  rfl

theorem askPath_of_not_obj {d : Document} (h : ¬∃ fields, d.about = .obj fields) :
    d.askPath = .error (.attribute d.about.kindName "get") := by
  rw [askPath]
  cases habout : d.about with
  | obj fields => exact absurd ⟨fields, habout⟩ h
  | _ => rfl

end Document
end RepoWiki
