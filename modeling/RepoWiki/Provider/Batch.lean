import RepoWiki.Document
import RepoWiki.Provider.Service

namespace RepoWiki.Provider.Batch

def limit : Int := 25

abbrev Embed := List Json → Run Embeddings

def exceeds (limit : Int) (v : Json) : Result Bool :=
  match v, v.asInt? with
  | _, some n => .ok (limit < n)
  | .real x, _ => .ok (Float.ofInt limit < x)
  | v, _ => .error (.operation
      s!"'>' not supported between instances of '{v.kindName}' and 'int'")

def size (asked : Json) : Result Json := do
  return if ← exceeds limit asked then .int limit else asked

def asCount (v : Json) : Result Int :=
  match v.asInt? with
  | some n => .ok n
  | none => .error (.operation s!"'{v.kindName}' object cannot be interpreted as an integer")

def directory : String := "./embedding_cache"

/-- Under what results are kept: a name, and the class of the embedder. -/
structure Label where
  name : String
  kind : String

def Label.stem (l : Label) : String :=
  l.name ++ "_" ++ l.kind

def path (stem : String) : String :=
  s!"{directory}/{stem}_dashscope_embeddings.pkl"

def slices {α : Type} (k : Nat) : List α → List (List α)
  | [] => []
  | x :: rest => (x :: rest.take k) :: slices k (rest.drop k)
termination_by l => l.length
decreasing_by simp only [List.length_cons, List.length_drop]; omega

/-- The batches of a size. An object has a length, and no parts that could be a batch. -/
def batches (size input : Json) : Result (List (List Json)) := do
  let length ← input.size
  match ← asCount size with
  | .ofNat 0 => throw (.value "range() arg 3 must not be zero")
  | .negSucc _ => return []
  | .ofNat (k + 1) =>
      match input with
      | .arr texts => return slices k texts
      | _ => if length = 0 then return [] else throw (.operation "unhashable type: 'slice'")

/-! ## The file of results -/

def Embedded.pack : Embedded → Json
  | .vector values index => .arr [values, index]
  | .bare v => .arr [v]

def Embedded.unpack? : Json → Option Embedded
  | .arr [values, index] => some (.vector values index)
  | .arr [v] => some (.bare v)
  | _ => none

def packOption {α : Type} (f : α → Json) : Option α → Json
  | none => .arr []
  | some x => .arr [f x]

def unpackOption? {α : Type} (f : Json → Option α) : Json → Option (Option α)
  | .arr [] => some none
  | .arr [v] => (f v).map some
  | _ => none

def pack (e : Embeddings) : Json :=
  .arr [packOption (fun es => .arr (es.map Embedded.pack)) e.data, packOption Json.str e.error,
    e.raw, e.input]

def unpackData? : Json → Option (List Embedded)
  | .arr items => items.mapM Embedded.unpack?
  | _ => none

def unpack? : Json → Option Embeddings
  | .arr [data, error, raw, input] => do
      return ⟨← unpackOption? unpackData? data, ← unpackOption? Json.asText? error, raw, input⟩
  | _ => none

def stored? (tree : FileTree) (file : String) : Option (List Embeddings) :=
  match tree.open? file with
  | .ok (.value (.arr items)) => items.mapM unpack?
  | _ => none

def makeRoom (tree : FileTree) : Result FileTree :=
  if tree.exists? directory then .ok tree else tree.makeDirectories directory

def keep (file : String) (results : List Embeddings) : Run Unit := do
  Run.changeTree makeRoom
  Run.changeTree fun tree => tree.write file (.value (.arr (results.map pack)))

/-! ## Embedding -/

def embedOne (embed : Embed) (texts : List Json) : Run Embeddings :=
  Run.orElse (embed texts) fun fault => return .failed fault.message

def listed : Json → Json
  | .str s => .arr [.str s]
  | v => v

def fresh (embed : Embed) (size input : Json) : Run (List Embeddings) := do
  (← Run.lift (batches size (listed input))).mapM (embedOne embed)

/-- The results for some texts. Results that are in the file already are taken from there, whatever
the texts, unless they are to be made again. -/
def run (embed : Embed) (size : Json) (label : Label) (again : Bool) (input : Json) :
    Run (List Embeddings) := do
  let file := path label.stem
  let tree ← Run.tree
  match if again then none else stored? tree file with
  | some results => return results
  | none =>
      let results ← fresh embed size input
      Run.orElse (keep file results) fun _ => pure ()
      return results

/-- The vectors that a result holds for its batch, where `left` texts have none yet. A batch that
failed gives empty vectors, as many as were asked to be in it, and so does an entry that is no
vector. -/
def vectorsOf (asked : Json) (left : Nat) (e : Embeddings) : Result (List Json) := do
  if (e.error.getD "") ≠ "" then
    let count ← if ← exceeds left asked then pure (left : Int) else asCount asked
    return List.replicate count.toNat (.arr [])
  match e.data with
  | some entries => return entries.map fun x => x.values?.getD (.arr [])
  | none => throw (.operation "'NoneType' object is not iterable")

/-- The vectors of documents in turn, as far as there are new ones; the documents after them keep
those that they have. -/
def assign (asked : Json) : List Vector → List Embeddings → Result (List Vector)
  | old, [] => .ok old
  | old, e :: rest => do
      let found := (← vectorsOf asked old.length e).take old.length
      return found.map .value ++ (← assign asked (old.drop found.length) rest)

/-- Looks at a vector to see whether it is empty. A value that counts as true has to have a length,
and of an array with several entries it cannot be told whether it counts as true. -/
def checkVector : Vector → Result Unit
  | .missing => .ok ()
  | .value v => if v.truthy then do let _ ← v.size else .ok ()
  | .array shape =>
      if 1 < shape.foldl (· * ·) 1 then
        .error (.value <| "The truth value of an array with more than one element is ambiguous. " ++
          "Use a.any() or a.all()")
      else .ok ()

def vectorsFor (embed : Embed) (asked : Json) (label : Label) (again : Bool) (texts : List Json)
    (old : List Vector) : Run (List Vector) := do
  let results ← run embed (← Run.lift (size asked)) label again (.arr texts)
  let vectors ← Run.lift (assign asked old results)
  Run.lift (vectors.forM checkVector)
  return vectors

def embedDocuments (embed : Embed) (asked : Json) (label : Label) (again : Bool)
    (documents : List Document) : Run (List Document) := do
  let texts := documents.map fun d => Json.str d.text
  let vectors ← vectorsFor embed asked label again texts (documents.map Document.vector)
  return documents.zipWith (fun d v => { d with vector := v }) vectors

def describe (asked : Json) : String :=
  "batch_size=" ++ asked.inText

end RepoWiki.Provider.Batch
