import RepoWiki.Document

namespace RepoWiki.Index

def vectorSizes (documents : List Document) : List Nat :=
  documents.filterMap fun d =>
    match d.vector.size? with
    | some (.ok n) => if n = 0 then none else some n
    | _ => none

/-- The more frequent of two sizes, the first one if they are equally frequent. -/
def moreFrequent (sizes : List Nat) (a b : Nat) : Nat :=
  if sizes.count a < sizes.count b then b else a

/-- The most frequent size; of several the one that comes first. -/
def commonSize? : List Nat → Option Nat
  | [] => none
  | n :: rest => some (rest.foldl (moreFrequent (n :: rest)) n)

/-- Whether a document is kept. The path of a document that is not kept is asked for, which
fails if nothing is known about the document. -/
def keeps (size : Nat) (d : Document) : Result Bool :=
  match d.vector.size? with
  | none => .ok false
  | some (.ok n) => if n = size then .ok true else do let _ ← d.askPath; return false
  | some (.error _) => do let _ ← d.askPath; return false

def validated (documents : List Document) : Result (List Document) :=
  match commonSize? (vectorSizes documents) with
  | none => .ok []
  | some size => documents.filterM (keeps size)

end RepoWiki.Index
