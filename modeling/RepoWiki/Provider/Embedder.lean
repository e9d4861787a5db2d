import RepoWiki.Provider.Service

namespace RepoWiki.Provider.Embedder

def plainVector : Json :=
  .arr [.real 0.5, .real 0.5]

/-- The entries for texts from a position on. A text may have no entry, spoil the whole reply,
or make the service give up. -/
def entries (table : Fields) : Nat → List Json → Result (Except String (List Embedded))
  | _, [] => .ok (.ok [])
  | i, t :: rest => do
      let t ← t.asKey
      let following := entries table (i + 1) rest
      match (t.asText?.bind fun s => Fields.get? s table).getD plainVector with
      | .null => following
      | .obj fields =>
          match Fields.get? "raise" fields, Fields.get? "error" fields with
          | some message, _ => .error (.service message.inText)
          | none, some message => .ok (.error message.inText)
          | none, none =>
              let bare := Embedded.bare ((Fields.get? "bare" fields).getD .null)
              return (← following).map (bare :: ·)
      | vector => return (← following).map (.vector vector (.nat i) :: ·)

def embed (input : Json) : Run Embeddings := do
  Run.note "embedder" input
  let texts := match input with
    | .arr items => items
    | v => [v]
  match ← Run.lift (entries (← get).embeddings 0 texts) with
  | .ok found => return { data := some found }
  | .error message => return .failed message

end RepoWiki.Provider.Embedder
