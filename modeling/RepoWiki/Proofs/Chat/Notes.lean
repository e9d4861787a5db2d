import RepoWiki.Proofs.Offline
/-
The notes on a project, which only a socket asks for.

Asking for them can fail where the rest of a conversation does not: the address may belong to no
known host, the stored notes may be no text, and the console may not hold what is printed. Two facts
bound the harm. No such fault is the program's own end, so each one can be told to the user, and
nothing of the host changes but files and console (`notesFor_beside`).
-/

namespace RepoWiki

/-! ## What else changes -/

/-- A host that differs from another in files and console only. -/
def Host.Beside (g k : Host) : Prop :=
  ∃ tree printed, k = { g with tree, printed }

theorem Host.Beside.refl (g : Host) : g.Beside g :=
  ⟨g.tree, g.printed, rfl⟩

open Run (Keeps)

instance (g : Host) (f : FileTree → Result FileTree) : Keeps g.Beside (Run.changeTree f) :=
  .changeTree fun _ t ⟨_, printed, hk⟩ _ => ⟨t, printed, by rw [hk]⟩

instance (g : Host) (s : String) : Keeps g.Beside (Run.print s) := by
  unfold Run.print
  refine .andThen inferInstance fun h => ?_
  split
  · exact .modify fun _ ⟨tree, printed, hk⟩ => ⟨tree, printed ++ s ++ "\n", by rw [hk]⟩
  · infer_instance

/-! ## Asking for the notes -/

namespace Outline
namespace Archive

variable (g : Host)

instance : Keeps g.Beside directory := by
  unfold directory
  infer_instance

variable (project : String) (kind : Kind)

instance : Keeps g.Beside (pathOf project kind) := by
  unfold pathOf
  infer_instance

instance : Keeps g.Beside (load project kind) := by
  unfold load
  refine .andThen inferInstance fun path => .andThen inferInstance fun tree => ?_
  split
  · infer_instance
  · split
    · infer_instance
    · split <;> infer_instance

end Archive
end Outline

namespace Chat

/-- Asking for the notes changes files and console only. -/
instance notesFor_beside (g : Host) (channel : Channel) (r : Request) :
    Keeps g.Beside (notesFor channel r) := by
  unfold notesFor Outline.Project.notes
  split <;> infer_instance

def Request.notesName (r : Request) : Result String :=
  if r.kind = some "local" then .ok r.repositoryName else Repository.label r.address

def showNotes (name : String) : Run (Option String) := do
  let notes := (← Outline.Project.notes name).write .indented
  Run.print ("====================================》" ++ notes)
  return some notes

theorem notesFor_socket_on (r : Request) (h : Host) :
    ((notesFor .socket r).on h).1 =
      r.notesName >>= fun name => ((showNotes name).on h).1 := by
  have hparts : notesFor .socket r = Run.lift r.notesName >>= showNotes := by
    unfold notesFor Request.notesName
    dsimp only
    split <;> rfl
  rw [hparts, Run.on_lift_bind]
  cases r.notesName with
  | ok name => rfl
  | error fault => rfl

end Chat
end RepoWiki
