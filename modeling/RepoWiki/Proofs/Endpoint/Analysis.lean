import RepoWiki.Endpoint.Analysis
import RepoWiki.Proofs.Json.Halves
import RepoWiki.Proofs.Outline.Notes
/-
Storing notes on request. A request that is refused, or that fails before its notes are written,
leaves all files as they were; only the directory of the archive may have been made. From the point
where the file is opened it is too late for that: a value is written piece by piece, and one with
half of a pair in it is told as a problem when part of its text has already replaced the notes that
were there (`half_loses_notes`). `saveNotes_outcome` says which of these happens.
-/

namespace RepoWiki.Endpoint.Analysis

open Json Outline.Archive Outline.Project Run

/-! ## Answers -/

theorem projectOf_on (request : Json) (h : Host) : ((projectOf request).on h).2 = h := by
  have hkeeps : Keeps (· = h) (projectOf request) := by
    unfold projectOf copyOf
    infer_instance
  exact hkeeps.after h rfl

theorem projectOf_local {request path : Json}
    (hkind : request.getD "type" (.str "github") = .ok (.str "local"))
    (hpath : request.get "local_path" = .ok path) (htruthy : path.truthy = true) (h : Host) :
    (projectOf request).on h = (.ok (.ok path), h) := by
  have hlocal : (str "local").same (.str "local") = true := by simp [same]
  rw [projectOf, on_lift_bind, hkind, next_ok, if_pos hlocal, hpath, on_lift_bind,
    next_ok, if_pos htruthy, on_pure]

/-- What becomes of the outcome of a step: a fault is told, unless it is the program's end. -/
def told : Result Json × Host → Result Json × Host
  | (.ok answer, k) => (.ok answer, k)
  | (.error fault, k) =>
      if isExit fault then (.error fault, k) else (.ok (problem fault.message), k)

theorem on_orElse_told {step : Run Json} (h : Host) :
    (orElse step fun fault => return problem fault.message).on h = told (step.on h) := by
  rcases hs : step.on h with ⟨fault | answer, k⟩
  · rw [told]
    cases hexit : isExit fault with
    | true =>
      obtain ⟨code, rfl⟩ := exit_of_isExit hexit
      rw [on_orElse_exit hs, if_pos rfl]
    | false => rw [on_orElse_error hs hexit, on_pure, if_neg (by simp)]
  · exact on_orElse_ok hs _

/-! ## Storing notes -/

/-- What a request to store notes comes down to: a directory, and a text with the value in it. -/
structure Asked (h : Host) (request : Json) (dir text : String) (notes : Json) : Prop where
  located : ∃ project, (projectOf request).on h = (.ok (.ok project), h) ∧
    (locate project).on h = (.ok dir, h)
  given : request.get "summarize_text" = .ok (.str text)
  value : read text = .ok notes

/-- How a request to store notes may end, before a fault is told. -/
inductive Ending (request : Json) (h : Host) : Result Json × Host → Prop
  | failed {fault : Fault} {k : Host} (calm : Calm h k) : Ending request h (.error fault, k)
  | refused {message : String} {k : Host} (calm : Calm h k) :
      Ending request h (.ok (problem message), k)
  | noted {dir text : String} {notes : Json} {k : Host} (asked : Asked h request dir text notes)
      (whole : Json.Halves.cut? .indented text = none)
      (noted : Noted h dir (notes.write .indented) k) :
      Ending request h
        (match h.console.check s!"Summarize text saved to: {notesFile h.home dir}" with
          | .ok _ => .ok (success [])
          | .error fault => .error (.encode fault), k)
  | cut {dir text written : String} {notes : Json} {fault : EncodeFault} {k : Host}
      (asked : Asked h request dir text notes)
      (broken : Json.Halves.cut? .indented text = some (written, fault))
      (noted : Noted h dir written k) : Ending request h (.error (.encode fault), k)

theorem written_ending {request project notes : Json} {text : String} {h : Host}
    (hproject : (projectOf request).on h = (.ok (.ok project), h))
    (hgiven : request.get "summarize_text" = .ok (.str text))
    (hread : read text = .ok notes) :
    Ending request h ((do
      match Json.Halves.cut? .indented text with
      | none => Outline.Project.saveNotes project notes
      | some (written, fault) => Outline.Project.writeNotes project written (some fault)
      return success [] : Run Json).on h) := by
  have hasked : ∀ {dir}, (locate project).on h = (.ok dir, h) →
      Asked h request dir text notes := fun hdir => ⟨⟨project, hproject, hdir⟩, hgiven, hread⟩
  cases hcut : Json.Halves.cut? .indented text with
  | none =>
    dsimp only
    rw [Outline.Project.saveNotes]
    rcases writeNotes_outcome project (notes.write .indented) none h with
      ⟨fault, k, hfailed, hk⟩ | ⟨dir, k, hlocate, hnoted, hwrote⟩
    · rw [on_bind_error hfailed]
      exact .failed hk
    · have hend := Ending.noted (hasked hlocate) hcut hnoted
      dsimp only at hwrote
      cases hsaid : h.console.check s!"Summarize text saved to: {notesFile h.home dir}" with
      | ok _ =>
        rw [hsaid] at hwrote hend
        rwa [on_bind_ok hwrote, on_pure]
      | error fault =>
        rw [hsaid] at hwrote hend
        rwa [on_bind_error hwrote]
  | some broken =>
    obtain ⟨written, fault⟩ := broken
    dsimp only
    rcases writeNotes_outcome project written (some fault) h with
      ⟨fault, k, hfailed, hk⟩ | ⟨dir, k, hlocate, hnoted, hwrote⟩
    · rw [on_bind_error hfailed]
      exact .failed hk
    · rw [on_bind_error hwrote]
      exact .cut (hasked hlocate) hcut hnoted

theorem saveNotes_ending (request : Json) (h : Host) :
    ∃ out, (saveNotes request).on h = told out ∧ Ending request h out := by
  rw [saveNotes, answer, on_orElse_told]
  refine ⟨_, rfl, ?_⟩
  have hsame := projectOf_on request h
  rcases hproject : (projectOf request).on h with ⟨fault | ⟨message | project⟩, k⟩ <;>
    rw [hproject] at hsame <;> obtain rfl : k = h := hsame
  · rw [on_bind_error hproject]
    exact .failed (.refl k)
  · rw [on_bind_ok hproject, on_pure]
    exact .refused (.refl k)
  rw [on_bind_ok hproject, on_lift_bind]
  cases hgiven : request.get "summarize_text" with
  | error fault => exact .failed (.refl k)
  | ok v =>
    rw [next_ok]
    cases v with
    | str text =>
      dsimp only
      cases hread : read text with
      | error fault =>
        cases fault with
        | json message =>
          rw [on_pure]
          exact .refused (.refl k)
        | _ =>
          rw [on_throw]
          exact .failed (.refl k)
      | ok notes => exact written_ending hproject hgiven hread
    | _ =>
      rw [on_throw]
      exact .failed (.refl k)

/-- No file has changed, and the same notes are found as before. -/
structure Unharmed (h k : Host) : Prop where
  files : ∀ p c m, k.tree.lookup? p = some (.file c m) ↔ h.tree.lookup? p = some (.file c m)
  notes : ∀ name, ((notes name).on k).1 = ((notes name).on h).1

theorem unharmed {h k : Host} (hk : Calm h k) : Unharmed h k :=
  ⟨fun _ _ _ => hk.file, fun name => hk.load name .notes⟩

def spelled (text : String) : String :=
  String.ofList ((Json.Halves.parts text.toList).flatMap Json.Halves.Part.spell)

/-- What a request to store notes does. If it fails before anything is written, no file has changed
and all notes are found as before. Otherwise the value is written: if no half of a pair stops that,
the notes that are found are the value, and success is told unless the console refuses the line
about it. If a half does, a problem is told and the earlier notes are lost: their file holds the
text of the value up to the piece with the half. -/
theorem saveNotes_outcome {h : Host} (hrooted : h.tree.Rooted) (request : Json) :
    match (saveNotes request).on h with
    | (.error fault, k) => Run.isExit fault = true ∧ Unharmed h k
    | (.ok answer, k) =>
        (∃ message, answer = problem message) ∧ Unharmed h k ∨
        ∃ dir text notes, Asked h request dir text notes ∧
          match Json.Halves.cut? .indented text with
          | none =>
              ((Outline.Project.notes (Path.base dir)).on k).1 = .ok notes ∧
              answer =
                match h.console.check s!"Summarize text saved to: {notesFile h.home dir}" with
                | .ok _ => success []
                | .error fault => problem (Fault.encode fault).message
          | some (written, fault) =>
              answer = problem (Fault.encode fault).message ∧
              k.tree.open? (notesFile h.home dir) = .ok (.text written) ∧
              ∃ v, read (spelled text) = .ok v ∧
                Json.Halves.Cut .indented v written fault := by
  obtain ⟨out, hout, hend⟩ := saveNotes_ending request h
  rw [hout]
  cases hend with
  | @failed fault k calm =>
    rw [told]
    cases hexit : Run.isExit fault with
    | true => exact ⟨hexit, unharmed calm⟩
    | false => exact .inl ⟨⟨fault.message, rfl⟩, unharmed calm⟩
  | @refused message k calm => exact .inl ⟨⟨message, rfl⟩, unharmed calm⟩
  | @noted dir text notes k asked whole noted =>
    have hfound := noted.notes hrooted (legible_of_read asked.value)
    cases hsaid : h.console.check s!"Summarize text saved to: {notesFile h.home dir}" with
    | ok _ =>
      refine .inr ⟨dir, text, notes, asked, ?_⟩
      rw [whole]
      exact ⟨hfound, by rw [hsaid]⟩
    | error fault =>
      refine .inr ⟨dir, text, notes, asked, ?_⟩
      rw [whole]
      exact ⟨hfound, by rw [hsaid]⟩
  | @cut dir text written notes fault k asked broken noted =>
    refine .inr ⟨dir, text, notes, asked, ?_⟩
    rw [broken]
    exact ⟨rfl, noted.open? hrooted, Json.Halves.cut?_eq_some Shelf.indented_spaced broken⟩

/-! ### A project with notes -/

def noteless : Host :=
  { tree := { cwd := "/", entries := [(["p"], .directory none)] } }

theorem noteless_rooted : noteless.tree.Rooted := by
  apply FileTree.rooted_of_entries
  intro x hx
  obtain rfl := List.mem_singleton.1 hx
  exact FileTree.isDir_nil _

def noting (text : String) : Json :=
  .obj [("local_path", .str "p"), ("type", .str "local"), ("summarize_text", .str text)]

def shown (project : String) (h : Host) : Option String :=
  ((notes project).on h).1.toOption.map (write .compact)

def succeeds : Result Json → Bool
  | .ok answer => answer.same (success [])
  | .error _ => false

theorem not_succeeds_problem (message : String) : succeeds (.ok (problem message)) = false := by
  simp [succeeds, problem, success, same]

def plainNotes : Json :=
  .obj [("a", .str "b")]

theorem plainNotes_legible : Json.Legible depthLimit plainNotes := by
  refine .obj (by decide) fun f hf => ?_
  obtain rfl := List.mem_singleton.1 hf
  exact .str "b"

def notingPlain : Json :=
  noting (plainNotes.write .indented)

theorem asked_plain {dir text : String} {notes : Json}
    (h : Asked noteless notingPlain dir text notes) :
    Path.base dir = "p" ∧ Json.Halves.cut? .indented text = none ∧ notes = plainNotes := by
  obtain ⟨project, hproject, hdir⟩ := h.located
  have hgiven : notingPlain.get "summarize_text" = .ok (.str (plainNotes.write .indented)) := rfl
  obtain rfl : plainNotes.write .indented = text :=
    str.inj (Except.ok.inj (hgiven.symm.trans h.given))
  have hvalue := (read_write Shelf.indented_spaced plainNotes_legible).symm.trans h.value
  have hfound := @projectOf_local notingPlain (.str "p") rfl rfl rfl noteless
  obtain rfl : str "p" = project := by
    rw [hfound, Prod.mk.injEq, Except.ok.injEq, Except.ok.injEq] at hproject
    exact hproject.1
  have hplace : ((locate (.str "p")).on noteless).1.toOption = some "/p" := by decide +kernel
  rw [hdir] at hplace
  obtain rfl : dir = "/p" := Option.some.inj hplace
  exact ⟨by decide +kernel, by decide +kernel, (Except.ok.inj hvalue).symm⟩

/-- A value that can be written is found again. -/
theorem saveNotes_outcome_whole :
    ∃ answer k, (saveNotes notingPlain).on noteless = (.ok answer, k) ∧
      succeeds (.ok answer) = true ∧
      ((Outline.Project.notes "p").on k).1 = .ok plainNotes := by
  have hsuccess : succeeds ((saveNotes notingPlain).on noteless).1 = true := by
    decide +kernel
  have houtcome := saveNotes_outcome noteless_rooted notingPlain
  rcases hsave : (saveNotes notingPlain).on noteless with ⟨fault | answer, k⟩
  · rw [hsave] at hsuccess
    cases hsuccess
  · rw [hsave] at hsuccess houtcome
    refine ⟨answer, k, rfl, hsuccess, ?_⟩
    rcases houtcome with ⟨⟨message, rfl⟩, -⟩ | ⟨dir, text, notes, hasked, hnotes⟩
    · rw [not_succeeds_problem] at hsuccess
      cases hsuccess
    · obtain ⟨hdir, hwhole, rfl⟩ := asked_plain hasked
      rw [hwhole, hdir] at hnotes
      exact hnotes.1

/-- A value with half of a pair is refused, and with it go the notes that were there. -/
theorem half_loses_notes :
    let stored := ((saveNotes notingPlain).on noteless).2
    let refused := (saveNotes (noting "\"\\ud800\"")).on stored
    shown "p" stored = some "\x7b\"a\":\"b\"\x7d" ∧ succeeds refused.1 = false ∧
      shown "p" refused.2 = some "\x7b\x7d" := by
  decide +kernel

end RepoWiki.Endpoint.Analysis
