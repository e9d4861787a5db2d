import RepoWiki.Proofs.Outline.Archive
/-
What the archive gives back after any sequence of requests.

Between the requests the files of the projects may change in any way; the directory of the archive
is left alone. Then the archive acts as one store for each project: its summary is what the last
analysis gave, and its notes are those last saved (`session_results`). A request is one change of
the map that the archive holds, so the proof is an induction on the session, with the map of the
last values as what is kept.
-/

namespace RepoWiki.Outline

open Archive Json List RepoWiki.Path

namespace Project

variable {h : Host} {place names : List String} {kept : String → Kind → Option Json} {dir : String}

theorem locate_on (habs : isAbsolute dir = true) (hdir : h.tree.isDirectory dir = true) :
    (locate (.str dir)).on h = (.ok dir, h) := by
  rw [locate, asPath, Run.on_lift_bind, Run.next_ok, Run.on_bind_ok (Run.on_tree h)]
  dsimp only
  rw [if_pos habs, Run.on_ite, if_pos hdir, Run.on_pure]

theorem file_gives (hh : Holds h place names kept) (hn : base dir ∈ names)
    (hf : Fits (directoryOf h.home) (base dir)) {project summary : Json}
    (hsummary : Summary.ofProject project = .ok summary) :
    Gives (file dir project) h summary place names
      (put (put kept (base dir) .reports (some project)) (base dir) .summary
        (some summary)) := by
  refine (hh.pathOf (base dir) .reports).bind fun g hg hready => ?_
  refine (hready.holds.pathOf (base dir) .summary).bind fun m hm hready => ?_
  rw [hsummary]
  refine Gives.after (Run.on_lift _ m) rfl ?_
  rw [← hg, ← hm] at hf ⊢
  refine (hready.save hn hf .reports project).bind fun g hg hready => ?_
  rw [← hg] at hf ⊢
  exact (hready.save hn hf .summary summary).bind fun _ _ hready => hready.pure summary

theorem analyse_gives (hh : Holds h place names kept) (habs : isAbsolute dir = true)
    (hdir : h.tree.isDirectory dir = true) (hmodest : Modest h.tree dir)
    (hn : base dir ∈ names) (hf : Fits (directoryOf h.home) (base dir)) :
    ∃ project summary, Legible depthLimit summary ∧
      Gives (analyse (.str dir)) h summary place names
        (put (put kept (base dir) .reports (some project)) (base dir) .summary
          (some summary)) := by
  obtain ⟨project, summary, k, hsurvey, htold, hsummary, hlegible⟩ := survey_on hh.console hmodest
  have hholds := hh.told htold
  have hhome : k.home = h.home := by
    obtain ⟨printed, rfl⟩ := htold
    rfl
  rw [← hhome] at hf
  refine ⟨project, summary, hlegible, Gives.after (locate_on habs hdir) rfl ?_⟩
  exact Gives.after hsurvey hhome (file_gives hholds hn hf hsummary)

theorem storedSummary_on (habs : isAbsolute dir = true)
    (hdir : h.tree.isDirectory dir = true) :
    (storedSummary (.str dir)).on h = (load (base dir) .summary).on h :=
  Run.on_bind_ok (locate_on habs hdir) _

theorem saveNotes_gives (hh : Holds h place names kept) (habs : isAbsolute dir = true)
    (hdir : h.tree.isDirectory dir = true) (hn : base dir ∈ names)
    (hf : Fits (directoryOf h.home) (base dir)) (v : Json) :
    Gives (saveNotes (.str dir) v) h () place names
      (put kept (base dir) .notes (some v)) := by
  have hparent : parent (join (directoryOf h.home) (fileName (base dir) .notes)) =
      directoryOf h.home :=
    (firm_join _ (by decide)).parent_join (isName_fileName hf.free .notes)
  refine Gives.after (locate_on habs hdir) rfl ?_
  refine (hh.pathOf (base dir) .notes).bind fun g hg hready => ?_
  rw [hparent]
  rw [← hg] at hf ⊢
  have hmake : Gives (Run.changeTree fun tree => tree.makeDirectories (directoryOf g.home)) g ()
      place names kept :=
    hready.changeTree (makeDirectories_ready hready) hready.shelf
  refine hmake.bind fun k hk hready => ?_
  rw [← hk] at hf ⊢
  exact (hready.write hn hf .notes v).bind fun _ _ hready => hready.print _

end Project

/-! ## Sessions -/

/-- A request about the results on projects. -/
inductive Request where
  | analyse (dir : String)
  | summary (dir : String)
  | saveNotes (dir : String) (notes : Json)
  | notes (project : String)

namespace Request

def perform : Request → Run Json
  | analyse dir => Project.analyse (.str dir)
  | summary dir => Project.storedSummary (.str dir)
  | saveNotes dir text => do
      Project.saveNotes (.str dir) text
      return .null
  | notes project => Project.notes project

def answer (r : Request) (h : Host) : Result Json :=
  (r.perform.on h).1

def after (r : Request) (h : Host) : Host :=
  (r.perform.on h).2

/-- The requests of a session: the directories are among those of the session and there at the
time, and the notes are the value of some text. -/
inductive Allowed (dirs : List String) (tree : FileTree) : Request → Prop
  | analyse {dir : String} (known : dir ∈ dirs) (there : tree.isDirectory dir = true)
      (modest : Project.Modest tree dir) : Allowed dirs tree (.analyse dir)
  | summary {dir : String} (known : dir ∈ dirs) (there : tree.isDirectory dir = true) :
      Allowed dirs tree (.summary dir)
  | saveNotes {dir text : String} {notes : Json} (known : dir ∈ dirs)
      (there : tree.isDirectory dir = true) (read : read text = .ok notes) :
      Allowed dirs tree (.saveNotes dir notes)
  | notes (project : String) : Allowed dirs tree (.notes project)

end Request

abbrev Answered := Request × Result Json

def Answered.stored? (dir : String) : Kind → Answered → Option Json
  | .summary, (.analyse d, .ok summary) => if d = dir then some summary else none
  | .notes, (.saveNotes d notes, .ok _) => if d = dir then some notes else none
  | _, _ => none

theorem Answered.stored?_analyse (dir other : String) (kind : Kind) (summary : Json) :
    Answered.stored? other kind (.analyse dir, .ok summary) =
      if dir = other ∧ kind = .summary then some summary else none := by
  cases kind <;> simp [stored?]

theorem Answered.stored?_saveNotes (dir other : String) (kind : Kind) (notes v : Json) :
    Answered.stored? other kind (.saveNotes dir notes, .ok v) =
      if dir = other ∧ kind = .notes then some notes else none := by
  cases kind <;> simp [stored?]

/-- The value stored last for a project. The log has the newest request first. -/
def lastStored (dir : String) (kind : Kind) (log : List Answered) : Json :=
  (log.findSome? (Answered.stored? dir kind)).getD (.obj [])

/-- Changes between requests: any, but in the directory of the archive. -/
structure Between (place : List String) (h k : Host) : Prop where
  home : k.home = h.home
  console : k.console = .unicode
  room : Room k.tree (directoryOf k.home) place
  entry : ∀ name, k.tree.lookup? (place ++ [name]) = h.tree.lookup? (place ++ [name])

/-- The hosts that requests lead to, with the requests and their answers. -/
inductive Session (dirs place : List String) (start : Host) : List Answered → Host → Prop
  | start : Session dirs place start [] start
  | change {log : List Answered} {h k : Host} (before : Session dirs place start log h)
      (between : Between place h k) : Session dirs place start log k
  | serve {log : List Answered} {h : Host} {r : Request} (before : Session dirs place start log h)
      (allowed : r.Allowed dirs h.tree) :
      Session dirs place start ((r, r.answer h) :: log) (r.after h)

/-- A map that has the values stored last, all of which can be read back. -/
structure Recorded (dirs : List String) (log : List Answered)
    (kept : String → Kind → Option Json) : Prop where
  last : ∀ dir ∈ dirs, ∀ kind, kind ≠ .reports →
    kept (base dir) kind = log.findSome? (Answered.stored? dir kind)
  legible : ∀ dir ∈ dirs, ∀ kind v, log.findSome? (Answered.stored? dir kind) = some v →
    Legible depthLimit v

theorem Recorded.answer {dirs : List String} {log : List Answered} {entry : Answered}
    {kept kept' : String → Kind → Option Json} (hr : Recorded dirs log kept)
    (hkept : ∀ dir ∈ dirs, ∀ kind, kind ≠ .reports →
      kept' (base dir) kind = (entry.stored? dir kind).or (kept (base dir) kind))
    (hlegible : ∀ dir kind v, entry.stored? dir kind = some v → Legible depthLimit v) :
    Recorded dirs (entry :: log) kept' := by
  constructor
  · intro dir hdir kind hkind
    rw [hkept dir hdir kind hkind, hr.last dir hdir kind hkind, findSome?_cons]
    cases entry.stored? dir kind <;> rfl
  · intro dir hdir kind v hv
    rw [findSome?_cons] at hv
    split at hv
    · next u hu => exact hlegible dir kind v (hu.trans hv)
    · exact hr.legible dir hdir kind v hv

/-- Projects whose results have files of their own. -/
structure Projects (home : String) (dirs : List String) : Prop where
  absolute : ∀ dir ∈ dirs, isAbsolute dir = true
  distinct : ∀ dir ∈ dirs, ∀ other ∈ dirs, base dir = base other → dir = other
  size : ∀ dir ∈ dirs, ∀ kind, (fileName (base dir) kind).utf8ByteSize ≤ FileTree.nameLimit
  path : ∀ dir ∈ dirs, ∀ kind,
    FileTree.checkPath (join (directoryOf home) (fileName (base dir) kind)) = .ok ()

namespace Projects

variable {home : String} {dirs place : List String} {dir other : String}
  {kept : String → Kind → Option Json}

theorem fits (hp : Projects home dirs) (hdir : dir ∈ dirs) :
    Fits (directoryOf home) (base dir) :=
  ⟨not_mem_base dir, hp.size dir hdir, hp.path dir hdir⟩

theorem put_base (hp : Projects home dirs) (hdir : dir ∈ dirs) (hother : other ∈ dirs)
    (kind k : Kind) (v : Option Json) :
    put kept (base dir) kind v (base other) k =
      if dir = other ∧ k = kind then v else kept (base other) k := by
  rw [put]
  refine ite_congr (propext (and_congr_left fun _ => ?_)) (fun _ => rfl) fun _ => rfl
  exact ⟨fun heq => (hp.distinct other hother dir hdir heq).symm, fun heq => heq ▸ rfl⟩

end Projects

section

variable {dirs place : List String} {start h : Host} {kept : String → Kind → Option Json}
  {log : List Answered} {r : Request}

theorem Recorded.read (hr : Recorded dirs log kept) {entry : Answered}
    (hentry : ∀ dir kind, entry.stored? dir kind = none) : Recorded dirs (entry :: log) kept := by
  refine hr.answer ?_ ?_
  · intro dir _ kind _
    rw [hentry, Option.none_or]
  · intro dir kind v hv
    rw [hentry] at hv
    cases hv

section

variable (hr : Recorded dirs log kept) (hp : Projects h.home dirs)
  (hh : Holds h place (dirs.map base) kept)
include hr hp hh

theorem Recorded.load_on {dir : String} (hdir : dir ∈ dirs) (kind : Kind)
    (hkind : kind ≠ .reports) :
    ((load (base dir) kind).on h).1 = .ok (lastStored dir kind log) := by
  have hlast := hr.last dir hdir kind hkind
  rw [lastStored, ← hlast]
  refine hh.load_on (mem_map_of_mem hdir) (hp.fits hdir) kind fun v hv => ?_
  exact hr.legible dir hdir kind v (hlast ▸ hv)

theorem Recorded.serve (ha : r.Allowed dirs h.tree) :
    ∃ kept', Holds (r.after h) place (dirs.map base) kept' ∧ (r.after h).home = h.home ∧
      Recorded dirs ((r, r.answer h) :: log) kept' ∧
      ((∀ project, r ≠ .notes project) → ∃ v, r.answer h = .ok v) := by
  rw [Request.answer, Request.after]
  cases ha with
  | @analyse dir known there modest =>
    obtain ⟨project, summary, hlegible, k, hk, hhome, hready⟩ :=
      Project.analyse_gives hh (hp.absolute dir known) there modest
        (mem_map_of_mem known) (hp.fits known)
    rw [Request.perform, hk]
    refine ⟨_, hready.holds, hhome, hr.answer ?_ ?_, fun _ => ⟨summary, rfl⟩⟩
    · intro other hother kind hkind
      have hreports : ¬(dir = other ∧ kind = .reports) := fun heq => hkind heq.2
      rw [hp.put_base known hother, hp.put_base known hother, if_neg hreports,
        Answered.stored?_analyse]
      split <;> rfl
    · intro other kind v hv
      rw [Answered.stored?_analyse] at hv
      split at hv
      · exact Option.some.inj hv ▸ hlegible
      · cases hv
  | @summary dir known there =>
    have hon := Project.storedSummary_on (hp.absolute dir known) there
    have hload := hr.load_on hp hh known .summary (by decide)
    obtain ⟨hholds, hhome⟩ := hh.after_load (base dir) .summary
    rw [Request.perform, hon]
    refine ⟨kept, hholds, hhome, hr.read ?_, fun _ => ⟨_, hload⟩⟩
    intro other kind
    cases kind <;> rfl
  | @saveNotes dir text notes known there read =>
    have hgives := Project.saveNotes_gives hh (hp.absolute dir known) there
      (mem_map_of_mem known) (hp.fits known) notes
    obtain ⟨k, hk, hhome, hready⟩ :=
      hgives.bind (f := fun _ => pure null) fun _ _ hready => hready.pure null
    rw [Request.perform, hk]
    refine ⟨_, hready.holds, hhome, hr.answer ?_ ?_, fun _ => ⟨.null, rfl⟩⟩
    · intro other hother kind _
      rw [hp.put_base known hother, Answered.stored?_saveNotes]
      split <;> rfl
    · intro other kind v hv
      rw [Answered.stored?_saveNotes] at hv
      split at hv
      · exact Option.some.inj hv ▸ legible_of_read read
      · cases hv
  | notes project =>
    obtain ⟨hholds, hhome⟩ := hh.after_load project .notes
    refine ⟨kept, hholds, hhome, hr.read ?_, fun hne => absurd rfl (hne project)⟩
    intro other kind
    cases kind <;> rfl

end

theorem Session.recorded (hp : Projects start.home dirs) (hconsole : start.console = .unicode)
    (hroom : Room start.tree (directoryOf start.home) place)
    (hfresh : ∀ dir ∈ dirs, ∀ kind,
      start.tree.lookup? (place ++ [fileName (base dir) kind]) = none)
    (hs : Session dirs place start log h) :
    h.home = start.home ∧
      (∀ r answer, (r, answer) ∈ log → (∀ project, r ≠ .notes project) → ∃ v, answer = .ok v) ∧
      ∃ kept, Holds h place (dirs.map base) kept ∧ Recorded dirs log kept := by
  induction hs with
  | start =>
    refine ⟨rfl, fun _ _ hmem => absurd hmem not_mem_nil, fun _ _ => none,
      ⟨hconsole, hroom, ?_⟩, ⟨fun _ _ _ _ => rfl, ?_⟩⟩
    · intro n hn kind
      obtain ⟨dir, hdir, rfl⟩ := mem_map.1 hn
      exact hfresh dir hdir kind
    · intro dir hdir kind v hv
      cases hv
  | change before between ih =>
    obtain ⟨hhome, hok, kept, hholds, hrecorded⟩ := ih
    refine ⟨between.home.trans hhome, hok, kept, ⟨between.console, between.room, ?_⟩, hrecorded⟩
    intro n hn kind
    exact (between.entry _).trans (hholds.entry n hn kind)
  | serve before allowed ih =>
    obtain ⟨hhome, hok, kept, hholds, hrecorded⟩ := ih
    obtain ⟨kept', hholds', hhome', hrecorded', hanswer⟩ :=
      hrecorded.serve (hhome ▸ hp) hholds allowed
    refine ⟨hhome'.trans hhome, ?_, kept', hholds', hrecorded'⟩
    intro r answer hmem
    rcases mem_cons.1 hmem with heq | hmem
    · cases heq
      exact hanswer
    · exact hok r answer hmem

/-- After any session the archive gives back, for each project, the summary that its last analysis
gave and the notes last saved for it, and no request for either of them fails. -/
theorem session_results (hp : Projects start.home dirs) (hconsole : start.console = .unicode)
    (hroom : Room start.tree (directoryOf start.home) place)
    (hfresh : ∀ dir ∈ dirs, ∀ kind,
      start.tree.lookup? (place ++ [fileName (base dir) kind]) = none)
    (hs : Session dirs place start log h) :
    (∀ r answer, (r, answer) ∈ log → (∀ project, r ≠ .notes project) → ∃ v, answer = .ok v) ∧
      ∀ dir ∈ dirs,
        (h.tree.isDirectory dir = true →
          ((Project.storedSummary (.str dir)).on h).1 = .ok (lastStored dir .summary log)) ∧
        ((Project.notes (base dir)).on h).1 = .ok (lastStored dir .notes log) := by
  obtain ⟨hhome, hok, kept, hholds, hrecorded⟩ := hs.recorded hp hconsole hroom hfresh
  rw [← hhome] at hp
  refine ⟨hok, fun dir hdir => ⟨fun there => ?_, ?_⟩⟩
  · rw [Project.storedSummary_on (hp.absolute dir hdir) there]
    exact hrecorded.load_on hp hholds hdir .summary (by decide)
  · exact hrecorded.load_on hp hholds hdir .notes (by decide)

end

/-! ## Projects of entwined names -/

/-- Two projects, the name of one being the name of a file of the other up to its beginning. -/
def desk (files : List (List String × Entry)) : Host :=
  { tree := { cwd := "/", entries := [([".adalflow"], .directory none),
      ([".adalflow", "analysis"], .directory none), (["w"], .directory none),
      (["w", "a"], .directory none),
      (["w", "a_project_analysis.json"], .directory none)] ++ files } }

def deskDirs : List String := ["/w/a", "/w/a_project_analysis.json"]

def deskFiles : List (List String × Entry) :=
  [(["w", "a", "readme.md"], .file (.text "a\n") none)]

def deskNotes : Json :=
  .obj [("k", .arr [.str "v", .null])]

theorem desk_projects : Projects "" deskDirs := by
  refine ⟨by decide, by decide, ?_, ?_⟩
  · intro dir hdir kind
    revert dir
    cases kind <;> decide
  · intro dir hdir kind
    simp only [deskDirs, mem_cons, not_mem_nil, or_false] at hdir
    rcases hdir with rfl | rfl <;> cases kind <;> rfl

theorem desk_room (files : List (List String × Entry)) :
    Room (desk files).tree (directoryOf "") [".adalflow", "analysis"] :=
  ⟨_, FileTree.makeDirectories_of_isDir (rootOf_firm "") (by decide) rfl ⟨none, rfl⟩, rfl,
    ⟨none, rfl⟩, fun _ => rfl⟩

def deskNoted : Host :=
  (Request.saveNotes "/w/a" deskNotes).after (desk deskFiles)

def deskAnalysed : Host :=
  (Request.analyse "/w/a").after deskNoted

theorem desk_read : read (deskNotes.write .indented) = .ok deskNotes := by
  have hlegible : Legible 2 deskNotes :=
    .obj (by simp) (by simpa using .arr (by simpa using ⟨.str "v", .null⟩))
  exact read_write Shelf.indented_spaced (hlegible.mono (by decide))

theorem desk_modest : Project.Modest deskNoted.tree "/w/a" := by
  have hnone : (Project.sources deskNoted.tree "/w/a").isEmpty = true := by decide +kernel
  have hsources := isEmpty_iff.1 hnone
  constructor
  · rw [hsources]
    exact Nat.pow_pos (by decide)
  · intro s hs
    rw [hsources] at hs
    cases hs

theorem desk_session : Session deskDirs [".adalflow", "analysis"] (desk [])
    [(.analyse "/w/a", Request.answer (.analyse "/w/a") deskNoted),
      (.saveNotes "/w/a" deskNotes, Request.answer (.saveNotes "/w/a" deskNotes) (desk deskFiles))]
    deskAnalysed := by
  have hbetween : Between [".adalflow", "analysis"] (desk []) (desk deskFiles) := by
    refine ⟨rfl, rfl, desk_room deskFiles, fun name => ?_⟩
    simp [FileTree.lookup?, desk, deskFiles]
  have hnoted : Session deskDirs [".adalflow", "analysis"] (desk []) _ deskNoted :=
    (Session.start.change hbetween).serve (.saveNotes (by decide) (by decide +kernel) desk_read)
  exact hnoted.serve (.analyse (by decide) (by decide +kernel) desk_modest)

/-- The results on a project are there beside those on another whose name is part of theirs. -/
theorem session_results_entwined :
    ∃ summary, Request.answer (.analyse "/w/a") deskNoted = .ok summary ∧
      ((Project.storedSummary (.str "/w/a")).on deskAnalysed).1 = .ok summary ∧
      ((Project.notes "a").on deskAnalysed).1 = .ok deskNotes ∧
      ((Project.notes "a_project_analysis.json").on deskAnalysed).1 = .ok (.obj []) := by
  obtain ⟨hok, hresults⟩ := session_results desk_projects rfl (desk_room []) (by
    intro dir hdir kind
    simp [FileTree.lookup?, desk]) desk_session
  obtain ⟨summary, hsummary⟩ := hok _ _ mem_cons_self fun _ => Request.noConfusion
  obtain ⟨v, hv⟩ := hok _ _ (mem_cons_of_mem _ mem_cons_self) fun _ =>
    Request.noConfusion
  obtain ⟨hstored, hnotes⟩ := hresults "/w/a" (by decide)
  obtain ⟨-, hother⟩ := hresults "/w/a_project_analysis.json" (by decide)
  rw [hsummary, hv] at hstored hnotes hother
  exact ⟨summary, hsummary, hstored (by decide +kernel), hnotes, hother⟩

end RepoWiki.Outline
