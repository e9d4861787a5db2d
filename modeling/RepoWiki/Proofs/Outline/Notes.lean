import RepoWiki.Proofs.Outline.Archive
import RepoWiki.Proofs.Placement
/-
Notes on projects, on any host: the directory of the archive may be missing or impossible to make,
names may be too long, links may stand in the way, and the console may refuse a line.

What is loaded depends on the files and the console only (`load_outcome`), so it is the same on two
hosts that differ in whether the directory has been made (`Calm.load`). Writing notes either leaves
such a host or has changed one file, even if it fails after that (`writeNotes_outcome`); what has
been written is found again (`Noted.notes`).
-/

namespace RepoWiki

open FileTree RepoWiki.Path Run

theorem Run.on_print {h : Host} {console : Charset} (hconsole : h.console = console) (s : String) :
    ∃ printed, (print s).on h =
      (match console.check s with
        | .ok _ => .ok ()
        | .error fault => .error (.encode fault), { h with printed }) := by
  subst hconsole
  cases hs : h.console.check s with
  | ok _ => exact ⟨_, on_print_ok hs⟩
  | error fault => exact ⟨h.printed, on_print_error hs⟩

namespace Outline
namespace Archive

/-! ## The directory -/

def prepared (tree : FileTree) (home : String) : Result FileTree :=
  tree.makeDirectories (directoryOf home)

def notice (home : String) : Result FileTree → Result String
  | .ok _ => .ok s!"缓存目录已就绪: {directoryOf home}"
  | .error fault =>
      if fault.isFile then .ok s!"无法创建缓存目录 {directoryOf home}: {fault.message}"
      else .error fault

def afterwards (tree : FileTree) : Result FileTree → FileTree
  | .ok changed => changed
  | .error _ => tree

theorem directory_on (h : Host) :
    directory.on h =
      match notice h.home (prepared h.tree h.home) with
      | .error fault => (.error fault, h)
      | .ok line =>
          match h.console.check line with
          | .error fault =>
              (.error (.encode fault),
                { h with tree := afterwards h.tree (prepared h.tree h.home) })
          | .ok _ =>
              (.ok (directoryOf h.home),
                { h with
                  tree := afterwards h.tree (prepared h.tree h.home)
                  printed := h.printed ++ line ++ "\n" }) := by
  have hroot : join h.dataRoot "analysis" = directoryOf h.home := rfl
  rw [directory, on_get_bind]
  dsimp only
  rw [hroot, on_bind, on_tryCatch, on_bind, on_changeTree, ← prepared]
  cases prepared h.tree h.home with
  | ok made =>
    dsimp only [notice, afterwards]
    rw [next_ok]
    cases hline : h.console.check s!"缓存目录已就绪: {directoryOf h.home}" with
    | ok _ =>
      rw [on_print_ok (h := { h with tree := made }) hline, mended, next_ok, on_pure]
    | error fault =>
      have hfault : ¬(Fault.encode fault).isFile = true := by simp [Fault.isFile]
      rw [on_print_error (h := { h with tree := made }) hline, mended, if_neg hfault,
        on_throw, next_error]
  | error fault =>
    dsimp only [notice, afterwards]
    rw [next_error, mended]
    cases fault.isFile with
    | false => rw [if_neg (by simp), if_neg (by simp), on_throw, next_error]
    | true =>
      rw [if_pos rfl, if_pos rfl]
      dsimp only
      cases hline : h.console.check s!"无法创建缓存目录 {directoryOf h.home}: {fault.message}" with
      | ok _ => rw [on_print_ok hline, next_ok, on_pure]
      | error fault => rw [on_print_error hline, next_error]

theorem pathOf_of_directory {project : String} {kind : Kind} {dir : String} {h k : Host}
    (hdir : directory.on h = (.ok dir, k)) :
    (pathOf project kind).on h = (.ok (join dir (fileName project kind)), k) :=
  (on_bind_ok hdir _).trans (on_pure _ _)

/-! ## Loading -/

def found (tree : FileTree) (console : Charset) (path : String) : Result Json :=
  if tree.isFile path then
    match tree.readText path with
    | .error fault => if fault.isFile then .ok (.obj []) else .error fault
    | .ok text =>
        match Json.read text with
        | .ok value => .ok value
        | .error (.json _) => .ok (.obj [])
        | .error fault => .error fault
  else
    match console.check s!"Warning: Analysis file '{path}' not found, returning empty dict." with
    | .ok _ => .ok (.obj [])
    | .error fault => .error (.encode fault)

theorem load_of_path {project : String} {kind : Kind} {path : String} {h k : Host}
    (hpath : (pathOf project kind).on h = (.ok path, k)) :
    ((load project kind).on h).1 = found k.tree k.console path := by
  rw [load, on_bind_ok hpath, on_bind_ok (on_tree k), found, on_ite]
  cases k.tree.isFile path with
  | false =>
    rw [if_pos (by simp), if_neg (by simp)]
    cases hwarning : k.console.check
        s!"Warning: Analysis file '{path}' not found, returning empty dict." with
    | ok _ => rw [on_bind_ok (on_print_ok hwarning), on_pure]
    | error fault => rw [on_bind_error (on_print_error hwarning)]
  | true =>
    rw [if_neg (by simp), if_pos rfl]
    cases k.tree.readText path with
    | error fault =>
      dsimp only
      rw [on_ite, apply_ite Prod.fst, on_pure, on_throw]
    | ok text =>
      dsimp only
      cases Json.read text with
      | ok value => rw [on_pure]
      | error fault => cases fault <;> simp only [on_pure, on_throw]

theorem load_outcome (project : String) (kind : Kind) (h : Host) :
    ((load project kind).on h).1 =
      match notice h.home (prepared h.tree h.home) with
      | .error fault => .error fault
      | .ok line =>
          match h.console.check line with
          | .error fault => .error (.encode fault)
          | .ok _ =>
              found (afterwards h.tree (prepared h.tree h.home)) h.console
                (join (directoryOf h.home) (fileName project kind)) := by
  have hdirectory := directory_on h
  have hfailed : ∀ {fault k}, directory.on h = (.error fault, k) →
      ((load project kind).on h).1 = .error fault := by
    intro fault k hfault
    have hpath : (pathOf project kind).on h = (.error fault, k) := on_bind_error hfault _
    rw [load, on_bind_error hpath]
  cases hnotice : notice h.home (prepared h.tree h.home) with
  | error fault =>
    rw [hnotice] at hdirectory
    exact hfailed hdirectory
  | ok line =>
    rw [hnotice] at hdirectory
    dsimp only at hdirectory ⊢
    cases hline : h.console.check line with
    | error fault =>
      rw [hline] at hdirectory
      exact hfailed hdirectory
    | ok _ =>
      rw [hline] at hdirectory
      rw [load_of_path (pathOf_of_directory hdirectory)]

/-! ## Hosts with the same files -/

theorem prepared_again {tree made : FileTree} {home : String}
    (h : prepared tree home = .ok made) : prepared made home = .ok made := by
  obtain ⟨place, hplace, hdir⟩ := makeDirectories_isDir (rootOf_firm home) (by decide) h
  exact makeDirectories_of_isDir (rootOf_firm home) (by decide) hplace hdir

/-- A host whose files are those of another; the directory of the archive may have been made. -/
structure Calm (h k : Host) : Prop where
  home : k.home = h.home
  console : k.console = h.console
  tree : k.tree = h.tree ∨ prepared h.tree h.home = .ok k.tree

namespace Calm

variable {h k : Host}

theorem refl (h : Host) : Calm h h :=
  ⟨rfl, rfl, .inl rfl⟩

theorem told {m : Host} (hk : Calm h k) (hm : k.Told m) : Calm h m := by
  obtain ⟨printed, rfl⟩ := hm
  exact ⟨hk.home, hk.console, hk.tree⟩

theorem prepared (hk : Calm h k) :
    Archive.prepared k.tree h.home = Archive.prepared h.tree h.home := by
  rcases hk.tree with hsame | hmade
  · rw [hsame]
  · rw [hmade, prepared_again hmade]

theorem afterwards (hk : Calm h k) :
    Archive.afterwards k.tree (Archive.prepared k.tree h.home) =
      Archive.afterwards h.tree (Archive.prepared h.tree h.home) := by
  rw [hk.prepared]
  rcases hk.tree with hsame | hmade
  · rw [hsame]
  · rw [hmade]
    rfl

theorem file (hk : Calm h k) {p : List String} {c : Content} {m : Option Int} :
    k.tree.lookup? p = some (.file c m) ↔ h.tree.lookup? p = some (.file c m) := by
  rcases hk.tree with hsame | hmade
  · rw [hsame]
  · exact (makeDirectories_grown hmade).file

theorem load (hk : Calm h k) (project : String) (kind : Kind) :
    ((Archive.load project kind).on k).1 = ((Archive.load project kind).on h).1 := by
  rw [load_outcome, load_outcome, hk.home, hk.console, hk.afterwards, hk.prepared]

theorem made (h : Host) (printed : String) :
    Calm h { h with
      tree := Archive.afterwards h.tree (Archive.prepared h.tree h.home), printed } := by
  refine ⟨rfl, rfl, ?_⟩
  cases Archive.prepared h.tree h.home with
  | ok made => exact .inr rfl
  | error fault => exact .inl rfl

end Calm

theorem pathOf_outcome (project : String) (kind : Kind) (h : Host) :
    (∃ fault k, (pathOf project kind).on h = (.error fault, k) ∧ Calm h k) ∨
      ∃ k line, (pathOf project kind).on h =
          (.ok (join (directoryOf h.home) (fileName project kind)), k) ∧ Calm h k ∧
        notice h.home (prepared h.tree h.home) = .ok line ∧ h.console.check line = .ok () := by
  have hdirectory := directory_on h
  cases hnotice : notice h.home (prepared h.tree h.home) with
  | error fault =>
    rw [hnotice] at hdirectory
    exact .inl ⟨fault, h, on_bind_error hdirectory _, .refl h⟩
  | ok line =>
    rw [hnotice] at hdirectory
    dsimp only at hdirectory
    cases hline : h.console.check line with
    | error fault =>
      rw [hline] at hdirectory
      exact .inl ⟨_, _, on_bind_error hdirectory _, .made h h.printed⟩
    | ok _ =>
      rw [hline] at hdirectory
      exact .inr ⟨_, line, pathOf_of_directory hdirectory, .made h _, rfl, hline⟩

end Archive

/-! ## Writing notes -/

namespace Project

open Archive

def notesFile (home dir : String) : String :=
  join (directoryOf home) (fileName (base dir) .notes)

theorem isName_notes (dir : String) : isName (fileName (base dir) .notes) = true :=
  isName_fileName (not_mem_base dir) .notes

theorem notesFile_firm (home dir : String) : Firm (notesFile home dir) :=
  firm_join _ (isName_notes dir)

theorem steps_notesFile (home dir : String) : steps (notesFile home dir) ≠ [] := by
  rw [(notesFile_firm home dir).steps]
  exact (notesFile_firm home dir).named_ne_nil

theorem parent_notesFile (home dir : String) :
    parent (notesFile home dir) = directoryOf home :=
  Firm.parent_join (firm_join _ (by decide)) (isName_notes dir)

/-- A host where a text has been written as the notes on the project in a directory. -/
structure Noted (h : Host) (dir text : String) (k : Host) : Prop where
  home : k.home = h.home
  console : k.console = h.console
  ready : h.console.check s!"缓存目录已就绪: {directoryOf h.home}" = .ok ()
  wrote : ∃ made, prepared h.tree h.home = .ok made ∧
    made.Wrote k.tree (notesFile h.home dir) (.text text)

instance (g : Host) (path : Json) : Keeps g.Told (locate path) := by
  unfold locate
  infer_instance

theorem told_of_notes (stopped : Option EncodeFault) {m : Host} {console : Charset}
    (hm : m.console = console) (line : String) :
    ∃ printed, (match stopped with
        | some fault => throw (.encode fault)
        | none => print line : Run Unit).on m =
      (match stopped with
        | some fault => .error (.encode fault)
        | none =>
            match console.check line with
            | .ok _ => .ok ()
            | .error fault => .error (.encode fault), { m with printed }) := by
  cases stopped with
  | some fault => exact ⟨m.printed, on_throw _ m⟩
  | none => exact on_print hm line

/-- Writing notes leaves the files as they were, or the notes are written. In the end a refused
character or a refused line may still be told as a fault. -/
theorem writeNotes_outcome (path : Json) (text : String) (stopped : Option EncodeFault) (h : Host) :
    (∃ fault k, (writeNotes path text stopped).on h = (.error fault, k) ∧ Calm h k) ∨
      ∃ dir k, (locate path).on h = (.ok dir, h) ∧ Noted h dir text k ∧
        (writeNotes path text stopped).on h =
          (match stopped with
            | some fault => .error (.encode fault)
            | none =>
                match h.console.check s!"Summarize text saved to: {notesFile h.home dir}" with
                | .ok _ => .ok ()
                | .error fault => .error (.encode fault), k) := by
  rcases hlocate : (locate path).on h with ⟨fault | dir, g⟩
  · refine .inl ⟨fault, g, on_bind_error hlocate _, (Calm.refl h).told ?_⟩
    exact Host.Told.of_keeps hlocate
  obtain ⟨rfl, -⟩ := locate_eq_ok hlocate
  rw [writeNotes, on_bind_ok hlocate]
  rcases pathOf_outcome (base dir) .notes g with
    ⟨fault, m, hpath, hm⟩ | ⟨m, line, hpath, hm, hnotice, hline⟩
  · exact .inl ⟨fault, m, on_bind_error hpath _, hm⟩
  rw [on_bind_ok hpath, ← notesFile, parent_notesFile]
  cases hmade : m.tree.makeDirectories (directoryOf g.home) with
  | error fault =>
    refine .inl ⟨fault, m, on_bind_error ?_ _, hm⟩
    rw [on_changeTree, hmade]
  | ok made =>
    have hmake : (changeTree fun tree => tree.makeDirectories (directoryOf g.home)).on m =
        (.ok (), { m with tree := made }) := by rw [on_changeTree, hmade]
    rw [on_bind_ok hmake]
    rw [← prepared, hm.prepared] at hmade
    -- Making the directory a second time has left the files as they were after the first.
    rcases @wrote_or_isDir made (.text text) _ (notesFile_firm g.home dir).endsWith with
      ⟨after, hok, hwrote⟩ | ⟨⟨fault, hfault⟩, -⟩
    · have hwrite : (changeTree fun tree => tree.write (notesFile g.home dir) (.text text)).on
          { m with tree := made } = (.ok (), { m with tree := after }) := by
        rw [on_changeTree, hok]
      rw [hmade] at hnotice
      obtain rfl := Except.ok.inj hnotice
      obtain ⟨printed, hprint⟩ := told_of_notes stopped (m := { m with tree := after }) hm.console
        s!"Summarize text saved to: {notesFile g.home dir}"
      exact .inr ⟨dir, { m with tree := after, printed }, rfl,
        ⟨hm.home, hm.console, hline, made, hmade, hwrote⟩, (on_bind_ok hwrite _).trans hprint⟩
    · refine .inl ⟨fault, { m with tree := made }, on_bind_error ?_ _,
        hm.home, hm.console, .inr hmade⟩
      rw [on_changeTree, hfault]

/-! ## Finding notes -/

namespace Noted

variable {h k : Host} {dir text : String}

theorem open? (hn : Noted h dir text k) (hr : h.tree.Rooted) :
    k.tree.open? (notesFile h.home dir) = .ok (.text text) := by
  obtain ⟨made, hmade, hwrote⟩ := hn.wrote
  exact hwrote.open? ((makeDirectories_grown hmade).rooted hr) (steps_notesFile h.home dir)

theorem prepared (hn : Noted h dir text k) (hr : h.tree.Rooted) :
    Archive.prepared k.tree h.home = .ok k.tree := by
  obtain ⟨made, hmade, hwrote⟩ := hn.wrote
  have hsturdy := hwrote.sturdy ((makeDirectories_grown hmade).rooted hr)
    (steps_notesFile h.home dir)
  obtain ⟨place, hplace, hdir⟩ := makeDirectories_isDir (rootOf_firm h.home) (by decide) hmade
  exact makeDirectories_of_isDir (rootOf_firm h.home) (by decide) (hsturdy.resolve hplace)
    (hsturdy.directories place hdir)

theorem notes {v : Json} (hn : Noted h dir (v.write .indented) k) (hr : h.tree.Rooted)
    (hv : Json.Legible Json.depthLimit v) : ((Project.notes (base dir)).on k).1 = .ok v := by
  have hopen := hn.open? hr
  have hfile : k.tree.isFile (notesFile h.home dir) = true := by
    obtain ⟨place, m, hplace, hfile⟩ := open?_eq_ok.1 hopen
    rw [isFile, find?, hplace]
    dsimp only
    rw [hfile]
  have htext := readText_of_open? hopen (Shelf.unifyNewlines_indented hv)
  rw [Project.notes, load_outcome, hn.home, hn.console, hn.prepared hr, notice]
  dsimp only
  rw [hn.ready, afterwards]
  dsimp only
  rw [← notesFile, found, hfile, htext, if_pos rfl]
  dsimp only
  rw [Json.read_write Shelf.indented_spaced hv]

end Noted

end Project
end Outline
end RepoWiki
