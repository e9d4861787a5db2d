import RepoWiki.Proofs.Outline.Summary
/-
The archive keeps the results on projects apart.

All results are files of one directory. No two of them share a file (`fileName_inj`): the endings
for the kinds are such that none ends in another. So the files are those of a map from projects and
kinds to values (`Shelf`), and each of the steps on the archive is one on the map. The directory
need not be there at first; `Room` says that it can be made.
-/

namespace RepoWiki.Outline.Archive

open FileTree RepoWiki.Path Run

/-! ## Names of files -/

def ending (kind : Kind) : String :=
  "_project_" ++ kind.label ++ ".json"

theorem fileName_eq (project : String) (kind : Kind) :
    fileName project kind = project ++ ending kind := by
  rw [fileName, ending, String.append_assoc, String.append_assoc, String.append_assoc]

theorem eq_of_ending_suffix {k l : Kind} (h : (ending k).toList <:+ (ending l).toList) : k = l := by
  revert h
  cases k <;> cases l <;> decide

theorem fileName_inj {p q : String} {k l : Kind} (h : fileName p k = fileName q l) :
    p = q ∧ k = l := by
  rw [fileName_eq, fileName_eq] at h
  have hlist := congrArg String.toList h
  rw [String.toList_append, String.toList_append] at hlist
  have hkind : k = l := by
    rcases List.suffix_or_suffix_of_suffix (List.suffix_append p.toList (ending k).toList)
      (hlist ▸ List.suffix_append q.toList (ending l).toList) with hsuffix | hsuffix
    · exact eq_of_ending_suffix hsuffix
    · exact (eq_of_ending_suffix hsuffix).symm
  subst hkind
  exact ⟨String.toList_inj.1 (List.append_cancel_right hlist), rfl⟩

theorem isName_fileName {project : String} (h : '/' ∉ project.toList) (kind : Kind) :
    isName (fileName project kind) = true := by
  rw [fileName_eq]
  cases kind <;> exact isName_append (c := 'n') h (by decide) (by decide) (by decide)

/-! ## The files of a map -/

/-- A project whose results can be files in a directory. -/
structure Fits (dir project : String) : Prop where
  free : '/' ∉ project.toList
  size : ∀ kind, (fileName project kind).utf8ByteSize ≤ nameLimit
  path : ∀ kind, checkPath (join dir (fileName project kind)) = .ok ()

def entryOf (v : Json) : Entry :=
  .file (.text (v.write .indented)) none

/-- The directory is there, and for some projects it has the files of a map from projects and kinds
to values. -/
structure Shelf (tree : FileTree) (dir : String) (place names : List String)
    (kept : String → Kind → Option Json) : Prop where
  leads : tree.resolve dir = .ok place
  directory : tree.IsDir place
  entry : ∀ n ∈ names, ∀ kind,
    tree.lookup? (place ++ [fileName n kind]) = (kept n kind).map entryOf

def put (kept : String → Kind → Option Json) (project : String) (kind : Kind) (v : Option Json) :
    String → Kind → Option Json :=
  fun n k => if n = project ∧ k = kind then v else kept n k

theorem put_put (kept : String → Kind → Option Json) (project : String) (kind : Kind)
    (u v : Option Json) : put (put kept project kind u) project kind v =
      put kept project kind v := by
  funext n k
  rw [put, put, put]
  split <;> rfl

namespace Shelf

variable {tree : FileTree} {dir : String} {place names : List String}
  {kept : String → Kind → Option Json} {n : String}

section

variable (hs : Shelf tree dir place names kept)
include hs

theorem files (hn : n ∈ names) (kind : Kind) (e : Entry)
    (he : tree.lookup? (place ++ [fileName n kind]) = some e) : ∃ c m, e = .file c m := by
  rw [hs.entry n hn kind] at he
  obtain ⟨v, -, rfl⟩ := Option.map_eq_some_iff.1 he
  exact ⟨_, _, rfl⟩

section

variable (hn : n ∈ names) (hf : Fits dir n) (kind : Kind)
include hn hf kind

theorem resolve_path :
    tree.resolve (join dir (fileName n kind)) = .ok (place ++ [fileName n kind]) :=
  (resolve_join_eq_ok hs.leads hs.directory (isName_fileName hf.free kind)
    (not_isLink_of_file (hs.files hn kind))).2 ⟨rfl, hf.size kind, hf.path kind⟩

theorem find?_path :
    tree.find? (join dir (fileName n kind)) = (kept n kind).map entryOf := by
  rw [find?, hs.resolve_path hn hf kind]
  exact hs.entry n hn kind

theorem exists?_path :
    tree.exists? (join dir (fileName n kind)) = (kept n kind).isSome := by
  rw [exists?, hs.find?_path hn hf kind, Option.isSome_map]

theorem isFile_path :
    tree.isFile (join dir (fileName n kind)) = (kept n kind).isSome := by
  rw [isFile, hs.find?_path hn hf kind]
  cases kept n kind <;> rfl

end

end

theorem indented_spaced : Json.Style.indented.Spaced := by
  refine ⟨rfl, ⟨[], by decide, fun c hc => absurd hc List.not_mem_nil⟩, ⟨[' '], by decide, ?_⟩⟩
  intro c hc
  rw [List.mem_singleton.1 hc]
  rfl

theorem unifyNewlines_indented {room : Nat} {v : Json} (h : Json.Legible room v) :
    String.ofList (Text.unifyNewlines (v.write .indented).toList) = v.write .indented :=
  h.unifyNewlines indented_spaced (Json.shown_of_all (by decide)) (Json.shown_of_all (by decide))

variable (hs : Shelf tree dir place names kept)
include hs

theorem readText_path (hn : n ∈ names) (hf : Fits dir n)
    {kind : Kind} {v : Json} (hv : kept n kind = some v) {room : Nat} (hl : Json.Legible room v) :
    tree.readText (join dir (fileName n kind)) = .ok (v.write .indented) := by
  have hentry := hs.entry n hn kind
  rw [hv] at hentry
  have hopen : tree.open? (join dir (fileName n kind)) = .ok (.text (v.write .indented)) :=
    open?_eq_ok.2 ⟨_, none, hs.resolve_path hn hf kind, hentry⟩
  exact readText_of_open? hopen (unifyNewlines_indented hl)

theorem write_path (hn : n ∈ names) (hf : Fits dir n)
    (kind : Kind) (c : Content) :
    tree.write (join dir (fileName n kind)) c =
      .ok (tree.putEntry (place ++ [fileName n kind]) (.file c none)) := by
  have hend := (firm_join dir (isName_fileName hf.free kind)).endsWith
  exact write_of_resolve hend (hs.resolve_path hn hf kind)
    (not_isDir_of_file (hs.files hn kind)) c

theorem change (hn : n ∈ names) (kind : Kind)
    {after : FileTree} {v : Option Json} (hsturdy : Sturdy tree after)
    (hself : after.lookup? (place ++ [fileName n kind]) = v.map entryOf)
    (hother : ∀ p, p ≠ place ++ [fileName n kind] → after.lookup? p = tree.lookup? p) :
    Shelf after dir place names (put kept n kind v) := by
  refine ⟨hsturdy.resolve hs.leads, hsturdy.directories place hs.directory, ?_⟩
  intro m hm k
  by_cases hmk : m = n ∧ k = kind
  · obtain ⟨rfl, rfl⟩ := hmk
    rw [hself, put, if_pos ⟨rfl, rfl⟩]
  · have hne : place ++ [fileName m k] ≠ place ++ [fileName n kind] := by
      intro heq
      exact hmk (fileName_inj (List.singleton_inj.1 (List.append_cancel_left heq)))
    rw [hother _ hne, put, if_neg hmk]
    exact hs.entry m hm k

theorem putEntry (hn : n ∈ names) (kind : Kind) (v : Json) :
    Shelf (tree.putEntry (place ++ [fileName n kind]) (entryOf v)) dir place names
      (put kept n kind (some v)) := by
  apply hs.change hn kind
  · exact sturdy_putEntry (not_isDir_of_file (hs.files hn kind))
      (not_isLink_of_file (hs.files hn kind)) fun _ => Entry.noConfusion
  · exact lookup?_putEntry_self (by simp) _
  · intro p hp
    exact lookup?_putEntry_ne hp _

theorem dropEntry (hn : n ∈ names) (kind : Kind) :
    Shelf (tree.dropEntry (place ++ [fileName n kind])) dir place names (put kept n kind none) := by
  apply hs.change hn kind
  · exact sturdy_dropEntry (not_isDir_of_file (hs.files hn kind))
      (not_isLink_of_file (hs.files hn kind))
  · exact lookup?_dropEntry_self (by simp)
  · intro p hp
    exact lookup?_dropEntry_ne hp

end Shelf

/-! ## The archive of a host -/

def directoryOf (home : String) : String :=
  join (rootOf home) "analysis"

/-- A directory is there or can be made, and making it puts nothing into it. -/
def Room (tree : FileTree) (dir : String) (place : List String) : Prop :=
  ∃ after, tree.makeDirectories dir = .ok after ∧ after.resolve dir = .ok place ∧
    after.IsDir place ∧ ∀ name, after.lookup? (place ++ [name]) = tree.lookup? (place ++ [name])

/-- A host on which the archive holds a map, whether or not its directory is made. -/
structure Holds (h : Host) (place names : List String) (kept : String → Kind → Option Json) :
    Prop where
  console : h.console = .unicode
  room : Room h.tree (directoryOf h.home) place
  entry : ∀ n ∈ names, ∀ kind,
    h.tree.lookup? (place ++ [fileName n kind]) = (kept n kind).map entryOf

/-- A host on which the directory is made. -/
structure Ready (h : Host) (place names : List String) (kept : String → Kind → Option Json) :
    Prop where
  console : h.console = .unicode
  shelf : Shelf h.tree (directoryOf h.home) place names kept

section

variable {h k : Host} {place names : List String} {kept : String → Kind → Option Json} {n : String}

theorem makeDirectories_ready (hr : Ready h place names kept) :
    h.tree.makeDirectories (directoryOf h.home) = .ok h.tree :=
  makeDirectories_of_isDir (rootOf_firm h.home) (by decide) hr.shelf.leads hr.shelf.directory

theorem Ready.holds (hr : Ready h place names kept) : Holds h place names kept :=
  ⟨hr.console, ⟨h.tree, makeDirectories_ready hr, hr.shelf.leads, hr.shelf.directory,
    fun _ => rfl⟩, hr.shelf.entry⟩

theorem Holds.told (hh : Holds h place names kept) (htold : h.Told k) :
    Holds k place names kept := by
  obtain ⟨printed, rfl⟩ := htold
  exact ⟨hh.console, hh.room, hh.entry⟩

end

/-! ## Steps on the archive -/

def Gives {α : Type} (step : Run α) (h : Host) (a : α) (place names : List String)
    (kept : String → Kind → Option Json) : Prop :=
  ∃ k, step.on h = (.ok a, k) ∧ k.home = h.home ∧ Ready k place names kept

section

variable {α β : Type} {h : Host} {place names : List String}
  {kept kept' : String → Kind → Option Json} {n : String}

theorem Gives.after {step : Run α} {f : α → Run β} {a : α} {b : β} {k : Host}
    (hs : step.on h = (.ok a, k)) (hk : k.home = h.home)
    (hf : Gives (f a) k b place names kept) : Gives (step >>= f) h b place names kept := by
  obtain ⟨m, hm, hhome, hready⟩ := hf
  exact ⟨m, (on_bind_ok hs f).trans hm, hhome.trans hk, hready⟩

theorem Gives.bind {step : Run α} {f : α → Run β} {a : α} {b : β}
    (hs : Gives step h a place names kept)
    (hf : ∀ k : Host, k.home = h.home → Ready k place names kept →
      Gives (f a) k b place names kept') :
    Gives (step >>= f) h b place names kept' := by
  obtain ⟨m, hm, hhome, hready⟩ := hs
  exact Gives.after hm hhome (hf m hhome hready)

theorem Gives.orElse {step : Run α} {a : α} (hs : Gives step h a place names kept)
    (rescue : Fault → Run α) : Gives (orElse step rescue) h a place names kept := by
  obtain ⟨k, hk, hhome, hready⟩ := hs
  exact ⟨k, on_orElse_ok hk rescue, hhome, hready⟩

theorem Ready.pure (hr : Ready h place names kept) (a : α) :
    Gives (Pure.pure a) h a place names kept :=
  ⟨h, on_pure a h, rfl, hr⟩

theorem Ready.print (hr : Ready h place names kept) (s : String) :
    Gives (print s) h () place names kept := by
  obtain ⟨k, hk, printed, rfl⟩ := print_told hr.console s
  exact ⟨_, hk, rfl, hr.console, hr.shelf⟩

theorem Ready.changeTree (hr : Ready h place names kept) {f : FileTree → Result FileTree}
    {after : FileTree} (hf : f h.tree = .ok after)
    (hs : Shelf after (directoryOf h.home) place names kept') :
    Gives (changeTree f) h () place names kept' :=
  ⟨{ h with tree := after }, by rw [on_changeTree, hf], rfl, hr.console, hs⟩

section

variable (hh : Holds h place names kept)
include hh

theorem Holds.directory :
    Gives directory h (directoryOf h.home) place names kept := by
  obtain ⟨after, hmade, hleads, hdir, hsame⟩ := hh.room
  have hchange : (changeTree fun tree => tree.makeDirectories (directoryOf h.home)).on h =
      (.ok (), { h with tree := after }) := by
    rw [on_changeTree, hmade]
  obtain ⟨k, hprint, printed, rfl⟩ :=
    print_told (h := { h with tree := after }) hh.console
      s!"缓存目录已就绪: {directoryOf h.home}"
  refine ⟨{ h with tree := after, printed }, ?_, rfl, hh.console, hleads, hdir, ?_⟩
  · have hroot : join h.dataRoot "analysis" = directoryOf h.home := rfl
    rw [Archive.directory, on_get_bind]
    dsimp only
    rw [hroot, on_bind, on_tryCatch, on_bind_ok hchange, hprint, mended, next_ok, on_pure]
  · intro n hn kind
    exact (hsame _).trans (hh.entry n hn kind)

theorem Holds.pathOf (project : String) (kind : Kind) :
    Gives (pathOf project kind) h (join (directoryOf h.home) (fileName project kind))
      place names kept :=
  hh.directory.bind fun _ _ hready => hready.pure _

theorem Holds.after_load (project : String) (kind : Kind) :
    Holds ((load project kind).on h).2 place names kept ∧
      ((load project kind).on h).2.home = h.home := by
  have hpath : Run.Keeps (fun k => Holds k place names kept ∧ k.home = h.home)
      (Archive.pathOf project kind) := by
    refine ⟨fun g hg => ?_⟩
    obtain ⟨k, hk, hhome, hready⟩ := hg.1.pathOf project kind
    rw [hk]
    exact ⟨hready.holds, hhome.trans hg.2⟩
  have hkeeps : Run.Keeps (fun k => Holds k place names kept ∧ k.home = h.home)
      (load project kind) := by
    refine .andThen hpath fun path => .andThen inferInstance fun tree => Host.Told.keeps ?_ ?_
    · intro g k hg htold
      refine ⟨hg.1.told htold, ?_⟩
      obtain ⟨printed, rfl⟩ := htold
      exact hg.2
    · intro g
      refine @Run.Keeps.ite _ _ _ _ _ _ inferInstance ?_
      split
      · infer_instance
      · split <;> infer_instance
  exact hkeeps.after h ⟨hh, rfl⟩

theorem Holds.load_on (hn : n ∈ names)
    (hf : Fits (directoryOf h.home) n) (kind : Kind)
    (hl : ∀ v, kept n kind = some v → Json.Legible Json.depthLimit v) :
    ((load n kind).on h).1 = .ok ((kept n kind).getD (.obj [])) := by
  obtain ⟨k, hk, hhome, hready⟩ := hh.pathOf n kind
  rw [← hhome] at hf hk
  have hfile := hready.shelf.isFile_path hn hf kind
  rw [load, on_bind_ok hk, on_bind_ok (on_tree k), hfile]
  cases hv : kept n kind with
  | none =>
    rw [on_ite, if_pos (by simp), on_bind_ok (on_print_unicode hready.console _), on_pure]
    rfl
  | some v =>
    have hread := Json.read_write Shelf.indented_spaced (hl v hv)
    rw [on_ite, if_neg (by simp), hready.shelf.readText_path hn hf hv (hl v hv)]
    dsimp only
    rw [hread, on_pure]
    rfl

end

section

variable (hr : Ready h place names kept) (hn : n ∈ names) (hf : Fits (directoryOf h.home) n)
include hr hn hf

theorem Ready.write (kind : Kind) (v : Json) :
    Gives (Run.changeTree fun tree => tree.write
        (join (directoryOf h.home) (fileName n kind)) (.text (v.write .indented)))
      h () place names (put kept n kind (some v)) :=
  hr.changeTree (hr.shelf.write_path hn hf kind _) (hr.shelf.putEntry hn kind v)

theorem Ready.remove {kind : Kind} {u : Json} (hu : kept n kind = some u) :
    Gives (Run.changeTree fun tree => tree.remove
        (join (directoryOf h.home) (fileName n kind)))
      h () place names (put kept n kind none) := by
  have hentry := hr.shelf.entry n hn kind
  rw [hu] at hentry
  exact hr.changeTree
    (remove_join (firm_join _ (by decide)) hr.shelf.leads hr.shelf.directory
      (isName_fileName hf.free kind) hentry (hf.size kind) (hf.path kind))
    (hr.shelf.dropEntry hn kind)

theorem Ready.save (kind : Kind) (v : Json) :
    Gives (save (join (directoryOf h.home) (fileName n kind)) v) h () place names
      (put kept n kind (some v)) := by
  have hexists := hr.shelf.exists?_path hn hf kind
  apply Gives.orElse
  refine Gives.after (Run.on_tree h) rfl ?_
  dsimp only
  rw [hexists]
  cases hv : kept n kind with
  | none =>
    rw [if_neg (by simp)]
    exact hr.write hn hf kind v
  | some u =>
    rw [if_pos (by simp), ← put_put kept n kind none]
    refine (hr.remove hn hf hv).bind fun k hk hremoved => ?_
    rw [← hk] at hf ⊢
    exact hremoved.write hn hf kind v

end

end

end RepoWiki.Outline.Archive
