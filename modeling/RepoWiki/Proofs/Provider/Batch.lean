import RepoWiki.Proofs.FileTree
import RepoWiki.Proofs.Ignores
import RepoWiki.Provider.Batch
/-
Calls for embeddings, one after the other in one directory.

A call looks for a file under the name that it was given and the class of its embedder, and gives
what it finds there whatever it is asked. Only where nothing is kept it asks the embedder (`fresh`),
and keeps what comes. So it is the first call with a file that decides what the later ones give.
`Desk` says that the files are those of a map from names to results; each call takes one map to the
next.
-/

namespace RepoWiki.Provider.Batch

open FileTree RepoWiki.Path Run

/-! ## Results as they are kept -/

theorem Embedded.unpack?_pack (x : Embedded) : Embedded.unpack? (Embedded.pack x) = some x := by
  cases x <;> rfl

theorem unpackOption?_packOption {α : Type} {pack : α → Json} {unpack? : Json → Option α}
    (h : ∀ x, unpack? (pack x) = some x) (x : Option α) :
    unpackOption? unpack? (packOption pack x) = some x := by
  cases x with
  | none => rfl
  | some x => simp [packOption, unpackOption?, h]

theorem unpackData?_map_pack (xs : List Embedded) :
    unpackData? (.arr (xs.map Embedded.pack)) = some xs := by
  rw [unpackData?]
  induction xs with
  | nil => rfl
  | cons x xs ih => simp [ih, Embedded.unpack?_pack]

theorem unpack?_pack (e : Embeddings) : unpack? (pack e) = some e := by
  simp [pack, unpack?, unpackOption?_packOption unpackData?_map_pack,
    unpackOption?_packOption (fun s => rfl : ∀ s, Json.asText? (.str s) = some s)]

theorem mapM_unpack?_pack (results : List Embeddings) :
    (results.map pack).mapM unpack? = some results := by
  induction results with
  | nil => rfl
  | cons e results ih => simp [ih, unpack?_pack]

/-! ## One call -/

instance (embed : Embed) [∀ texts, Detached (embed texts)] (size input : Json) :
    Detached (fresh embed size input) := by
  have hone : ∀ texts, Detached (embedOne embed texts) := by
    intro texts
    unfold embedOne
    infer_instance
  unfold fresh
  infer_instance

instance (tree : FileTree) : Tellable (makeRoom tree) := by
  unfold makeRoom
  infer_instance

instance (file : String) (results : List Embeddings) : Lasting (keep file results) := by
  unfold keep
  infer_instance

def contentOf (results : List Embeddings) : Content :=
  .value (.arr (results.map pack))

def leave (file : String) (results : List Embeddings) (tree : FileTree) : FileTree :=
  match makeRoom tree with
  | .error _ => tree
  | .ok room =>
      match room.write file (contentOf results) with
      | .error _ => room
      | .ok after => after

theorem keep_on (file : String) (results : List Embeddings) (h : Host) :
    (orElse (keep file results) fun _ => pure ()).on h =
      (.ok (), { h with tree := leave file results h.tree }) := by
  have htold : Lasting (keep file results) := inferInstance
  have hkeep : ((keep file results).on h).2 = { h with tree := leave file results h.tree } := by
    unfold keep leave
    rw [on_bind, on_changeTree]
    cases makeRoom h.tree with
    | error fault => rfl
    | ok room =>
      dsimp only
      rw [next_ok, on_changeTree, contentOf]
      dsimp only
      cases room.write file (.value (.arr (results.map pack))) <;> rfl
  rcases hrun : (keep file results).on h with ⟨fault | u, k⟩ <;> rw [hrun] at hkeep <;>
    dsimp only at hkeep <;> subst hkeep
  · have hexit := (htold.tellable h).not_exit fault (by rw [hrun])
    rw [on_orElse_error hrun hexit, on_pure]
  · exact on_orElse_ok hrun _

theorem run_stored (embed : Embed) (size : Json) {label : Label} (input : Json) {h : Host}
    {results : List Embeddings} (hs : stored? h.tree (path label.stem) = some results) :
    (run embed size label false input).on h = (.ok results, h) := by
  rw [run, on_bind_ok (on_tree h)]
  simp only [Bool.false_eq_true, if_false, hs]
  exact on_pure _ h

theorem run_fresh (embed : Embed) (size : Json) {label : Label} (again : Bool) (input : Json)
    {h : Host} (hs : again = true ∨ stored? h.tree (path label.stem) = none) :
    (run embed size label again input).on h =
      match (fresh embed size input).on h with
      | (.ok results, k) => (.ok results, { k with tree := leave (path label.stem) results k.tree })
      | (.error fault, k) => (.error fault, k) := by
  have hnone : (if again then none else stored? h.tree (path label.stem)) = none := by
    rcases hs with rfl | hs
    · rfl
    · rw [hs, ite_self]
  rw [run, on_bind_ok (on_tree h)]
  simp only [hnone]
  rw [on_bind]
  rcases (fresh embed size input).on h with ⟨fault | results, k⟩
  · rfl
  · rw [next_ok, on_bind_ok (keep_on _ _ _), on_pure]

/-! ## Calls -/

/-- A call for the embeddings of some texts. -/
structure Call where
  embed : Embed
  /-- The embedder has nothing to do with the files. -/
  detached : ∀ texts, Detached (embed texts)
  size : Json
  label : Label
  input : Json
  /-- The machine and the services as they are for this call, but for the files. -/
  outside : Host

variable {c : Call} {tree : FileTree} {found : List Embeddings}

namespace Call

def own (c : Call) : Result (List Embeddings) :=
  ((fresh c.embed c.size c.input).on c.outside).1

def results (c : Call) (tree : FileTree) : Result (List Embeddings) :=
  ((run c.embed c.size c.label false c.input).on { c.outside with tree }).1

def files (c : Call) (tree : FileTree) : FileTree :=
  ((run c.embed c.size c.label false c.input).on { c.outside with tree }).2.tree

theorem of_stored {results : List Embeddings}
    (h : stored? tree (path c.label.stem) = some results) :
    c.results tree = .ok results ∧ c.files tree = tree := by
  have hrun := run_stored c.embed c.size c.input (h := { c.outside with tree }) h
  exact ⟨congrArg Prod.fst hrun, congrArg (fun r => r.2.tree) hrun⟩

def filesAfter (c : Call) (tree : FileTree) : FileTree :=
  match c.own with
  | .ok results => leave (path c.label.stem) results tree
  | .error _ => tree

theorem of_not_stored (h : stored? tree (path c.label.stem) = none) :
    c.results tree = c.own ∧ c.files tree = c.filesAfter tree := by
  have hdetached := c.detached
  have hfresh : Detached (fresh c.embed c.size c.input) := inferInstance
  have hput := hfresh.on_put (c.outside.line, tree, c.outside.printed) c.outside
  have hrun := run_fresh c.embed c.size false c.input
    (h := c.outside.apart (c.outside.line, tree, c.outside.printed)) (.inr h)
  rw [hput] at hrun
  have hhost : { c.outside with tree } =
      c.outside.apart (c.outside.line, tree, c.outside.printed) := rfl
  rw [results, files, filesAfter, hhost, hrun, own]
  cases ((fresh c.embed c.size c.input).on c.outside).1 <;> exact ⟨rfl, rfl⟩

end Call

def filesAfter (tree : FileTree) (calls : List Call) : FileTree :=
  calls.foldl (fun tree c => c.files tree) tree

/-! ## Where results come from -/

def Held (tree : FileTree) (results : List Embeddings) : Prop :=
  ∃ place items m, tree.lookup? place = some (.file (.value (.arr items)) m) ∧
    items.mapM unpack? = some results

theorem held_of_stored {file : String} {results : List Embeddings}
    (h : stored? tree file = some results) : Held tree results := by
  unfold stored? at h
  split at h
  · next items hopen =>
    obtain ⟨place, m, -, hfile⟩ := open?_eq_ok.1 hopen
    exact ⟨place, items, m, hfile, h⟩
  · cases h

theorem makeRoom_grown {room : FileTree} (h : makeRoom tree = .ok room) : Grown tree room := by
  unfold makeRoom at h
  split at h
  · obtain rfl := Except.ok.inj h
    exact .same
  · exact makeDirectories_grown h

theorem held_leave {file : String} {results : List Embeddings}
    (h : Held (leave file results tree) found) : Held tree found ∨ found = results := by
  unfold leave at h
  split at h
  · exact .inl h
  · next room hroom =>
    have hgrown : ∀ {found}, Held room found → Held tree found :=
      fun ⟨place, items, m, hfile, hitems⟩ =>
        ⟨place, items, m, (makeRoom_grown hroom).file.1 hfile, hitems⟩
    split at h
    · exact .inl (hgrown h)
    · next after hwrite =>
      obtain ⟨-, goal, -, hgoal, rfl⟩ := write_eq_ok hwrite
      obtain ⟨place, items, m, hfile, hitems⟩ := h
      by_cases hplace : place = goal
      · rw [hplace, lookup?_putEntry_self (ne_nil_of_not_isDir hgoal), contentOf] at hfile
        injection hfile with hentry
        injection hentry with hcontent
        injection hcontent with hvalue
        injection hvalue with hlist
        rw [← hlist, mapM_unpack?_pack] at hitems
        exact .inr (Option.some.inj hitems).symm
      · rw [lookup?_putEntry_ne hplace] at hfile
        exact .inl (hgrown ⟨place, items, m, hfile, hitems⟩)

theorem Call.held_files (h : Held (c.files tree) found) : Held tree found ∨ c.own = .ok found := by
  cases hs : stored? tree (path c.label.stem) with
  | some results =>
    rw [(of_stored hs).2] at h
    exact .inl h
  | none =>
    rw [(of_not_stored hs).2, filesAfter] at h
    cases hown : c.own with
    | error fault =>
      rw [hown] at h
      exact .inl h
    | ok results =>
      rw [hown] at h
      rcases held_leave h with hheld | rfl
      · exact .inl hheld
      · exact .inr rfl

theorem held_filesAfter {calls : List Call} (h : Held (filesAfter tree calls) found) :
    Held tree found ∨ ∃ c ∈ calls, c.own = .ok found := by
  induction calls generalizing tree with
  | nil => exact .inl h
  | cons c calls ih =>
    rcases ih h with hfiles | ⟨d, hd, hown⟩
    · exact c.held_files hfiles |>.imp_right fun hown => ⟨c, List.mem_cons_self, hown⟩
    · exact .inr ⟨d, List.mem_cons_of_mem c hd, hown⟩

/-! ## The files as a map -/

def fileName (name : String) : String :=
  name ++ "_dashscope_embeddings.pkl"

def Fits (name : String) : Prop :=
  (fileName name).utf8ByteSize ≤ nameLimit ∧ Char.ofNat 0 ∉ name.toList

instance (name : String) : Decidable (Fits name) :=
  inferInstanceAs (Decidable (_ ∧ _))

def Solid (name : String) : Prop :=
  '/' ∉ name.toList

theorem here_firm : Path.Firm "." :=
  ⟨'.', by decide, by decide⟩

theorem directory_eq : directory = join "." "embedding_cache" := by
  decide

theorem directory_firm : Path.Firm directory := by
  rw [directory_eq]
  exact firm_join _ (by decide)

theorem fileName_firm (name : String) : Path.Firm (fileName name) :=
  Path.Firm.append ⟨'l', by decide, by decide⟩ name

theorem fileName_inj {name other : String} (h : fileName name = fileName other) : name = other :=
  (String.append_left_inj _).1 h

theorem isName_fileName {name : String} (h : Solid name) : isName (fileName name) = true :=
  isName_append (c := 'l') h (by decide) (by decide) (by decide)

theorem path_eq {name : String} (h : Solid name) :
    path name = join directory (fileName name) := by
  rw [directory_firm.join (isName_fileName h), path, fileName]
  simp [String.append_assoc, toString]

theorem fits_iff {name : String} (h : Solid name) :
    (fileName name).utf8ByteSize ≤ nameLimit ∧ checkPath (path name) = .ok () ↔ Fits name := by
  have hpath : path name = directory ++ "/" ++ fileName name := by
    rw [path_eq h, directory_firm.join (isName_fileName h)]
  have hfirm : Path.Firm (path name) := by
    rw [hpath]
    exact (fileName_firm name).append _
  have hbytes : (path name).utf8ByteSize = 18 + (fileName name).utf8ByteSize := by
    rw [hpath, String.utf8ByteSize_append]
    rfl
  have hnul : Char.ofNat 0 ∉ (path name).toList ↔ Char.ofNat 0 ∉ name.toList := by
    rw [hpath, fileName]
    simp [directory]
  rw [checkPath_eq_ok, hnul, hbytes, Fits]
  have hlimit : nameLimit + 18 < pathLimit := by decide
  constructor
  · rintro ⟨hsize, htext, -⟩
    exact ⟨hsize, htext⟩
  · rintro ⟨hsize, htext⟩
    exact ⟨hsize, htext, hfirm.ne_empty, by omega⟩

def roomOf (tree : FileTree) : List String :=
  Path.components tree.cwd ++ ["embedding_cache"]

/-- The working directory is there, and where the files would be there is nothing else. -/
structure Tidy (tree : FileTree) : Prop where
  base : tree.IsDir (Path.components tree.cwd)
  room : tree.lookup? (roomOf tree) = none ∨ tree.IsDir (roomOf tree)
  files : ∀ name e, tree.lookup? (roomOf tree ++ [name]) = some e → ∃ c m, e = .file c m

namespace Tidy

variable {tree : FileTree}

variable (ht : Tidy tree)
include ht

theorem not_isDir (name : String) : ¬tree.IsDir (roomOf tree ++ [name]) :=
  not_isDir_of_file (ht.files name)

theorem not_isLink (name : String) :
    ¬tree.IsLink (roomOf tree ++ [name]) :=
  not_isLink_of_file (ht.files name)

theorem room_not_isLink : ¬tree.IsLink (roomOf tree) := by
  rintro ⟨t, h⟩
  rcases ht.room with hnone | ⟨m, hdir⟩
  · simp [h] at hnone
  · simp [h] at hdir

theorem resolve_here : tree.resolve "." = .ok (components tree.cwd) :=
  resolve_eq_ok.2 ⟨rfl, .stay ht.base (by decide) (.here _ _)⟩

theorem resolve_directory : tree.resolve directory = .ok (roomOf tree) := by
  rw [directory_eq, resolve_join_eq_ok ht.resolve_here ht.base (by decide)
    ht.room_not_isLink]
  exact ⟨rfl, by decide, rfl⟩

theorem resolve_path (hdir : tree.IsDir (roomOf tree)) {name : String}
    (hname : Solid name) {goal : List String} :
    tree.resolve (path name) = .ok goal ↔
      goal = roomOf tree ++ [fileName name] ∧ Fits name := by
  rw [path_eq hname, resolve_join_eq_ok ht.resolve_directory hdir
    (isName_fileName hname) (ht.not_isLink _), ← path_eq hname, fits_iff hname]

theorem not_resolve_path (hdir : ¬tree.IsDir (roomOf tree)) {name : String}
    (hname : Solid name) (goal : List String) : tree.resolve (path name) ≠ .ok goal := by
  rw [path_eq hname, directory_firm.join (isName_fileName hname), directory_eq]
  exact not_resolve_below here_firm ht.resolve_here (by decide) (fileName_firm name) hdir
    ht.room_not_isLink goal

theorem exists_directory :
    tree.exists? directory = (tree.lookup? (roomOf tree)).isSome := by
  rw [exists?, find?, ht.resolve_directory]

theorem makeDirectories (hnone : tree.lookup? (roomOf tree) = none) :
    tree.makeDirectories directory = .ok (tree.putEntry (roomOf tree) (.directory none)) := by
  have hsplit : splitLast directory = (".", "embedding_cache") := by decide
  have hhere : tree.exists? "." = true := by
    obtain ⟨m, hm⟩ := ht.base
    rw [exists?, find?, ht.resolve_here]
    dsimp only
    rw [hm]
    rfl
  have hmake : tree.makeDirectory directory =
      .ok (tree.putEntry (roomOf tree) (.directory none)) := by
    rw [makeDirectory, directory_eq, resolveParent_join here_firm ht.resolve_here ht.base
      (by decide) rfl]
    dsimp only
    rw [if_neg (by decide), if_neg (by decide), ← roomOf, hnone]
    rfl
  rw [FileTree.makeDirectories, makeDirectoriesFrom, hsplit]
  dsimp only
  rw [hhere, if_neg (by decide), ensureDirectory, hmake]

theorem makeRoom :
    ∃ after, Batch.makeRoom tree = .ok after ∧ roomOf after = roomOf tree ∧ Tidy after ∧
      after.IsDir (roomOf after) ∧
      ∀ name, after.lookup? (roomOf after ++ [name]) = tree.lookup? (roomOf tree ++ [name]) := by
  rw [Batch.makeRoom, ht.exists_directory]
  rcases ht.room with hnone | ⟨m, hdir⟩
  · have hmade := ht.makeDirectories hnone
    have hsturdy := (makeDirectories_grown hmade).sturdy
    have hroom : roomOf (tree.putEntry (roomOf tree) (.directory none)) = roomOf tree := by
      rw [roomOf, roomOf, cwd_putEntry]
    have hnew : (tree.putEntry (roomOf tree) (.directory none)).lookup? (roomOf tree) =
        some (.directory none) := lookup?_putEntry_self (by simp [roomOf]) _
    have hold : ∀ name, (tree.putEntry (roomOf tree) (.directory none)).lookup?
        (roomOf tree ++ [name]) = tree.lookup? (roomOf tree ++ [name]) :=
      fun name => lookup?_putEntry_ne (by simp) _
    refine ⟨_, by rw [hnone]; exact hmade, hroom, ⟨?_, ?_, ?_⟩, ?_, ?_⟩ <;> rw [hroom] at *
    · rw [cwd_putEntry]
      exact hsturdy.directories _ ht.base
    · exact .inr ⟨none, hnew⟩
    · intro name e he
      rw [hold] at he
      exact ht.files name e he
    · exact ⟨none, hnew⟩
    · exact hold
  · exact ⟨tree, by rw [hdir]; rfl, rfl, ht, ⟨m, hdir⟩, fun _ => rfl⟩

end Tidy

/-- The files are those of a map from names to results. -/
structure Desk (tree : FileTree) (kept : String → Option (List Embeddings)) : Prop
    extends Tidy tree where
  entry : ∀ name, tree.lookup? (roomOf tree ++ [fileName name]) =
    (kept name).map fun results => .file (contentOf results) none
  sound : ∀ name results, kept name = some results → Fits name ∧ tree.IsDir (roomOf tree)

namespace Desk

variable {tree : FileTree} {kept : String → Option (List Embeddings)}

variable (hd : Desk tree kept)
include hd

theorem stored? {name : String} (hname : Solid name) :
    Batch.stored? tree (path name) = kept name := by
  have hentry := hd.entry name
  cases hk : kept name with
  | none =>
    rw [hk, Option.map_none] at hentry
    have hopen : ∀ c, tree.open? (path name) ≠ .ok c := by
      intro c hc
      obtain ⟨goal, m, hgoal, hfile⟩ := open?_eq_ok.1 hc
      by_cases hdir : tree.IsDir (roomOf tree)
      · rw [((hd.resolve_path hdir hname).1 hgoal).1, hentry] at hfile
        cases hfile
      · exact hd.not_resolve_path hdir hname goal hgoal
    cases hc : tree.open? (path name) with
    | error fault => rw [Batch.stored?, hc]
    | ok c => exact absurd hc (hopen c)
  | some results =>
    rw [hk, Option.map_some] at hentry
    obtain ⟨hfits, hdir⟩ := hd.sound name results hk
    have hopen : tree.open? (path name) = .ok (contentOf results) :=
      open?_eq_ok.2 ⟨_, none, (hd.resolve_path hdir hname).2 ⟨rfl, hfits⟩, hentry⟩
    rw [Batch.stored?, hopen, contentOf]
    exact mapM_unpack?_pack results

theorem makeRoom :
    ∃ after, Batch.makeRoom tree = .ok after ∧ Desk after kept ∧ after.IsDir (roomOf after) := by
  obtain ⟨after, hafter, hroom, htidy, hdir, hfiles⟩ := hd.toTidy.makeRoom
  exact ⟨after, hafter, { htidy with
    entry := fun name => (hfiles _).trans (hd.entry name)
    sound := fun name results h => ⟨(hd.sound name results h).1, hdir⟩ }, hdir⟩

theorem put (hdir : tree.IsDir (roomOf tree)) {name : String}
    (hfits : Fits name) (results : List Embeddings) :
    Desk (tree.putEntry (roomOf tree ++ [fileName name]) (.file (contentOf results) none))
      fun other => if other = name then some results else kept other := by
  have hsturdy := sturdy_putEntry (hd.not_isDir (fileName name)) (hd.not_isLink (fileName name))
    (e := .file (contentOf results) none) fun _ => Entry.noConfusion
  have hroom : roomOf (tree.putEntry (roomOf tree ++ [fileName name])
      (.file (contentOf results) none)) = roomOf tree := by
    rw [roomOf, cwd_putEntry, ← roomOf]
  have hroomDir := hsturdy.directories _ hdir
  have hother : ∀ {n}, n ≠ fileName name → (tree.putEntry (roomOf tree ++ [fileName name])
      (.file (contentOf results) none)).lookup? (roomOf tree ++ [n]) =
        tree.lookup? (roomOf tree ++ [n]) :=
    fun hn => lookup?_putEntry_ne (by simpa using hn) _
  refine ⟨⟨?_, ?_, ?_⟩, ?_, ?_⟩ <;> rw [hroom] at *
  · rw [cwd_putEntry]
    exact hsturdy.directories _ hd.base
  · exact .inr hroomDir
  · intro n e he
    by_cases hn : n = fileName name
    · rw [hn, lookup?_putEntry_self (by simp)] at he
      exact ⟨_, _, (Option.some.inj he).symm⟩
    · rw [hother hn] at he
      exact hd.files n e he
  · intro other
    by_cases hn : other = name
    · rw [hn, lookup?_putEntry_self (by simp), if_pos rfl, Option.map_some]
    · rw [hother (fun h => hn (fileName_inj h)), if_neg hn]
      exact hd.entry other
  · intro other found hfound
    refine ⟨?_, hroomDir⟩
    by_cases hn : other = name
    · rw [hn]
      exact hfits
    · rw [if_neg hn] at hfound
      exact (hd.sound other found hfound).1

theorem write_path (hdir : tree.IsDir (roomOf tree)) {name : String}
    (hname : Solid name) (hfits : Fits name) (c : Content) :
    tree.write (path name) c =
      .ok (tree.putEntry (roomOf tree ++ [fileName name]) (.file c none)) := by
  have hend : Text.endsWith "/" (path name) = false := by
    rw [path_eq hname]
    exact (firm_join _ (isName_fileName hname)).endsWith
  exact write_of_resolve hend ((hd.resolve_path hdir hname).2 ⟨rfl, hfits⟩)
    (hd.not_isDir (fileName name)) c

theorem leave {name : String} (hname : Solid name)
    (results : List Embeddings) :
    Desk (Batch.leave (path name) results tree)
      fun other => if other = name ∧ Fits name then some results else kept other := by
  obtain ⟨room, hroom, hdesk, hdir⟩ := hd.makeRoom
  rw [Batch.leave, hroom]
  dsimp only
  -- A name that does not fit still has room made for it; only the file is not written.
  by_cases hfits : Fits name
  · rw [hdesk.write_path hdir hname hfits]
    simp only [hfits, and_true]
    exact hdesk.put hdir hfits results
  · simp only [hfits, and_false, if_false]
    split
    · exact hdesk
    · next after hwrite =>
      obtain ⟨-, goal, hgoal, -⟩ := write_eq_ok hwrite
      exact absurd ((hdesk.resolve_path hdir hname).1 hgoal).2 hfits

end Desk

/-! ## Sequences of calls -/

def Call.keeps (c : Call) (name : String) : Option (List Embeddings) :=
  if c.label.stem = name ∧ Fits name then c.own.toOption else none

/-- What the first call for a file that came to an end has kept in it. -/
def firstKept (calls : List Call) (name : String) : Option (List Embeddings) :=
  calls.findSome? fun c => c.keeps name

namespace Desk

variable {tree : FileTree} {kept : String → Option (List Embeddings)}

variable (hd : Desk tree kept)
include hd

theorem congr {other : String → Option (List Embeddings)} (h : ∀ name, other name = kept name) :
    Desk tree other :=
  (funext h : other = kept) ▸ hd

theorem results (hname : Solid c.label.stem) :
    c.results tree = ((kept c.label.stem).map .ok).getD c.own := by
  have hs := hd.stored? hname
  cases hk : kept c.label.stem with
  | some found => exact (Call.of_stored (hs.trans hk)).1
  | none => exact (Call.of_not_stored (hs.trans hk)).1

theorem after_call (hname : Solid c.label.stem) :
    Desk (c.files tree) fun name => (kept name).or (c.keeps name) := by
  have hs := hd.stored? hname
  cases hk : kept c.label.stem with
  | some found =>
    rw [(Call.of_stored (hs.trans hk)).2]
    refine hd.congr fun name => ?_
    by_cases hn : c.label.stem = name
    · rw [← hn, hk, Option.some_or]
    · rw [Call.keeps, if_neg fun h => hn h.1, Option.or_none]
  | none =>
    rw [(Call.of_not_stored (hs.trans hk)).2, Call.filesAfter]
    cases hown : c.own with
    | error fault =>
      refine hd.congr fun name => ?_
      rw [Call.keeps, hown, Except.toOption, ite_self, Option.or_none]
    | ok results =>
      refine (hd.leave hname results).congr fun name => ?_
      rw [Call.keeps, hown]
      by_cases hn : name = c.label.stem
      · rw [hn, hk, Option.none_or]
        rfl
      · rw [if_neg fun h => hn h.1.symm, if_neg fun h => hn h.1, Option.or_none]

theorem after_calls {calls : List Call} (hnames : ∀ c ∈ calls, Solid c.label.stem) :
    Desk (Batch.filesAfter tree calls) fun name => (kept name).or (firstKept calls name) := by
  induction calls generalizing tree kept with
  | nil => exact hd.congr fun name => Option.or_none
  | cons c calls ih =>
    have hstep := hd.after_call (hnames c List.mem_cons_self)
    refine (ih hstep fun d hm => hnames d (List.mem_cons_of_mem c hm)).congr fun name => ?_
    rw [Option.or_assoc, firstKept, List.findSome?_cons]
    cases c.keeps name <;> rfl

end Desk

/-- A working directory in which nothing is kept. -/
structure Cleared (tree : FileTree) : Prop where
  base : tree.IsDir (Path.components tree.cwd)
  room : tree.lookup? (roomOf tree) = none ∨ tree.IsDir (roomOf tree)
  empty : ∀ name, tree.lookup? (roomOf tree ++ [name]) = none

theorem Cleared.desk (h : Cleared tree) : Desk tree fun _ => none where
  base := h.base
  room := h.room
  files name e he := by simp [h.empty] at he
  entry name := h.empty (fileName name)
  sound name results h := by cases h

theorem Cleared.results {start : FileTree} (h : Cleared start) {past : List Call}
    (hsolid : ∀ d ∈ c :: past, Solid d.label.stem) :
    c.results (filesAfter start past) = ((firstKept past c.label.stem).map .ok).getD c.own := by
  have hdesk := h.desk.after_calls fun d hd => hsolid d (List.mem_cons_of_mem c hd)
  simpa using hdesk.results (hsolid c List.mem_cons_self)

/-- Whatever calls there were, a call gives what the embedder gives for its own input, what the
files held at the start, or what the embedder gave for the input of an earlier call. From a
directory in which nothing is kept it is decided which: the results of the first call with the same
file, that is with the same name for the same class of embedders, that came to an end, and its own
where there was none. -/
theorem results_of_first_call (start : FileTree) (past : List Call) (c : Call) :
    (c.results (filesAfter start past) = c.own ∨
      ∃ found, c.results (filesAfter start past) = .ok found ∧
        (Held start found ∨ ∃ d ∈ past, d.own = .ok found)) ∧
    (Cleared start → (∀ d ∈ c :: past, Solid d.label.stem) →
      c.results (filesAfter start past) = ((firstKept past c.label.stem).map .ok).getD c.own) := by
  constructor
  · cases hs : stored? (filesAfter start past) (path c.label.stem) with
    | none => exact .inl (Call.of_not_stored hs).1
    | some found =>
      exact .inr ⟨found, (Call.of_stored hs).1, held_filesAfter (held_of_stored hs)⟩
  · exact fun hclear hsolid => hclear.results hsolid

def workplace : FileTree where
  cwd := "/w"
  entries := [(["w"], .directory none)]

theorem workplace_cleared : Cleared workplace := by
  have hroom : roomOf workplace = ["w", "embedding_cache"] := by decide
  refine ⟨⟨none, rfl⟩, ?_, fun name => ?_⟩ <;> rw [hroom]
  · exact .inl rfl
  · rfl

def echoed (text : String) : Embeddings :=
  { data := some [.vector (.arr [.str text]) .null] }

def echoing (name kind text : String) : Call where
  embed _ := pure (echoed text)
  detached _ := inferInstance
  size := .int 25
  label := ⟨name, kind⟩
  input := .arr [.str text]
  outside := { tree := workplace }

theorem echoing_own (name kind text : String) : (echoing name kind text).own =
    .ok [echoed text] := by
  have hslices : slices 24 [Json.str text] = [[.str text]] := by simp [slices]
  have hbatches : batches (.int 25) (listed (.arr [.str text])) = .ok [[.str text]] :=
    congrArg Except.ok hslices
  have hone : (embedOne (echoing name kind text).embed [.str text]).on
      (echoing name kind text).outside =
      (.ok (echoed text), (echoing name kind text).outside) :=
    on_orElse_ok (on_pure (echoed text) _) _
  have hfresh : (fresh (echoing name kind text).embed (.int 25) (.arr [.str text])).on
      (echoing name kind text).outside = (.ok [echoed text], (echoing name kind text).outside) := by
    rw [fresh, on_lift_bind, hbatches, next_ok, List.mapM_cons, List.mapM_nil,
      on_bind_ok hone, on_bind_ok (on_pure _ _), on_pure]
  exact congrArg Prod.fst hfresh

theorem firstKept_echoing :
    firstKept [echoing "b" "F" "x", echoing "b" "E" "y"] "b_E" = some [echoed "y"] := by
  have hb : (echoing "b" "E" "y").keeps "b_E" = some [echoed "y"] := by
    rw [Call.keeps, if_pos ⟨rfl, by decide⟩, echoing_own]
    rfl
  rw [firstKept, List.findSome?_cons, List.findSome?_cons, hb]
  rfl

theorem results_of_first_call_other_text :
    Cleared workplace ∧
      (echoing "b" "E" "z").results
        (filesAfter workplace [echoing "b" "F" "x", echoing "b" "E" "y"]) =
        .ok [echoed "y"] := by
  have hname : (echoing "b" "E" "z").label.stem = "b_E" := by decide
  have hresults := (results_of_first_call workplace [echoing "b" "F" "x", echoing "b" "E" "y"]
    (echoing "b" "E" "z")).2 workplace_cleared (by simp [Solid, echoing, Label.stem])
  rw [hname, firstKept_echoing] at hresults
  exact ⟨workplace_cleared, hresults⟩

/-- The second call with a file does not get the embedding of its own text. -/
theorem results_of_other_text :
    (echoing "b" "E" "z").results
      (filesAfter workplace [echoing "b" "F" "x", echoing "b" "E" "y"]) ≠
      (echoing "b" "E" "z").own := by
  have hname : (echoing "b" "E" "z").label.stem = "b_E" := by decide
  rw [workplace_cleared.results (by simp [Solid, echoing, Label.stem]), hname,
    firstKept_echoing, echoing_own]
  simp [echoed]

end RepoWiki.Provider.Batch
