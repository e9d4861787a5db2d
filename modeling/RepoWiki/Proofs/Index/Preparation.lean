import RepoWiki.Proofs.FileTree
import RepoWiki.Proofs.Ignores
/-
What preparing a repository does, said once for all proofs about it. Making the repository
available only adds directories and delivers files of the copy below the repository's directory
(`locate_underway`). Its index is either the one that is stored or made of pieces of the files that
are now there, and stored (`index_cases`).
-/

namespace RepoWiki

open List Run

namespace Repository

open FileTree

/-! ## Copies -/

def arriving (h : Host) : List WorkFile :=
  match h.clones with
  | .done _ files :: _ => files
  | _ => []

/-- What can become of a file tree while a copy is made in a directory: directories are added, and
files of the copy are delivered. -/
inductive Supplied (directory : String) (files : List WorkFile) (tree : FileTree) : FileTree → Prop
  | same : Supplied directory files tree tree
  | grown {t after : FileTree} (before : Supplied directory files tree t) (growth : Grown t after) :
      Supplied directory files tree after
  | delivered {t : FileTree} {f : WorkFile} (before : Supplied directory files tree t)
      (arrives : f ∈ files) : Supplied directory files tree (deliver directory t f)

variable {directory : String} {files : List WorkFile} {tree after : FileTree}

theorem deliver_cases (directory : String) (tree : FileTree) (f : WorkFile) :
    deliver directory tree f = tree ∨ ∃ grown place, Grown tree grown ∧ place ≠ [] ∧
      deliver directory tree f = grown.putEntry place f.item.entry := by
  unfold deliver
  cases f.item with
  | octets bytes =>
    refine (plant_file tree _ _).imp_right ?_
    rintro ⟨-, grown, place, hgrown, -, hplace, hplanted⟩
    exact ⟨grown, place, hgrown, ne_nil_of_not_isDir hplace, hplanted⟩
  | link target =>
    refine (plant_link tree _ target).imp_right ?_
    rintro ⟨grown, place, hgrown, hplace, hplanted⟩
    refine ⟨grown, place, hgrown, ?_, hplanted⟩
    rintro rfl
    cases hplace

theorem Supplied.makeDirectories {t : FileTree} {p : String}
    (h : Supplied directory files tree t) (hmade : t.makeDirectories p = .ok after) :
    Supplied directory files tree after :=
  h.grown (makeDirectories_grown hmade)

theorem Supplied.deliverAll {t : FileTree} {more : List WorkFile}
    (h : Supplied directory files tree t) (hmore : ∀ f ∈ more, f ∈ files) :
    Supplied directory files tree (more.foldl (deliver directory) t) := by
  induction more generalizing t with
  | nil => exact h
  | cons f more ih =>
    exact ih (h.delivered (hmore f mem_cons_self)) fun g hg =>
      hmore g (mem_cons_of_mem f hg)

/-- The files are as they were or in the making; the libraries are as they were. -/
structure Underway (directory : String) (before h : Host) : Prop where
  supplied : Supplied directory (arriving before) before.tree h.tree
  library : h.library = before.library

def Awaiting (directory : String) (before : Host) (h : Host) : Prop :=
  Underway directory before h ∧ h.clones = before.clones

section

variable {before : Host}

instance (arguments : List Json) : Keeps (Awaiting directory before) (runGit arguments) :=
  .modify fun _ hh => ⟨⟨hh.1.supplied, hh.1.library⟩, hh.2⟩

instance (p : String) :
    Keeps (Awaiting directory before) (changeTree fun t => t.makeDirectories p) :=
  .changeTree fun _ _ hh ht => ⟨⟨hh.1.supplied.makeDirectories ht, hh.1.library⟩, hh.2⟩

instance (target : String) : Keeps (Awaiting directory before) (prepareTarget target) := by
  unfold prepareTarget
  dsimp only
  infer_instance

instance (address target : Json) (hosting : Hosting) (token : Json) :
    Keeps (Awaiting directory before) (prepareClone address target hosting token) := by
  unfold prepareClone
  infer_instance

end

theorem told_eq_ok {token : Json} {reply : CloneReply} {output : String}
    (h : told token reply = .ok (output, files)) : reply = .done output files := by
  cases reply with
  | done _ _ =>
    obtain ⟨rfl, rfl⟩ := Prod.mk.inj (Except.ok.inj h)
    rfl
  | refused message =>
    obtain ⟨hidden, -, h⟩ := except_bind_eq_ok.1 h
    cases h
  | broken text => cases h

theorem runClone_underway {before h : Host} (address token : Json)
    (hh : Awaiting directory before h) :
    Underway directory before ((runClone address (.str directory) token).on h).2 := by
  obtain ⟨hunder, hclones⟩ := hh
  unfold runClone runGit
  rw [on_bind_ok (on_note _ _ _), on_get_bind]
  split
  · rw [on_pure]
    exact ⟨hunder.supplied, hunder.library⟩
  · next reply rest hnext =>
    rw [on_modify_bind, on_lift_bind]
    cases hreply : told token reply with
    | error fault => exact ⟨hunder.supplied, hunder.library⟩
    | ok brought =>
      obtain ⟨output, files⟩ := brought
      have harriving : arriving before = files := by
        rw [arriving, ← hclones, show h.clones = reply :: rest from hnext, told_eq_ok hreply]
      rw [next_ok]
      dsimp only
      rw [on_bind_ok (on_tree _), on_bind_ok (on_setTree _ _), on_pure]
      exact ⟨hunder.supplied.deliverAll fun f hf => harriving ▸ hf, hunder.library⟩

theorem clone_underway {before h : Host} (address : Json) (hosting : Hosting) (token : Json)
    (hh : Awaiting directory before h) :
    Underway directory before ((clone address (.str directory) hosting token).on h).2 := by
  unfold clone runGit
  rw [on_bind_ok (on_note _ _ _), on_get_bind, on_lift_bind]
  generalize hasked : { h with calls := _ } = asked
  have hwaiting : Awaiting directory before asked :=
    hasked ▸ ⟨⟨hh.1.supplied, hh.1.library⟩, hh.2⟩
  cases told token asked.git with
  | error fault => exact hwaiting.1
  | ok version =>
    have hawaiting : Awaiting directory before
        ((prepareClone address (.str directory) hosting token).on asked).2 :=
      Keeps.after asked hwaiting
    rw [next_ok, on_bind]
    generalize (prepareClone address (.str directory) hosting token).on asked = prepared
      at hawaiting ⊢
    obtain ⟨fault | url, k⟩ := prepared
    · exact hawaiting.1
    · cases url with
      | none => rw [next_ok, on_pure]; exact hawaiting.1
      | some url => exact runClone_underway url token hawaiting

end Repository

namespace Index
namespace Database

open FileTree Repository

variable {h k : Host} {paths : Paths} {found : List Document} {settings : Fields} {single : Bool}

/-! ## Making a repository available -/

def pathsOf (root address : String) (hosting : Hosting) : Paths :=
  ⟨(place root address hosting).2,
    Path.join (Path.join root "databases") ((place root address hosting).1 ++ ".pkl")⟩

/-- The directories of a repository and of its index are made last. -/
def settle (paths : Paths) : Run Paths := do
  changeTree fun t => t.makeDirectories paths.repository
  changeTree fun t => t.makeDirectories (Path.parent paths.database)
  return paths

theorem settle_paths {found : Paths} (hs : (settle paths).on h = (.ok found, k)) :
    found = paths := by
  obtain ⟨_, _, _, hs⟩ := bind_eq_ok hs
  obtain ⟨_, _, _, hs⟩ := bind_eq_ok hs
  exact (pure_eq_ok hs).1.symm

/-- The steps of making a repository available: the data root, a copy if it is somewhere else and
there is none, and the directories. -/
theorem locate_on (h : Host) (address : String) (hosting : Hosting) (token : Json) :
    (locate (.str address) hosting token).on h =
      (do
        changeTree fun t => t.makeDirectories h.dataRoot
        if isRemote address then
          if !(← lift (isFilled (← tree) (pathsOf h.dataRoot address hosting).repository))
          then
            let _ ← Repository.clone (.str address)
              (.str (pathsOf h.dataRoot address hosting).repository) hosting token
            settle (pathsOf h.dataRoot address hosting)
          else settle (pathsOf h.dataRoot address hosting)
        else settle (pathsOf h.dataRoot address hosting)).on h := by
  unfold locate
  rw [on_get_bind]
  rfl

theorem locate_paths {address : String} {hosting : Hosting} {token : Json}
    (hl : (locate (.str address) hosting token).on h = (.ok paths, k)) :
    paths = pathsOf h.dataRoot address hosting := by
  rw [locate_on] at hl
  obtain ⟨_, _, _, hl⟩ := bind_eq_ok hl
  split at hl
  · obtain ⟨_, _, _, hl⟩ := bind_eq_ok hl
    obtain ⟨_, _, _, hl⟩ := bind_eq_ok hl
    split at hl
    · obtain ⟨_, _, _, hl⟩ := bind_eq_ok hl
      exact settle_paths hl
    · exact settle_paths hl
  · exact settle_paths hl

theorem locate_underway (h : Host) (address : String) (hosting : Hosting) (token : Json) :
    Underway (pathsOf h.dataRoot address hosting).repository h
      ((locate (.str address) hosting token).on h).2 := by
  generalize hpaths : pathsOf h.dataRoot address hosting = paths
  have hmake : ∀ p, Keeps (Underway paths.repository h)
      (changeTree fun t => t.makeDirectories p) := fun p =>
    .changeTree fun _ _ hh ht => ⟨hh.supplied.makeDirectories ht, hh.library⟩
  have hsettle : Keeps (Underway paths.repository h) (settle paths) := by
    unfold settle
    infer_instance
  have hroot : Awaiting paths.repository h
      ((changeTree fun t => t.makeDirectories h.dataRoot).on h).2 :=
    Keeps.after h ⟨⟨.same, rfl⟩, rfl⟩
  rw [locate_on, hpaths, on_bind]
  generalize (changeTree fun t => t.makeDirectories h.dataRoot).on h = made at hroot ⊢
  obtain ⟨fault | _, k⟩ := made
  · exact hroot.1
  rw [next_ok, on_ite]
  split
  · rw [on_bind_ok (on_tree k), on_lift_bind]
    cases isFilled k.tree paths.repository with
    | error fault => exact hroot.1
    | ok filled =>
      rw [next_ok, on_ite]
      split
      · have hcloned := clone_underway (.str address) hosting token hroot
        rw [on_bind]
        generalize (clone (.str address) (.str paths.repository) hosting token).on k = cloned
          at hcloned ⊢
        obtain ⟨fault | output, m⟩ := cloned
        · exact hcloned
        · exact hsettle.after m hcloned
      · exact hsettle.after k hroot.1
  · exact hsettle.after k hroot.1

/-! ## Making an index -/

/-- Each of the documents is one of those that were found, perhaps with another vector. -/
def Revectored (found documents : List Document) : Prop :=
  ∀ d ∈ documents, ∃ f ∈ found, ∃ vector, d = { f with vector }

theorem withVectors_revectored (vectors : List Vector) (found : List Document) :
    Revectored found (withVectors vectors found) := by
  intro d hd
  obtain ⟨i, hi, rfl⟩ := mem_mapIdx.1 hd
  exact ⟨found[i], getElem_mem hi, _, rfl⟩

theorem embedOne_revectored {expected size : Option Nat} {d : Document} {made : Option Document}
    (he : (Ollama.embedOne expected d).on h = (.ok (made, size), k)) :
    ∀ m ∈ made, ∃ vector, m = { d with vector } := by
  have hpass : ∀ {g : Host} {e : Option Nat},
      (do return (← Ollama.passOver d, e) : Run (Option Document × Option Nat)).on g =
        (.ok (made, size), k) → made = none := by
    intro g e hp
    obtain ⟨none', _, hn, hp⟩ := bind_eq_ok hp
    obtain ⟨_, _, _, hn⟩ := bind_eq_ok hn
    rw [on_pure, Prod.mk.injEq, Except.ok.injEq] at hn hp
    rw [← (Prod.mk.inj hp.1).1, ← hn.1]
  obtain ⟨tried, _, _, he⟩ := bind_eq_ok he
  split at he
  · next vector n =>
    split at he
    · rw [on_pure, Prod.mk.injEq, Except.ok.injEq, Prod.mk.injEq] at he
      rintro m hm
      rw [← he.1.1, Option.mem_some_iff] at hm
      exact ⟨_, hm.symm⟩
    · rw [hpass he]
      simp
  · rw [hpass he]
    simp

theorem embedFrom_revectored {expected : Option Nat} {documents : List Document}
    (he : (Ollama.embedFrom expected found).on h = (.ok documents, k)) :
    Revectored found documents := by
  induction found generalizing expected documents h k with
  | nil =>
    rw [Ollama.embedFrom, on_pure, Prod.mk.injEq, Except.ok.injEq] at he
    rw [← he.1]
    simp [Revectored]
  | cons f found ih =>
    obtain ⟨⟨made, size⟩, _, hmade, he⟩ := bind_eq_ok he
    obtain ⟨others, _, hothers, he⟩ := bind_eq_ok he
    replace he := pure_eq_ok he
    intro d hd
    rw [← he.1, mem_append, Option.mem_toList] at hd
    rcases hd with hd | hd
    · exact ⟨f, mem_cons_self, embedOne_revectored hmade d hd⟩
    · obtain ⟨g, hg, hvector⟩ := ih hothers d hd
      exact ⟨g, mem_cons_of_mem f hg, hvector⟩

/-- What the splitter of a library, with the options of a configuration, cuts out of a text. -/
def Splits (library : Library) (settings : Fields) (whole piece : String) : Prop :=
  ∃ options pieces, splitting settings = .ok options ∧ library.split options = .ok pieces ∧
    piece ∈ pieces whole

/-- Each of the documents is a piece of one that was found, and is known for the same. -/
def Pieced (library : Library) (settings : Fields) (found documents : List Document) : Prop :=
  ∀ d ∈ documents, ∃ f ∈ found, Splits library settings f.text d.text ∧ d.about = f.about

theorem embed_pieced {documents : List Document}
    (he : (embed settings single found).on h = (.ok documents, k)) :
    Pieced h.library settings found documents := by
  rw [embed, on_bind_ok (on_library h)] at he
  obtain ⟨options, _, hoptions, he⟩ := bind_eq_ok he
  rw [on_lift, Prod.mk.injEq] at hoptions
  obtain ⟨pieces, _, hpieces, he⟩ := bind_eq_ok he
  rw [ofLibrary, on_lift, Prod.mk.injEq] at hpieces
  obtain ⟨_, _, _, he⟩ := bind_eq_ok he
  have hcut : Revectored (cut pieces found) documents := by
    split at he
    · exact embedFrom_revectored he
    · obtain ⟨_, _, _, he⟩ := bind_eq_ok he
      obtain ⟨vectors, _, _, he⟩ := bind_eq_ok he
      rw [← (pure_eq_ok he).1]
      exact withVectors_revectored vectors _
  have hsplit : h.library.split options = .ok pieces := by
    cases hs : h.library.split options with
    | error text => rw [hs] at hpieces; cases hpieces.1
    | ok others => rw [hs] at hpieces; rw [Except.ok.inj hpieces.1]
  intro d hd
  obtain ⟨piece, hpiece, vector, rfl⟩ := hcut d hd
  obtain ⟨f, hf, hpiece⟩ := mem_flatMap.1 hpiece
  obtain ⟨text, htext, rfl⟩ := mem_map.1 hpiece
  exact ⟨f, hf, ⟨options, pieces, hoptions.1, hsplit, htext⟩, rfl⟩

theorem readBy_on (count : String → Nat) (settings : Fields) (root : String) (wishes : Wishes)
    (h : Host) :
    (readBy count settings (.str root) wishes).on h =
      (Filter.ofWishes settings wishes >>= fun filter =>
        if root.toList.contains (Char.ofNat 0) then .error (.file .nulInside root)
        else documentsBy count h.tree root filter, h) := by
  unfold readBy
  rw [on_lift_bind]
  cases Filter.ofWishes settings wishes with
  | error fault => rfl
  | ok filter =>
    rw [next_ok, ok_bind]
    dsimp only
    rw [on_ite]
    split
    · rw [on_throw_bind]
    · rw [on_bind_ok (on_tree h), on_lift]

def keep (settings : Fields) (paths : Paths) (found : List Document) (single : Bool) :
    Run (List Document) := do
  let made ← embed settings single found
  changeTree fun t => do
    let t ← t.makeDirectories (Path.parent paths.database)
    t.write paths.database (.value (.arr (made.map Document.pack)))
  return made

theorem build_on (settings : Fields) (paths : Paths) (single : Option Bool) (wishes : Wishes)
    (h : Host) :
    (build settings paths single wishes).on h =
      (do
        let found ← readBy (h.library.count single) settings (.str paths.repository) wishes
        let single ← lift (single.elim (Config.usesOllama settings) .ok)
        keep settings paths found single).on h := by
  rw [build, on_bind_ok (on_library h)]
  cases single <;> rfl

theorem keep_eq_ok {made : List Document}
    (hk : (keep settings paths found single).on h = (.ok made, k)) :
    Pieced h.library settings found made ∧ ∃ t, Grown h.tree t ∧
      t.write paths.database (.value (.arr (made.map Document.pack))) = .ok k.tree := by
  obtain ⟨embedded, h₁, hembedded, hk⟩ := bind_eq_ok hk
  obtain ⟨_, h₂, hstored, hk⟩ := bind_eq_ok hk
  obtain ⟨rfl, rfl⟩ := pure_eq_ok hk
  obtain ⟨t, hmade, hwritten⟩ := except_bind_eq_ok.1 (changeTree_eq_ok hstored)
  have htree := Ignores.tree_eq (embed settings single found) h
  rw [hembedded] at htree
  exact ⟨embed_pieced hembedded, t, htree ▸ makeDirectories_grown hmade, hwritten⟩

theorem keep_eq_error {fault : Fault}
    (hk : (keep settings paths found single).on h = (.error fault, k)) : k.tree = h.tree := by
  have htree := Ignores.tree_eq (embed settings single found) h
  rcases bind_eq_error hk with hembed | ⟨embedded, h₁, hembedded, hk⟩
  · rwa [hembed] at htree
  · rw [hembedded] at htree
    rcases bind_eq_error hk with hstored | ⟨_, h₂, _, hk⟩
    · rwa [changeTree_eq_error hstored]
    · simp at hk

theorem build_eq_ok {single : Option Bool} {wishes : Wishes} {made : List Document}
    (hb : (build settings paths single wishes).on h = (.ok made, k)) :
    ∃ filter found t, Filter.ofWishes settings wishes = .ok filter ∧
      documentsBy (h.library.count single) h.tree paths.repository filter = .ok found ∧
      Pieced h.library settings found made ∧ Grown h.tree t ∧
        t.write paths.database (.value (.arr (made.map Document.pack))) = .ok k.tree := by
  rw [build_on] at hb
  obtain ⟨found, h₁, hread, hb⟩ := bind_eq_ok hb
  rw [readBy_on, Prod.mk.injEq] at hread
  obtain ⟨hread, rfl⟩ := hread
  obtain ⟨one, h₁, hone, hb⟩ := bind_eq_ok hb
  rw [on_lift, Prod.mk.injEq] at hone
  obtain ⟨-, rfl⟩ := hone
  obtain ⟨hpieced, t, hgrown, hwritten⟩ := keep_eq_ok hb
  obtain ⟨filter, hfilter, hread⟩ := except_bind_eq_ok.1 hread
  have hfound :
      documentsBy (h.library.count single) h.tree paths.repository filter = .ok found := by
    split at hread
    · simp at hread
    · exact hread
  exact ⟨filter, found, t, hfilter, hfound, hpieced, hgrown, hwritten⟩

theorem build_eq_error {single : Option Bool} {wishes : Wishes} {fault : Fault}
    (hb : (build settings paths single wishes).on h = (.error fault, k)) : k.tree = h.tree := by
  rw [build_on] at hb
  rcases bind_eq_error hb with hread | ⟨found, h₁, hread, hb⟩
  · rw [readBy_on, Prod.mk.injEq] at hread
    rw [hread.2]
  · rw [readBy_on, Prod.mk.injEq] at hread
    obtain ⟨-, rfl⟩ := hread
    rcases bind_eq_error hb with hone | ⟨one, h₁, hone, hb⟩
    · rw [on_lift, Prod.mk.injEq] at hone
      rw [hone.2]
    · rw [on_lift, Prod.mk.injEq] at hone
      rw [keep_eq_error hb, hone.2]

/-! ## Preparing -/

def report (db : Database) : Result (List Document) → Run (Database × Result (List Document))
  | .ok documents => return ({ db with loaded := true }, .ok documents)
  | .error fault => return (db, .error fault)

theorem index_cases (h : Host) (db : Database) (hpaths : db.paths = some paths)
    (settings : Fields) (single : Option Bool) (wishes : Wishes) :
    ∃ left r m, (db.index settings single wishes).on h = (.ok (left, r), m) ∧
      ((∃ d rest, stored? h.tree paths.database = some (d :: rest) ∧ r = .ok (d :: rest) ∧ m = h) ∨
        (build settings paths single wishes).on h = (r, m)) := by
  have hbuild : ∀ db : Database, ∃ left r m,
      (attempt (build settings paths single wishes) >>= report db).on h =
        (.ok (left, r), m) ∧ (build settings paths single wishes).on h = (r, m) := by
    intro db
    rw [on_bind_ok (on_attempt _ h)]
    rcases (build settings paths single wishes).on h with ⟨fault | documents, k⟩
    · exact ⟨db, .error fault, k, on_pure _ k, rfl⟩
    · exact ⟨{ db with loaded := true }, .ok documents, k, on_pure _ k, rfl⟩
  unfold index
  rw [hpaths]
  dsimp only
  rw [on_bind_ok (on_tree h)]
  split
  · next d rest hstored =>
    exact ⟨_, .ok (d :: rest), h, on_pure _ h, .inl ⟨d, rest, hstored, rfl, rfl⟩⟩
  · obtain ⟨left, r, m, hon, hmade⟩ := hbuild _
    exact ⟨left, r, m, hon, .inr hmade⟩

/-- Everything that a call can do. Once the repository is available the call gives the stored
documents or makes the index; where it cannot be made available the call fails. -/
theorem prepare_cases (h : Host) (settings : Fields) (address : String) (hosting : Hosting)
    (token : Json) (single : Option Bool) (wishes : Wishes) :
    ∃ db r m,
      (prepare settings (.str address) hosting token single wishes).on h = (.ok (db, r), m) ∧
      ((∃ fault, r = .error fault ∧ m = ((locate (.str address) hosting token).on h).2) ∨
        (∃ d rest, stored? ((locate (.str address) hosting token).on h).2.tree
            (pathsOf h.dataRoot address hosting).database = some (d :: rest) ∧
          r = .ok (d :: rest) ∧ m = ((locate (.str address) hosting token).on h).2) ∨
        (build settings (pathsOf h.dataRoot address hosting) single wishes).on
            ((locate (.str address) hosting token).on h).2 = (r, m)) := by
  have hcreate : (create {} (.str address) hosting token).on h =
      match (locate (.str address) hosting token).on h with
      | (.ok paths, k) =>
          (.ok ({ repository := (Json.str address).asText?, paths := some paths }, .ok ()), k)
      | (.error fault, k) => (.ok ({}, .error fault), k) := by
    unfold create
    rw [on_bind_ok (on_attempt _ h)]
    rcases (locate (.str address) hosting token).on h with ⟨fault | paths, k⟩ <;>
      exact on_pure _ k
  unfold prepare
  rw [on_bind, hcreate]
  rcases hl : (locate (.str address) hosting token).on h with ⟨fault | paths, k⟩
  · exact ⟨{}, .error fault, k, on_pure _ k, .inl ⟨fault, rfl, rfl⟩⟩
  · obtain rfl := locate_paths hl
    obtain ⟨left, r, m, hon, hcases⟩ :=
      index_cases k { repository := (Json.str address).asText?, paths := some _ } rfl settings
        single wishes
    exact ⟨left, r, m, hon, .inr hcases⟩

end Database
end Index
end RepoWiki
