import RepoWiki.Proofs.Subtree
import RepoWiki.Proofs.Walk
/-
A search for everything below a root, in a tree without links.

It comes to the same directories as a walk that enters no hidden one, in the same order, and what
can be opened of what it finds are the files that such a walk lists (`filterMap_everything`). The
two have their own bounds on the depth, and a search puts a stroke at the end of the root; neither
shows, as no path that long can be opened.
-/

namespace RepoWiki
namespace Glob

open FileTree List RepoWiki.Path

/-! ## A search is a walk -/

def isShown (name : String) : Bool :=
  !Text.startsWith "." name

def Plain (tree : FileTree) (place : List String) : Prop :=
  ∀ way, way ≠ [] → ¬tree.IsLink (place ++ way)

theorem plain_of_entries {tree : FileTree} (h : ∀ e ∈ tree.entries, ∀ target, e.2 ≠ .link target)
    (place : List String) : Plain tree place := by
  rintro way hway ⟨target, htarget⟩
  have hne := append_ne_nil_of_right_ne_nil place hway
  exact h _ (mem_entries_of_lookup? hne htarget) target rfl

section

variable {tree : FileTree} {β : Type} {g : String → Option β}

variable {dir root : String} {place : List String}

def foundIn (tree : FileTree) (g : String → Option β) (dir : String) : List β :=
  (shown tree dir).filterMap fun name => g (Path.join dir name)

def foundBelow (tree : FileTree) (g : String → Option β) (fuel : Nat) (dir : String) : List β :=
  foundIn tree g dir ++ (below tree fuel dir).flatMap fun way => foundIn tree g (Path.join dir way)

def foundOn (g : String → Option β) (visit : String × List String) : List β :=
  ((visit.2.map (Path.join visit.1)).filter fun p => isShown (Path.base p)).filterMap g

/-- The files below a root that are not hidden, in the order of a walk that enters no hidden
directory. -/
def visible (tree : FileTree) (root : String) : List String :=
  (pathsOf (tree.walk isShown root)).filter fun p => isShown (Path.base p)

theorem shown_of_error {fault : Fault} (h : tree.directoryAt dir = .error fault) :
    shown tree dir = [] := by
  rw [shown, names, h]
  rfl

theorem shown_of_directoryAt (h : tree.directoryAt dir = .ok place) :
    shown tree dir = (tree.namesAt place).filter isShown := by
  rw [shown, names, h]
  rfl

theorem foundBelow_of_error {fuel : Nat} {fault : Fault} (hdir : dir ≠ "")
    (h : tree.directoryAt dir = .error fault) : foundBelow tree g fuel dir = [] := by
  have hbelow : below tree fuel dir = [] := by
    cases fuel with
    | zero => rfl
    | succ fuel =>
      rw [below, directoriesIn_of_error hdir h]
      rfl
  rw [foundBelow, foundIn, shown_of_error h, hbelow]
  rfl

variable (ht : tree.Orderly) (hg : ∀ p, (∀ c, tree.open? p ≠ .ok c) → g p = none)

theorem Plain.below (h : Plain tree place) (name : String) :
    Plain tree (place ++ [name]) := by
  intro way _ hlink
  rw [append_assoc] at hlink
  exact h ([name] ++ way) (by simp) hlink

theorem Plain.name (h : Plain tree place) (name : String) :
    ¬tree.IsLink (place ++ [name]) :=
  h [name] (cons_ne_nil name [])

theorem not_open?_of_isDir {name : String} (hdir : tree.directoryAt dir = .ok place)
    (hname : isName name = true) (hbelow : tree.IsDir (place ++ [name])) (c : Content) :
    tree.open? (join dir name) ≠ .ok c := by
  intro hopen
  obtain ⟨found, m, hfound, hfile⟩ := open?_eq_ok.1 hopen
  obtain ⟨hresolve, hplace⟩ := directoryAt_eq_ok hdir
  obtain ⟨rfl, -⟩ :=
    (resolve_join_eq_ok hresolve hplace hname (not_isLink_of_isDir hbelow)).1 hfound
  obtain ⟨n, hn⟩ := hbelow
  rw [hn] at hfile
  cases hfile

include ht hg in
theorem foundIn_eq_foundOn {listing : Listing} (hplain : Plain tree place)
    (hdir : tree.directoryAt dir = .ok place) (hlist : tree.list dir = .ok listing) :
    foundIn tree g dir = foundOn g (dir, listing.others) := by
  rw [list, hdir, ok_bind, except_pure_eq_ok] at hlist
  rw [foundIn, foundOn, shown_of_directoryAt hdir, ← hlist]
  dsimp only
  rw [filter_map, filterMap_map, filter_filter, filterMap_filter, filterMap_filter]
  refine filterMap_congr fun name hname => ?_
  have hproper := ht.isName_of_mem_namesAt hname
  simp only [Function.comp_apply, base_join (ne_empty_of_directoryAt hdir) hproper]
  cases hfound : tree.lookup? (place ++ [name]) with
  | none => simp
  | some e =>
    cases e with
    | file c m => simp
    | link target => exact absurd ⟨target, hfound⟩ (hplain.name name)
    | directory m =>
      have hnone : g (join dir name) = none :=
        hg _ (not_open?_of_isDir hdir hproper ⟨m, hfound⟩)
      simp [hnone]

theorem entered_of_plain {listing : Listing} (hplain : Plain tree place)
    (hdir : tree.directoryAt dir = .ok place) (hlist : tree.list dir = .ok listing) :
    entered isShown listing = listing.directories.filter isShown := by
  rw [list, hdir, ok_bind, except_pure_eq_ok] at hlist
  have hlinks : listing.links = [] := by
    rw [← hlist]
    refine filter_eq_nil_iff.2 fun name _ => ?_
    cases hfound : tree.lookup? (place ++ [name]) with
    | none => simp
    | some e =>
      cases e with
      | link target => exact absurd ⟨target, hfound⟩ (hplain.name name)
      | file | directory => simp
  rw [entered, hlinks]
  simp

omit hg in
include ht in
theorem tidyBelow (path : String) : TidyBelow tree path :=
  fun _ _ _ _ _ hname => ht.isName_of_mem_namesAt hname

include ht in
theorem foundBelow_succ {fuel : Nat} (hdir : dir ≠ "") :
    foundBelow tree g (fuel + 1) dir = foundIn tree g dir ++
      ((directoriesIn tree dir).filter isShown).flatMap fun name =>
        foundBelow tree g fuel (join dir name) := by
  rw [foundBelow, below, flatMap_assoc]
  refine congrArg (foundIn tree g dir ++ ·) ?_
  rw [flatMap_def, flatMap_def]
  refine congrArg flatten (map_congr_left fun name hname => ?_)
  have hproper : isName name = true := by
    obtain ⟨place, -, hmem⟩ := mem_directoriesIn hdir (mem_filter.1 hname).1
    exact ht.isName_of_mem_namesAt hmem
  have hne := join_ne_empty hdir name
  rw [flatMap_cons, foundBelow, flatMap_map, flatMap_def, flatMap_def]
  refine congrArg (fun ways => _ ++ flatten ways) (map_congr_left fun way hway => ?_)
  rw [← extend_nil (join dir name)] at hway
  obtain ⟨ms, hms, hall, rfl⟩ := names_of_mem_below hne (tidyBelow ht _) rfl hway
  rw [join_join dir (isName.ne_empty hproper) (isName.relative hproper)
    (relative_names hms hall)]

include ht hg in
theorem foundBelow_eq_walkFrom {fuel more : Nat} (hplain : Plain tree place)
    (hdir : tree.directoryAt dir = .ok place) (hfuel : pathLimit ≤ fuel + dir.utf8ByteSize)
    (hmore : pathLimit ≤ more + dir.utf8ByteSize) :
    foundBelow tree g fuel dir = (tree.walkFrom isShown more dir).flatMap (foundOn g) := by
  induction more generalizing fuel dir place with
  | zero =>
    have hsize := size_lt_of_directoryAt hdir
    omega
  | succ more ih =>
    have hsize := size_lt_of_directoryAt hdir
    have hne := ne_empty_of_directoryAt hdir
    obtain ⟨fuel, rfl⟩ : ∃ n, fuel = n + 1 := ⟨fuel - 1, by omega⟩
    obtain ⟨listing, hlist, hdirectories, -⟩ := list_eq_ok hdir
    have hin : directoriesIn tree dir = listing.directories := by
      rw [directoriesIn, if_neg hne, hlist]
    rw [foundBelow_succ ht hne, walkFrom_succ hlist, flatMap_cons, flatMap_assoc,
      foundIn_eq_foundOn ht hg hplain hdir hlist, hin, ← entered_of_plain hplain hdir hlist,
      flatMap_def, flatMap_def]
    refine congrArg (fun below => _ ++ flatten below) (map_congr_left fun name hname => ?_)
    have hbelow := ((mem_entered hdirectories).1 hname).2
    have hproper := ht.isName_of_isDir hbelow
    cases hplace : tree.directoryAt (join dir name) with
    | error fault =>
      rw [foundBelow_of_error (join_ne_empty hne name) hplace, walkFrom_of_error hplace]
      rfl
    | ok next =>
      obtain ⟨rfl, -⟩ := (directoryAt_below hdir hproper hbelow).1 hplace
      exact ih (hplain.below name) hplace (fuel_below hfuel hproper) (fuel_below hmore hproper)

omit hg in
include ht in
theorem isName_of_mem_shown {name : String} (h : name ∈ shown tree dir) :
    isName name = true := by
  obtain ⟨place, -, hmem⟩ := mem_shown h
  exact ht.isName_of_mem_namesAt hmem

include ht hg in
/-- A stroke at the end of a root is a matter of one octet. Where it makes the root too long, every
name below the root does so as well. -/
theorem foundIn_stroke (hdir : tree.directoryAt dir = .ok place) :
    foundIn tree g (join dir "") = foundIn tree g dir := by
  have hne := ne_empty_of_directoryAt hdir
  cases hend : Text.endsWith "/" dir with
  | true => simp [join, hend, isAbsolute, Text.startsWith]
  | false =>
    have hfirm := firm_of_not_endsWith hne hend
    have hjoin : join dir "" = dir ++ "/" := by
      rw [hfirm.join_relative (by decide), String.append_empty]
    have hnames : foundIn tree g (join dir "") =
        (shown tree (dir ++ "/")).filterMap fun name => g (join dir name) := by
      rw [foundIn, hjoin]
      refine filterMap_congr fun name hname => ?_
      rw [← hjoin, join_join_empty dir (isName_of_mem_shown ht hname)]
    rw [hnames, foundIn]
    cases hstroke : tree.directoryAt (dir ++ "/") with
    | ok other =>
      have hcheck := (resolve_eq_ok.1 (directoryAt_eq_ok hstroke).1).1
      rw [shown_of_directoryAt (directoryAt_stroke hfirm hdir hcheck), shown_of_directoryAt hdir]
    | error fault =>
      rw [shown_of_error hstroke, filterMap_nil, eq_comm, filterMap_eq_nil_iff]
      intro name hname
      refine hg _ fun c hopen => ?_
      obtain ⟨found, m, hfound, -⟩ := open?_eq_ok.1 hopen
      have hcheck := (resolve_eq_ok.1 hfound).1
      rw [hfirm.join (isName_of_mem_shown ht hname)] at hcheck
      have hlonger := directoryAt_stroke hfirm hdir
        (checkPath_of_append (append_ne_empty (by decide)) hcheck)
      rw [hstroke] at hlonger
      cases hlonger

include ht hg in
theorem filterMap_everything (hroot : root ≠ "") (hpattern : isPattern root = false)
    (hplain : Plain tree place) (hdir : tree.directoryAt (trimmed root) = .ok place) :
    (everything tree root).filterMap g = (visible tree (trimmed root)).filterMap g := by
  have hfound : (everything tree root).filterMap g =
      foundBelow tree g pathLimit (trimmed root) := by
    rw [everything_eq hroot hpattern, listed, map_flatMap, filterMap_flatMap,
      flatMap_cons, foundBelow, ← foundIn_stroke ht hg hdir]
    simp only [foundIn, map_map, filterMap_map]
    rfl
  rw [hfound, visible, walk, pathsOf, filter_flatMap, filterMap_flatMap]
  exact foundBelow_eq_walkFrom ht hg hplain hdir (Nat.le_add_right _ _) (Nat.le_add_right _ _)

omit hg in
include ht in
theorem mem_visible {file : String} (hplain : Plain tree place)
    (hdir : tree.directoryAt root = .ok place) :
    file ∈ visible tree root ↔
      ∃ way name, (way ++ [name]).all isName = true ∧ tree.Visited isShown root place way ∧
        isShown name = true ∧ (∃ c m, tree.lookup? (place ++ (way ++ [name])) = some (.file c m)) ∧
        file = extend root (way ++ [name]) := by
  have hbase : ∀ way name, (way ++ [name]).all isName = true →
      base (extend root (way ++ [name])) = name := by
    intro way name hall
    rw [all_append, Bool.and_eq_true] at hall
    rw [extend_concat, base_join (extend_ne_empty (ne_empty_of_directoryAt hdir) hall.1)
      (by simpa using hall.2)]
  rw [visible, mem_filter, mem_walk ht hdir]
  constructor
  · rintro ⟨⟨way, name, hall, hvisited, hother, rfl⟩, hshown⟩
    rw [hbase way name hall] at hshown
    refine ⟨way, name, hall, hvisited, hshown, ?_, rfl⟩
    rcases hother with hfile | ⟨hlink, -⟩
    · rwa [append_assoc] at hfile
    · rw [append_assoc] at hlink
      exact absurd hlink (hplain _ (by simp))
  · rintro ⟨way, name, hall, hvisited, hshown, hfile, rfl⟩
    rw [← append_assoc] at hfile
    exact ⟨⟨way, name, hall, hvisited, .inl hfile, rfl⟩, by rwa [hbase way name hall]⟩

omit hg in
include ht in
theorem nodup_visible (hdir : tree.directoryAt root = .ok place) : (visible tree root).Nodup :=
  (nodup_walk ht hdir).filter _

end

theorem directoryAt_trimmed {tree : FileTree} {root : String} {place : List String}
    (h : tree.directoryAt root = .ok place) : tree.directoryAt (trimmed root) = .ok place := by
  rw [trimmed]
  split
  · exact h
  · next hne =>
    obtain ⟨hresolve, hdir⟩ := directoryAt_eq_ok h
    obtain ⟨hcheck, hleads⟩ := resolve_eq_ok.1 hresolve
    obtain ⟨k, hk⟩ := exists_strokes root
    refine directoryAt_of_isDir (resolve_eq_ok.2 ⟨checkPath_of_append hne (hk ▸ hcheck), ?_⟩) hdir
    have hnamed := hleads.named
    have horigin : tree.origin root = tree.origin (Text.trimEndBy (· == '/') root) := by
      rw [origin, origin, ← isAbsolute_append hne (String.ofList (replicate k '/')), ← hk]
    have hsame : named root = named (Text.trimEndBy (· == '/') root) :=
      (congrArg named hk).trans (named_strokes _ k)
    rw [horigin, hsame] at hnamed
    rcases steps_eq (Text.trimEndBy (· == '/') root) with hsteps | hsteps
    · rwa [hsteps]
    · rw [hsteps]
      exact hnamed.append hdir fun fewer => .stay hdir (by decide) (.here fewer place)

end Glob

end RepoWiki
