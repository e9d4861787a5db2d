import RepoWiki.Endpoint.LocalRepository
import RepoWiki.Proofs.Index.Coverage
/-
The overview of a directory. Its lines are the ways to the files that are shown, each once and in
the order of their code points; its text about the repository is that of the first file in the order
of the walk that has one (`overview_exact`).
-/

namespace RepoWiki

open RepoWiki.Path Text

theorem Path.names_injective {v w : List String} (hv : v ≠ []) (hw : w ≠ [])
    (hnv : ∀ n ∈ v, '/' ∉ n.toList) (hnw : ∀ n ∈ w, '/' ∉ n.toList)
    (h : Text.join "/" v = Text.join "/" w) : v = w := by
  rw [← Text.splitOn_join stroke hv hnv, h, Text.splitOn_join stroke hw hnw]

theorem Path.extend_empty {names : List String} (hne : names ≠ []) (hn : names.all isName = true) :
    extend "" names = Text.join "/" names := by
  rw [← join_names "" hne hn, join, relative_names hne hn]
  simp

theorem FileTree.Comes.before {tree : FileTree} {p : String} {place v w : List String}
    (hp : p ≠ "") (hv : v.all isName = true) (hw : w.all isName = true)
    (h : Comes tree p place (extend p v) (extend p w)) : Before tree place v w := by
  obtain ⟨v', w', hv', hw', hbefore, hsame, hsame'⟩ := h
  rwa [extend_injective hp hv hv' hsame, extend_injective hp hw hw' hsame']

variable {name : String}

namespace Endpoint
namespace LocalRepository

open FileTree

/-! ## The files that are shown -/

/-- A file that is shown: no name on the way to it begins with a dot or is among those that are left
out, and the path of its directory can be opened. Links to directories are no files. -/
structure Listed (tree : FileTree) (root : String) (place dirs : List String) (name : String) :
    Prop where
  named : (dirs ++ [name]).all isName = true
  directories : ∀ front, front <+: dirs → tree.IsDir (place ++ front)
  opens : (∀ d ∈ dirs, d.utf8ByteSize ≤ nameLimit) ∧ checkPath (extend root dirs) = .ok ()
  file : tree.IsOther (extend root dirs) (place ++ dirs) name
  visible : ∀ n ∈ dirs ++ [name], Text.startsWith "." n = false
  entered : ∀ d ∈ dirs, d ≠ "__pycache__" ∧ d ≠ "node_modules"
  kept : name ≠ "__init__.py"

/-- A file that tells about the repository: it is shown, has the usual name in whatever case, and
can be read as a text that is not empty. -/
def Tells (tree : FileTree) (root : String) (place way : List String) (text : String) : Prop :=
  ∃ dirs name, way = dirs ++ [name] ∧ Listed tree root place dirs name ∧
    Text.lower name = "readme.md" ∧ tree.readText (extend root way) = .ok text ∧ text ≠ ""

def said (tree : FileTree) (f : String × String) : Option String :=
  match tree.readText (join f.1 f.2) with
  | .ok s => if s = "" then none else some s
  | .error _ => none

theorem entersDirectory_iff :
    entersDirectory name = true ↔
      startsWith "." name = false ∧ name ≠ "__pycache__" ∧ name ≠ "node_modules" := by
  simp [entersDirectory, and_assoc]

theorem showsFile_iff :
    showsFile name = true ↔ startsWith "." name = false ∧ name ≠ "__init__.py" := by
  simp [showsFile]

section

variable {tree : FileTree} {root : String} {place : List String} (ht : tree.Orderly)
  (hroot : tree.directoryAt root = .ok place)
include ht hroot

omit ht in
theorem mem_listed {dirs : List String} {name : String} :
    Listed tree root place dirs name ↔
      (dirs ++ [name]).all isName = true ∧ tree.Visited entersDirectory root place dirs ∧
        tree.IsOther (extend root dirs) (place ++ dirs) name ∧ showsFile name = true := by
  constructor
  · intro h
    have hall := h.named
    rw [List.all_append, Bool.and_eq_true] at hall
    refine ⟨h.named, (visited_iff hroot hall.1).2 ⟨fun d hd => ⟨entersDirectory_iff.2 ?_, ?_⟩,
      h.directories, h.opens.2⟩, h.file, showsFile_iff.2 ⟨h.visible name (by simp), h.kept⟩⟩
    · exact ⟨h.visible d (List.mem_append_left _ hd), h.entered d hd⟩
    · exact h.opens.1 d hd
  · rintro ⟨hnamed, hvisited, hfile, hshows⟩
    have hall := hnamed
    rw [List.all_append, Bool.and_eq_true] at hall
    obtain ⟨hdirs, hplaces, hopens⟩ := (visited_iff hroot hall.1).1 hvisited
    have henters : ∀ d ∈ dirs, _ := fun d hd => entersDirectory_iff.1 (hdirs d hd).1
    obtain ⟨hvisible, hkept⟩ := showsFile_iff.1 hshows
    refine ⟨hnamed, hplaces, ⟨fun d hd => (hdirs d hd).2, hopens⟩, hfile, fun n hn => ?_,
      fun d hd => (henters d hd).2, hkept⟩
    rcases List.mem_append.1 hn with hn | hn
    · exact (henters n hn).1
    · rwa [List.mem_singleton.1 hn]

theorem mem_files {directory : String} :
    (directory, name) ∈ files tree root ↔
      ∃ dirs, directory = extend root dirs ∧ Listed tree root place dirs name := by
  have hwalk : ∀ q names, (q, names) ∈ tree.walk entersDirectory root ↔ _ := fun q names =>
    mem_walkFrom ht hroot (Nat.le_add_right _ _)
  simp only [files, List.mem_flatMap, List.mem_map, List.mem_filter, Prod.mk.injEq]
  constructor
  · rintro ⟨⟨q, names⟩, hvisit, name, ⟨hname, hshows⟩, rfl, rfl⟩
    obtain ⟨dirs, hdirs, hvisited, hq, listing, hlist, hnames⟩ := (hwalk _ _).1 hvisit
    dsimp only at hname ⊢
    subst hq hnames
    obtain ⟨other, hother, -, hothers, -, hsub⟩ :=
      list_eq_ok (hvisited.listed dirs (List.prefix_refl dirs))
    obtain rfl := Except.ok.inj (hother.symm.trans hlist)
    refine ⟨dirs, rfl, (mem_listed hroot).2 ⟨?_, hvisited, (hothers name).1 hname, hshows⟩⟩
    rw [List.all_append, hdirs, List.all_cons, ht.isName_of_mem_namesAt (hsub.subset hname)]
    rfl
  · rintro ⟨dirs, rfl, hlisted⟩
    obtain ⟨hnamed, hvisited, hfile, hshows⟩ := (mem_listed hroot).1 hlisted
    rw [List.all_append, Bool.and_eq_true] at hnamed
    obtain ⟨listing, hlist, -, hothers, -, -⟩ :=
      list_eq_ok (hvisited.listed dirs (List.prefix_refl dirs))
    exact ⟨(extend root dirs, listing.others),
      (hwalk _ _).2 ⟨dirs, hnamed.1, hvisited, rfl, listing, hlist, rfl⟩,
      name, ⟨(hothers name).2 hfile, hshows⟩, rfl, rfl⟩

theorem files_ordered :
    (files tree root).Pairwise fun f g =>
      Comes tree root place (Path.join f.1 f.2) (Path.join g.1 g.2) := by
  have hsub : ((files tree root).map fun f => Path.join f.1 f.2).Sublist
      (pathsOf (tree.walk entersDirectory root)) := by
    rw [files, List.map_flatMap, pathsOf]
    refine List.Sublist.flatMap_right _ fun visit _ => ?_
    rw [List.map_map]
    exact List.filter_sublist.map _
  exact List.pairwise_map.1 ((walk_ordered ht hroot).sublist hsub)

/-! ## Lines -/

omit hroot in
theorem below_extend (hne : root ≠ "") {dirs : List String}
    (hnamed : (dirs ++ [name]).all isName = true) :
    below tree root (extend root dirs) name = Text.join "/" (dirs ++ [name]) := by
  have hall := hnamed
  rw [List.all_append, Bool.and_eq_true] at hall
  have habove : relative tree.cwd (extend root dirs) root =
      if dirs.isEmpty then "." else Text.join "/" dirs := by
    rw [relative, components_absolute_extend ht.rooted hne hall.1, dropCommon_append]
    rfl
  rw [below, habove]
  cases dirs with
  | nil => rfl
  | cons d dirs =>
    rw [List.isEmpty_cons, if_neg Bool.false_ne_true, if_neg fun hpoint => ?_,
      ← extend_empty (List.cons_ne_nil d dirs) hall.1, ← extend_concat,
      extend_empty (by simp) hnamed]
    -- The names in between would be a point, which is no name.
    have hsame := names_injective (w := ["."]) (List.cons_ne_nil d dirs) (by simp)
      (fun n hn => isName.free (List.all_eq_true.1 hall.1 n hn)) (by decide) hpoint
    rw [hsame] at hall
    exact absurd hall.1 (by decide)

theorem mem_fileList {line : String} :
    line ∈ fileList tree root (files tree root) ↔
      ∃ dirs name, Listed tree root place dirs name ∧ line = join "/" (dirs ++ [name]) := by
  have hne := ne_empty_of_directoryAt hroot
  rw [fileList, List.mem_mergeSort, List.mem_map]
  constructor
  · rintro ⟨⟨directory, name⟩, hmem, rfl⟩
    obtain ⟨dirs, rfl, hlisted⟩ := (mem_files ht hroot).1 hmem
    exact ⟨dirs, name, hlisted, below_extend ht hne hlisted.named⟩
  · rintro ⟨dirs, name, hlisted, rfl⟩
    exact ⟨(extend root dirs, name), (mem_files ht hroot).2 ⟨dirs, rfl, hlisted⟩,
      below_extend ht hne hlisted.named⟩

theorem fileList_sorted : (fileList tree root (files tree root)).Pairwise (· < ·) := by
  have hne := ne_empty_of_directoryAt hroot
  have hnodup : ((files tree root).map fun f => below tree root f.1 f.2).Nodup := by
    refine List.pairwise_map.2 ((files_ordered ht hroot).imp_of_mem ?_)
    rintro ⟨q, n⟩ ⟨q', n'⟩ hf hg hcomes
    obtain ⟨dirs, rfl, hlisted⟩ := (mem_files ht hroot).1 hf
    obtain ⟨dirs', rfl, hlisted'⟩ := (mem_files ht hroot).1 hg
    dsimp only at hcomes ⊢
    rw [below_extend ht hne hlisted.named, below_extend ht hne hlisted'.named]
    intro hsame
    have hways := Path.names_injective (by simp) (by simp)
      (fun n hn => Path.isName.free (List.all_eq_true.1 hlisted.named n hn))
      (fun n hn => Path.isName.free (List.all_eq_true.1 hlisted'.named n hn)) hsame
    exact hcomes.ne ht hne (by rw [← Path.extend_concat, ← Path.extend_concat, hways])
  have hsorted : (fileList tree root (files tree root)).Pairwise (· ≤ ·) := by
    refine (List.pairwise_mergeSort (fun a b c hab hbc => ?_) (fun a b => ?_) _).imp
      of_decide_eq_true
    · exact decide_eq_true (String.le_trans (of_decide_eq_true hab) (of_decide_eq_true hbc))
    · simpa using String.le_total a b
  have honce : (fileList tree root (files tree root)).Nodup :=
    (List.mergeSort_perm _ _).nodup_iff.2 hnodup
  exact (hsorted.and honce).imp fun h => Std.lt_of_le_of_ne h.1 h.2

/-! ## The text about the repository -/

omit ht hroot in
theorem said_eq_some {f : String × String} {text : String} :
    said tree f = some text ↔ tree.readText (join f.1 f.2) = .ok text ∧ text ≠ "" := by
  rw [said]
  cases tree.readText (join f.1 f.2) with
  | error fault => simp
  | ok s =>
    by_cases hs : s = ""
    · simp only [hs, if_true, Except.ok.injEq, reduceCtorEq, false_iff]
      exact fun h => h.2 h.1.symm
    · simp only [if_neg hs, Option.some.injEq, Except.ok.injEq]
      exact ⟨fun h => ⟨h, h ▸ hs⟩, fun h => h.1⟩

theorem Tells.mem {way : List String} {text : String} (h : Tells tree root place way text) :
    ∃ f, f ∈ (files tree root).filter (fun f => isReadme f.2) ∧ said tree f = some text ∧
      join f.1 f.2 = extend root way := by
  obtain ⟨dirs, name, rfl, hlisted, hname, htext, hne⟩ := h
  refine ⟨(extend root dirs, name), List.mem_filter.2 ⟨?_, by simpa [isReadme] using hname⟩,
    said_eq_some.2 ⟨by rwa [← extend_concat], hne⟩, (extend_concat ..).symm⟩
  exact (mem_files ht hroot).2 ⟨dirs, rfl, hlisted⟩

theorem tells_of_mem {f : String × String} {text : String}
    (hmem : f ∈ (files tree root).filter fun f => isReadme f.2) (hsaid : said tree f = some text) :
    ∃ way, Tells tree root place way text ∧ join f.1 f.2 = extend root way := by
  obtain ⟨hfile, hname⟩ := List.mem_filter.1 hmem
  obtain ⟨dirs, hdirs, hlisted⟩ := (mem_files ht hroot).1 hfile
  have hpath : join f.1 f.2 = extend root (dirs ++ [f.2]) := by
    rw [hdirs, extend_concat]
  obtain ⟨htext, hne⟩ := said_eq_some.1 hsaid
  rw [hpath] at htext
  exact ⟨dirs ++ [f.2],
    ⟨dirs, f.2, rfl, hlisted, by simpa [isReadme] using hname, htext, hne⟩, hpath⟩

theorem readme_first :
    (readme tree (files tree root) = "" ∧ ∀ way text, ¬Tells tree root place way text) ∨
      ∃ way, Tells tree root place way (readme tree (files tree root)) ∧
        ∀ other text, Tells tree root place other text →
          other = way ∨ Before tree place way other := by
  have hroot' := ne_empty_of_directoryAt hroot
  have hreadme : readme tree (files tree root) =
      (((files tree root).filter fun f => isReadme f.2).findSome? (said tree)).getD "" := rfl
  rw [hreadme]
  cases hfound : ((files tree root).filter fun f => isReadme f.2).findSome? (said tree) with
  | none =>
    refine .inl ⟨rfl, fun way text htells => ?_⟩
    obtain ⟨f, hf, hsaid, -⟩ := htells.mem ht hroot
    rw [List.findSome?_eq_none_iff.1 hfound f hf] at hsaid
    cases hsaid
  | some s =>
    obtain ⟨before, f, after, hsplit, hsaid, hnone⟩ := List.findSome?_eq_some_iff.1 hfound
    obtain ⟨way, hway, hpath⟩ := tells_of_mem ht hroot (by rw [hsplit]; simp) hsaid
    refine .inr ⟨way, hway, fun other text hother => ?_⟩
    obtain ⟨g, hg, hgsaid, hgpath⟩ := hother.mem ht hroot
    have hnames : ∀ {way text}, Tells tree root place way text → way.all Path.isName = true := by
      rintro way text ⟨dirs, name, rfl, hlisted, -⟩
      exact hlisted.named
    have hordered := (files_ordered ht hroot).sublist
      (List.filter_sublist (p := fun f => isReadme f.2))
    rw [hsplit] at hg hordered
    rcases List.mem_append.1 hg with hg | hg
    · rw [hnone g hg] at hgsaid
      cases hgsaid
    · rcases List.mem_cons.1 hg with rfl | hg
      · exact .inl (Path.extend_injective hroot' (hnames hother) (hnames hway)
          (hgpath.symm.trans hpath))
      · have hcomes := List.rel_of_pairwise_cons (List.pairwise_append.1 hordered).2.1 hg
        rw [hpath, hgpath] at hcomes
        exact .inr (hcomes.before hroot' (hnames hway) (hnames hother))

end

theorem overview_of_directory {tree : FileTree} {root : String} {place : List String}
    (hroot : tree.directoryAt root = .ok place) :
    overview tree (.str root) = .ok (.ok (.obj [
      ("file_tree", .str (join "\n" (fileList tree root (files tree root)))),
      ("readme", .str (readme tree (files tree root)))])) := by
  have hne : (Json.str root).truthy = true := by
    simpa [Json.truthy] using ne_empty_of_directoryAt hroot
  have hdirectory : tree.isDirectory root = true := by
    obtain ⟨hresolve, m, hm⟩ := directoryAt_eq_ok hroot
    rw [isDirectory, find?, hresolve]
    simp only [hm]
  rw [overview, hne, namesDirectory, hdirectory]
  rfl

/-- The overview of a directory. Its lines are the ways to the files that are shown, in the order of
their code points and each once. The text about the repository is that of the first file, in the
order of the walk over the directories as they are listed, whose name is that of such a text and
that holds one; it is empty if there is no such file. -/
theorem overview_exact {tree : FileTree} {root : String} {place : List String} (ht : tree.Orderly)
    (hroot : tree.directoryAt root = .ok place) :
    ∃ lines text, overview tree (.str root) =
        .ok (.ok (.obj [("file_tree", .str (Text.join "\n" lines)), ("readme", .str text)])) ∧
      lines.Pairwise (· < ·) ∧
      (∀ line, line ∈ lines ↔
        ∃ dirs name, Listed tree root place dirs name ∧ line = Text.join "/" (dirs ++ [name])) ∧
      ((text = "" ∧ ∀ way told, ¬Tells tree root place way told) ∨
        ∃ way, Tells tree root place way text ∧
          ∀ other told, Tells tree root place other told →
            other = way ∨ Before tree place way other) :=
  ⟨_, _, overview_of_directory hroot, fileList_sorted ht hroot, fun _ => mem_fileList ht hroot,
    readme_first ht hroot⟩

/-! ### An empty text, and other line ends -/

/-- A directory whose text about itself is empty, with one below it whose text is not. -/
def shelf : FileTree where
  cwd := "/"
  entries := [(["r"], .directory none), (["r", "README.md"], .file (.text "") none),
    (["r", "s"], .directory none), (["r", "s", "ReadMe.md"], .file (.text "a\r\nb") none),
    (["r", "s", "__init__.py"], .file (.text "x") none)]

theorem shelf_directoryAt : shelf.directoryAt "r" = .ok ["r"] := rfl

theorem readme_shelf : readme shelf (files shelf "r") = "a\nb" := by decide +kernel

theorem listed_shelf : Listed shelf "r" ["r"] ["s"] "ReadMe.md" := by
  refine (mem_listed shelf_directoryAt).2 ⟨by decide,
    (visited_iff shelf_directoryAt (by decide)).2 ⟨by decide, fun front hfront => ?_, by decide⟩,
    .inl ⟨.text "a\r\nb", none, rfl⟩, by decide⟩
  rcases List.prefix_concat_iff.1 (show front <+: [] ++ ["s"] from hfront) with rfl | hnil
  · exact ⟨none, rfl⟩
  · exact ⟨none, by rw [List.prefix_nil.1 hnil]; rfl⟩

/-- The empty text is passed over, and the file that only marks a package has no line. -/
theorem overview_exact_shelf :
    ∃ lines, overview shelf (.str "r") =
        .ok (.ok (.obj [("file_tree", .str (Text.join "\n" lines)), ("readme", .str "a\nb")])) ∧
      "s/ReadMe.md" ∈ lines ∧ "s/__init__.py" ∉ lines := by
  obtain ⟨lines, text, hoverview, -, hlines, -⟩ :=
    overview_exact ⟨by decide, by decide, by decide⟩ shelf_directoryAt
  have hboth := (overview_of_directory shelf_directoryAt).symm.trans hoverview
  simp only [readme_shelf, Except.ok.injEq, Json.obj.injEq, List.cons.injEq, Prod.mk.injEq,
    Json.str.injEq, true_and, and_true] at hboth
  obtain rfl := hboth.2
  refine ⟨lines, hoverview, (hlines _).2 ⟨["s"], "ReadMe.md", listed_shelf, rfl⟩,
    fun hline => ?_⟩
  obtain ⟨dirs, name, hlisted, hways⟩ := (hlines _).1 hline
  have hsame := names_injective (v := ["s", "__init__.py"]) (by simp) (by simp) (by decide)
    (fun n hn => isName.free (List.all_eq_true.1 hlisted.named n hn)) hways
  exact hlisted.kept (List.append_inj' (show ["s"] ++ ["__init__.py"] = _ from hsame) rfl |>.2 |>
    List.singleton_inj.1).symm

/-- Line ends come out unified. -/
theorem readme_unified :
    shelf.lookup? ["r", "s", "ReadMe.md"] = some (.file (.text "a\r\nb") none) ∧
      readme shelf (files shelf "r") = "a\nb" :=
  ⟨rfl, readme_shelf⟩

end LocalRepository
end Endpoint
end RepoWiki
