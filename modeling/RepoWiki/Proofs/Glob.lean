import RepoWiki.Proofs.Components
import RepoWiki.Proofs.FileTree
/-
Everything below a path. Where all names are proper, what is found below a path that is no pattern
is named by the way to it from there, however the path itself is written.
-/

namespace RepoWiki
variable {ns : List String}

namespace Glob

open FileTree List RepoWiki.Path

/-! ## Paths that are no patterns -/

theorem trimmed_of_firm {p : String} (hp : Path.Firm p) : trimmed p = p := by
  simp only [trimmed, hp.trimEndBy, if_neg hp.ne_empty]

theorem isPattern_trimmed {p : String} (hp : isPattern p = false) :
    isPattern (trimmed p) = false := by
  rw [trimmed]
  split
  · exact hp
  · obtain ⟨k, hk⟩ := exists_strokes p
    rw [isPattern, hk, String.toList_append, any_append, Bool.or_eq_false_iff] at hp
    exact hp.1

/-! ## Everything below a path -/

def shown (tree : FileTree) (dir : String) : List String :=
  ((tree.names dir).toOption.getD []).filter fun name => !Text.startsWith "." name

def listed (tree : FileTree) (root : String) : List (String × String) :=
  ("" :: below tree pathLimit root).flatMap fun way =>
    (shown tree (join root way)).map fun name => (way, name)

def located (root : String) (x : String × String) : String :=
  join (join root x.1) x.2

theorem everything_eq {tree : FileTree} {p : String} (hp : p ≠ "")
    (hpattern : isPattern p = false) :
    everything tree p = (listed tree (trimmed p)).map (located (trimmed p)) := by
  have hroot := (trimmed_spec hp).1
  rw [everything, expand, isPattern_trimmed hpattern, listed, map_flatMap]
  simp only [Bool.false_eq_true, if_false, flatMap_singleton]
  congr 1
  funext way
  rw [if_neg (join_ne_empty hroot way), map_map, shown]
  cases tree.names (join (trimmed p) way) <;> rfl

/-- Whatever is found below a path has a proper name. -/
def TidyBelow (tree : FileTree) (path : String) : Prop :=
  ∀ ns place name, ns.all isName = true → tree.resolve (extend path ns) = .ok place →
    name ∈ tree.namesAt place → isName name = true

section

variable {tree : FileTree} {root : String}

variable {name : String}

theorem mem_directoriesIn {dir : String} (hdir : dir ≠ "") (h : name ∈ directoriesIn tree dir) :
    ∃ place, tree.resolve dir = .ok place ∧ name ∈ tree.namesAt place := by
  rw [directoriesIn, if_neg hdir] at h
  split at h
  · next listing hlisting =>
    obtain ⟨place, hplace, -, hnames⟩ := directories_of_list hlisting
    exact ⟨place, hplace, hnames name h⟩
  · simp at h

theorem mem_shown {dir : String} (h : name ∈ shown tree dir) :
    ∃ place, tree.resolve dir = .ok place ∧ name ∈ tree.namesAt place := by
  have hmem := (mem_filter.1 h).1
  cases hnames : tree.names dir with
  | error fault => simp [hnames, Except.toOption] at hmem
  | ok names =>
    obtain ⟨place, hplace, -, rfl⟩ := names_eq_ok hnames
    exact ⟨place, hplace, by simpa [hnames, Except.toOption] using hmem⟩

theorem join_name_names {ms : List String} (hname : isName name = true)
    (hms : ms.all isName = true) (hne : ms ≠ []) :
    join name (Text.join "/" ms) = Text.join "/" (name :: ms) := by
  rw [(isName.firm hname).join_relative (relative_names hne hms)]
  cases ms with
  | nil => exact absurd rfl hne
  | cons m ms => rw [Text.join, Text.join, String.intercalate_cons_cons]

section

variable (hroot : root ≠ "")
include hroot

theorem isName_of_mem_directoriesIn (htidy : TidyBelow tree root)
    (hns : ns.all isName = true) (h : name ∈ directoriesIn tree (extend root ns)) :
    isName name = true := by
  obtain ⟨place, hplace, hmem⟩ := mem_directoriesIn (extend_ne_empty hroot hns) h
  exact htidy ns place name hns hplace hmem

theorem names_of_mem_below (htidy : TidyBelow tree root) {fuel : Nat}
    (hns : ns.all isName = true) {way : String} (h : way ∈ below tree fuel (extend root ns)) :
    ∃ ms, ms ≠ [] ∧ ms.all isName = true ∧ way = Text.join "/" ms := by
  -- `ns` is the way down so far; the names that are found come after it, one for each directory.
  induction fuel generalizing ns way with
  | zero => simp [below] at h
  | succ fuel ih =>
    rw [below, mem_flatMap] at h
    obtain ⟨name, hname, h⟩ := h
    have hproper := isName_of_mem_directoriesIn hroot htidy hns (mem_filter.1 hname).1
    rcases mem_cons.1 h with rfl | h
    · exact ⟨[way], by simp, by simpa using hproper,
        by rw [Text.join, String.intercalate_singleton]⟩
    · obtain ⟨further, hfurther, rfl⟩ := mem_map.1 h
      rw [← extend_concat] at hfurther
      obtain ⟨ms, hne, hms, rfl⟩ := ih (by simpa [all_append, hns] using hproper) hfurther
      exact ⟨name :: ms, by simp, by simp [hproper, hms], join_name_names hproper hms hne⟩

theorem names_of_mem_ways (htidy : TidyBelow tree root) {way : String}
    (h : way ∈ "" :: below tree pathLimit root) :
    ∃ ms, ms.all isName = true ∧ way = Text.join "/" ms := by
  rcases mem_cons.1 h with rfl | h
  · exact ⟨[], rfl, rfl⟩
  · rw [← extend_nil root] at h
    obtain ⟨ms, -, hms, hway⟩ := names_of_mem_below hroot htidy rfl h
    exact ⟨ms, hms, hway⟩

theorem resolve_join_empty {place : List String} (h : tree.resolve (join root "") = .ok place) :
    tree.resolve root = .ok place := by
  cases hend : Text.endsWith "/" root with
  | true => simpa [join, hend, isAbsolute, Text.startsWith] using h
  | false =>
    refine resolve_stroke (firm_of_not_endsWith hroot hend) ?_
    simpa [join, hroot, hend, isAbsolute, Text.startsWith] using h

theorem names_of_mem_listed (htidy : TidyBelow tree root)
    {x : String × String} (h : x ∈ listed tree root) :
    ∃ ns, ns.all isName = true ∧ isName x.2 = true ∧
      ∀ r, located r x = extend r (ns ++ [x.2]) := by
  obtain ⟨way, hway, h⟩ := mem_flatMap.1 h
  obtain ⟨name, hname, rfl⟩ := mem_map.1 h
  obtain ⟨ms, hms, rfl⟩ := names_of_mem_ways hroot htidy hway
  obtain ⟨place, hplace, hmem⟩ := mem_shown hname
  cases ms with
  | nil =>
    have hproper := htidy [] place name rfl (resolve_join_empty hroot hplace) hmem
    exact ⟨[], rfl, hproper, fun r => join_join_empty r hproper⟩
  | cons m ms =>
    rw [join_names root (cons_ne_nil m ms) hms] at hplace
    refine ⟨m :: ms, hms, htidy _ place name hms hplace hmem, fun r => ?_⟩
    rw [located, join_names r (cons_ne_nil m ms) hms, extend_concat]

end

theorem names_of_mem_everything (hroot : Path.Firm root) (htidy : TidyBelow tree root)
    (hpattern : isPattern root = false) {file : String} (h : file ∈ everything tree root) :
    ∃ ns, ns.all isName = true ∧ file = extend root ns := by
  rw [everything_eq hroot.ne_empty hpattern, trimmed_of_firm hroot] at h
  obtain ⟨x, hx, rfl⟩ := mem_map.1 h
  obtain ⟨ns, hns, hname, hlocated⟩ := names_of_mem_listed hroot.ne_empty htidy hx
  exact ⟨ns ++ [x.2], by simp [all_append, hns, hname], hlocated root⟩

end

/-! ## The same tree at two roots -/

/-- Two roots hold the same tree: along every way of names below them the same directories are
found, the same names are listed, and the same text is read. -/
structure SameTree (tree : FileTree) (r : String) (tree' : FileTree) (r' : String) : Prop where
  directories : ∀ way, way.all isName = true →
    directoriesIn tree (extend r way) = directoriesIn tree' (extend r' way)
  names : ∀ way, way.all isName = true →
    shown tree (join r (Text.join "/" way)) =
      shown tree' (join r' (Text.join "/" way))
  texts : ∀ way, way.all isName = true →
    (tree.readText (extend r way)).toOption = (tree'.readText (extend r' way)).toOption
  tidy : TidyBelow tree r

namespace SameTree

variable {tree tree' : FileTree} {r r' : String}

theorem below_eq (hs : SameTree tree r tree' r') (hr : r ≠ "") (fuel : Nat)
    (hns : ns.all isName = true) :
    below tree fuel (extend r ns) = below tree' fuel (extend r' ns) := by
  induction fuel generalizing ns with
  | zero => rfl
  | succ fuel ih =>
    rw [below, below, ← hs.directories ns hns, flatMap_def, flatMap_def]
    refine congrArg List.flatten (map_congr_left fun name hname => ?_)
    have hproper := isName_of_mem_directoriesIn hr hs.tidy hns (mem_filter.1 hname).1
    rw [← extend_concat, ← extend_concat, ih (by simp [all_append, hns, hproper])]

theorem listed_eq (hs : SameTree tree r tree' r') (hr : r ≠ "") :
    listed tree r = listed tree' r' := by
  have hways :
      below tree pathLimit (extend r []) = below tree' pathLimit (extend r' []) :=
    hs.below_eq hr pathLimit rfl
  rw [extend_nil, extend_nil] at hways
  rw [listed, listed, ← hways, flatMap_def, flatMap_def]
  refine congrArg List.flatten (map_congr_left fun way hway => ?_)
  obtain ⟨ms, hms, rfl⟩ := names_of_mem_ways hr hs.tidy hway
  rw [hs.names ms hms]

end SameTree

end Glob
end RepoWiki
