import RepoWiki.Proofs.Removal
import RepoWiki.Proofs.Walk
import RepoWiki.Proofs.Wiki.Cache
/-
The list of kept wikis, read off the names of their files. A name is read by taking out the mark
and the ending wherever they occur and cutting the rest at the joints, so a key is read back exactly
if neither of the two occurs between its parts (`Key.ofFileName?_fileName`). A wiki that has been
stored is therefore listed under its own key for these keys, and for no others (`listed_iff`).
-/

namespace RepoWiki

open FileTree List Text

namespace Text

variable {c : Char}

theorem splitFrom_ne_nil (piece xs : List Char) : splitFrom [c] 0 piece xs ≠ [] := by
  induction xs generalizing piece with
  | nil => simp [splitFrom]
  | cons d xs ih =>
    rw [splitFrom_cons]
    split
    · exact cons_ne_nil _ _
    · exact ih _

theorem splitOn_ne_nil {sep : String} (hs : Sole c sep) (s : String) : splitOn sep s ≠ [] := by
  rw [Sole] at hs
  rw [splitOn, hs, Ne, map_eq_nil_iff]
  exact splitFrom_ne_nil _ _

theorem intercalate_splitFrom (piece xs : List Char) :
    [c].intercalate (splitFrom [c] 0 piece xs) = piece.reverse ++ xs := by
  induction xs generalizing piece with
  | nil => simp [splitFrom]
  | cons d xs ih =>
    rw [splitFrom_cons]
    split
    · next hd =>
      rw [intercalate_cons_of_ne_nil (splitFrom_ne_nil _ _), ih, hd]
      simp
    · rw [ih]
      simp

theorem join_splitOn {sep : String} (hs : Sole c sep) (s : String) :
    join sep (splitOn sep s) = s := by
  rw [Sole] at hs
  rw [← String.toList_inj, join, String.toList_intercalate, splitOn, map_map, hs]
  simp [Function.comp_def, intercalate_splitFrom]

end Text

namespace Wiki
namespace Cache

/-! ## Keys from file names -/

theorem Key.replaceAll_fileName (k : Key) :
    replaceAll ending "" (replaceAll mark "" k.fileName) =
      replaceAll ending "" (replaceAll mark "" k.middle) := by
  have hmark : replaceAll mark "" ending = ending := by decide
  have hending : replaceAll ending "" ending = "" := by decide
  have hseam : ∀ c ∈ ending.toList.head?, c ∉ mark.toList.tail ∧ c ∉ ending.toList.tail := by
    intro c hc
    obtain rfl : '.' = c := Option.some.inj hc
    decide
  rw [fileName, String.append_assoc, replaceAll_self_append (by decide),
    replaceAll_append (by decide) _ fun c hc => (hseam c hc).1, hmark,
    replaceAll_append (by decide) _ fun c hc => (hseam c hc).2, hending, String.append_empty]

theorem Key.join_of_ofParts? {parts : List String} {k : Key} (h : ofParts? parts = some k) :
    join "_" parts = k.middle := by
  match parts, h with
  | kind :: owner :: rest, h =>
    rw [ofParts?] at h
    split at h
    · simp at h
    · next hlength =>
      obtain ⟨parts, language, rfl⟩ : ∃ parts language, rest = parts ++ [language] := by
        rcases eq_nil_or_concat rest with rfl | ⟨parts, language, rfl⟩
        · simp at hlength
        · exact ⟨parts, language, concat_eq_append⟩
      rw [length_append, length_singleton] at hlength
      have hparts : parts ≠ [] := length_pos_iff.1 (by omega)
      rw [dropLast_concat, getLast?_concat] at h
      rw [← Option.some.inj h, middle, Option.getD_some, join, join,
        String.intercalate_cons_cons, String.intercalate_cons_of_ne_nil (by simp),
        String.intercalate_append_of_ne_nil hparts (cons_ne_nil _ _),
        String.intercalate_singleton]
      simp only [String.append_assoc]

theorem Key.ofParts?_splitOn_middle {k : Key} (hk : k.Apart) :
    ofParts? (splitOn "_" k.middle) = some k := by
  have hsplit : splitOn "_" k.middle =
      k.kind :: k.owner :: (splitOn "_" k.repo ++ [k.language]) := by
    simp only [middle, splitOn_append joint, splitOn_free joint hk.kind,
      splitOn_free joint hk.owner, splitOn_free joint hk.language]
    rfl
  have hpos := length_pos_iff.2 (splitOn_ne_nil joint k.repo)
  have hlength : ¬(splitOn "_" k.repo ++ [k.language]).length < 2 := by
    rw [length_append, length_singleton]
    omega
  rw [hsplit, ofParts?, if_neg hlength, dropLast_concat, getLast?_concat,
    join_splitOn joint, Option.getD_some]

theorem Key.ofFileName?_fileName {k : Key} (hk : k.Apart) :
    ofFileName? k.fileName = some k ↔
      hasInfix mark k.middle = false ∧ hasInfix ending k.middle = false := by
  rw [ofFileName?, replaceAll_fileName]
  constructor
  · intro hread
    have hrest := join_of_ofParts? hread
    rw [join_splitOn joint] at hrest
    -- Nothing can have been taken out: what is left is as long as before.
    have hmark : hasInfix mark k.middle = false := by
      refine Bool.eq_false_iff.2 fun hinside => ?_
      have hle : (replaceAll ending "" (replaceAll mark "" k.middle)).length ≤
          (replaceAll mark "" k.middle).length := length_replaceAll_le (by decide) _
      have hlt := length_replaceAll_lt (by decide) hinside
      rw [hrest] at hle
      omega
    rw [(replaceAll_eq_self_iff (by decide) _).2 hmark] at hrest
    exact ⟨hmark, (replaceAll_eq_self_iff (by decide) _).1 hrest⟩
  · rintro ⟨hmark, hending⟩
    rw [(replaceAll_eq_self_iff (by decide) _).2 hmark,
      (replaceAll_eq_self_iff (by decide) _).2 hending, ofParts?_splitOn_middle hk]

/-! ## Storing and listing -/

section

variable {h k : Host} {place : List String} {settings : Fields} {s : Submission} {key : Key}

variable {tree : FileTree} {directory : String}

theorem Shelf.eq_of_resolve (hs : Shelf h place) {goal : List String}
    (hr : h.tree.resolve (path h key) = .ok goal) :
    goal = place ++ [key.fileName] ∧ Path.isName key.fileName = true := by
  by_cases hstroke : '/' ∈ key.middle.toList
  · exfalso
    obtain ⟨as, bs, hcut, has⟩ := eq_append_cons_of_mem hstroke
    have hmiddle : key.middle = String.ofList as ++ "/" ++ String.ofList bs := by
      rw [← String.toList_inj]
      simpa using hcut
    have hname : Path.isName (mark ++ String.ofList as) = true :=
      isName_mark (by rwa [String.toList_ofList])
    have hpath : path h key = Path.join (directoryOf h) (mark ++ String.ofList as) ++ "/" ++
        (String.ofList bs ++ ending) := by
      rw [path, Key.fileName, hmiddle, (directoryOf_firm h).join hname,
        (directoryOf_firm h).join_relative]
      · simp only [String.append_assoc]
      · rw [String.append_assoc, String.append_assoc, String.append_assoc, ← String.append_assoc]
        exact Path.isName.relative_append hname _
    exact not_resolve_below (directoryOf_firm h) hs.leads hname (ending_firm.append _)
      (hs.not_isDir _) (hs.not_isLink _) goal (hpath ▸ hr)
  · have hname : Path.isName key.fileName = true := by
      rw [Key.fileName, String.append_assoc]
      refine isName_mark ?_
      rw [String.toList_append, mem_append, not_or]
      exact ⟨hstroke, by decide⟩
    exact ⟨((resolve_join_eq_ok hs.leads hs.directory hname (hs.not_isLink _)).1 hr).1, hname⟩

theorem Shelf.store_eq_ok (hs : Shelf h place) (hkey : keyOf settings s = .ok key)
    (hstore : (store settings s).on h = (.ok (), k)) :
    h.tree.resolve (path h key) = .ok (place ++ [key.fileName]) ∧
      k = { h with
        tree := h.tree.putEntry (place ++ [key.fileName])
          (.file (.text (encode s.stored)) none) } := by
  rw [store_of_key hkey] at hstore
  cases hw : h.tree.write (path h key) (.text (encode s.stored)) with
  | error fault => simp [hw] at hstore
  | ok tree =>
    rw [hw] at hstore
    obtain ⟨-, goal, hgoal, -, rfl⟩ := write_eq_ok hw
    obtain ⟨rfl, -⟩ := hs.eq_of_resolve hgoal
    exact ⟨hgoal, (Prod.mk.inj hstore).2.symm⟩

theorem find?_of_resolve {p : String} (hp : tree.resolve p = .ok place) :
    tree.find? p = tree.lookup? place := by
  rw [FileTree.find?, hp]

theorem list_on (hleads : h.tree.resolve (directoryOf h) = .ok place) (hdir : h.tree.IsDir place) :
    list.on h = (.ok (newestFirst ((h.tree.namesAt place).filterMap
      (listed? h.tree (directoryOf h)))), h) := by
  have hexists : h.tree.exists? (directoryOf h) = true := by
    obtain ⟨m, hm⟩ := hdir
    rw [exists?, find?_of_resolve hleads, hm]
    rfl
  have hnames : h.tree.names (directoryOf h) = .ok (h.tree.namesAt place) := by
    rw [names, directoryAt_of_isDir hleads hdir]
    rfl
  rw [list, Run.on_get_bind, Run.on_bind_ok (Run.on_tree h)]
  simp only [hexists, hnames, Bool.not_true, if_neg Bool.false_ne_true]
  rw [Run.on_pure]

theorem listed?_fileName {e : Entry}
    (hfound : tree.find? (Path.join directory key.fileName) = some e) :
    listed? tree directory key.fileName =
      (Key.ofFileName? key.fileName).map fun read => ⟨key.fileName, read, timeOf e⟩ := by
  have hstart : startsWith mark key.fileName = true := by
    rw [startsWith, Key.fileName, String.toList_append, String.toList_append,
      append_assoc, isPrefixOf_iff_prefix]
    exact prefix_append _ _
  have hend : endsWith ending key.fileName = true := by
    rw [endsWith, Key.fileName, String.toList_append, isSuffixOf_iff_suffix]
    exact suffix_append _ _
  rw [listed?, hstart, hend, Bool.and_true, if_pos rfl, hfound]
  cases Key.ofFileName? key.fileName <;> rfl

theorem file_of_listed? {name : String} {l : Listed} (hl : listed? tree directory name = some l) :
    l.file = name := by
  rw [listed?] at hl
  split at hl
  · split at hl
    · rw [← Option.some.inj hl]
    · simp at hl
  · simp at hl

theorem exists_listed_iff {e : Entry} (hentry : tree.lookup? (place ++ [key.fileName]) = some e)
    (hfound : tree.find? (Path.join directory key.fileName) = some e) (read : Key) :
    (∃ l ∈ newestFirst ((tree.namesAt place).filterMap (listed? tree directory)),
      l.file = key.fileName ∧ l.key = read) ↔ Key.ofFileName? key.fileName = some read := by
  have hlisted := listed?_fileName hfound
  simp only [newestFirst, mem_mergeSort, mem_filterMap]
  constructor
  · rintro ⟨l, ⟨name, -, hl⟩, hfile, hkey⟩
    rw [← file_of_listed? hl, hfile, hlisted] at hl
    obtain ⟨found, hfound, rfl⟩ := Option.map_eq_some_iff.1 hl
    rw [hfound, ← hkey]
  · intro hread
    rw [hread] at hlisted
    exact ⟨_, ⟨key.fileName, mem_namesAt.2 ⟨e, hentry⟩, hlisted⟩, rfl, rfl⟩

theorem Shelf.list_after_store (hs : Shelf h place) (hkey : keyOf settings s = .ok key)
    (hstore : (store settings s).on h = (.ok (), k)) :
    ∃ all, list.on k = (.ok all, k) ∧ ∀ read,
      (∃ l ∈ all, l.file = key.fileName ∧ l.key = read) ↔
        Key.ofFileName? key.fileName = some read := by
  obtain ⟨hresolve, rfl⟩ := hs.store_eq_ok hkey hstore
  have hsturdy : Sturdy h.tree (h.tree.putEntry (place ++ [key.fileName])
      (.file (.text (encode s.stored)) none)) :=
    sturdy_putEntry (hs.not_isDir _) (hs.not_isLink _) (fun _ => Entry.noConfusion)
  have hentry : (h.tree.putEntry (place ++ [key.fileName])
      (.file (.text (encode s.stored)) none)).lookup? (place ++ [key.fileName]) =
        some (.file (.text (encode s.stored)) none) := lookup?_putEntry_self (by simp) _
  exact ⟨_, list_on (hsturdy.resolve hs.leads) (hsturdy.directories place hs.directory),
    exists_listed_iff hentry ((find?_of_resolve (hsturdy.resolve hresolve)).trans hentry)⟩

theorem keyOf_of_supports (hsupports : supports settings (.str s.language) = .ok true) :
    keyOf settings s =
      .ok ⟨s.subject.owner, s.subject.repo, s.subject.kind, s.language⟩ := by
  rw [keyOf, languageFor, hsupports]
  rfl

end

/-- A wiki that has been stored in a supported language is listed under exactly its own key if and
only if neither the mark nor the ending of file names occurs between the parts of the key. -/
theorem listed_iff {h k : Host} {place : List String} (hs : Shelf h place) {settings : Fields}
    {s : Submission} (hsupports : supports settings (.str s.language) = .ok true) {key : Key}
    (hkey : key = ⟨s.subject.owner, s.subject.repo, s.subject.kind, s.language⟩)
    (hapart : key.Apart) (hstore : (store settings s).on h = (.ok (), k)) :
    ∃ all, list.on k = (.ok all, k) ∧
      ((∃ l ∈ all, l.file = key.fileName ∧ l.key = key) ↔
        Text.hasInfix mark key.middle = false ∧ Text.hasInfix ending key.middle = false) := by
  obtain ⟨all, hlist, hall⟩ := hs.list_after_store (hkey ▸ keyOf_of_supports hsupports) hstore
  exact ⟨all, hlist, (hall key).trans (Key.ofFileName?_fileName hapart)⟩

theorem bare_store (repo : String) (hsolid : '/' ∉ repo.toList)
    (hfits : Fits bare ⟨"o", repo, "t", "en"⟩) :
    ∃ k, (store (speaking "en") (titled "w" repo "en")).on bare = (.ok (), k) := by
  have hkey : keyOf (speaking "en") (titled "w" repo "en") = .ok ⟨"o", repo, "t", "en"⟩ :=
    keyOf_of_supports rfl
  have hstroke : '/' ∉ "t".toList ∧ '/' ∉ "o".toList := by decide
  have hok := (bare_holds.store_ok_iff ⟨hstroke.1, hstroke.2, hsolid⟩ hkey).2 hfits
  exact ⟨_, Prod.ext hok rfl⟩

/-- The name of a repository may have joints of its own. -/
theorem listed_iff_with_joints :
    ∃ k all, (store (speaking "en") (titled "w" "r_a_b" "en")).on bare = (.ok (), k) ∧
      list.on k = (.ok all, k) ∧
      ∃ l ∈ all, l.file = "deepwiki_cache_t_o_r_a_b_en.json" ∧
        l.key = ⟨"o", "r_a_b", "t", "en"⟩ := by
  obtain ⟨k, hstore⟩ := bare_store "r_a_b" (by decide)
    ⟨by decide, by decide, checkPath_eq_ok.2 (by decide)⟩
  obtain ⟨all, hlist, hiff⟩ := listed_iff bare_holds.toShelf rfl rfl
    ⟨by decide, by decide, by decide⟩ hstore
  exact ⟨k, all, hstore, hlist, hiff.2 (by decide)⟩

/-- The ending is also taken out of the name of a repository, so its wiki is listed under another
name. -/
theorem listed_under_other_name :
    ∃ k all, (store (speaking "en") (titled "w" "package.json" "en")).on bare = (.ok (), k) ∧
      list.on k = (.ok all, k) ∧
      (∃ l ∈ all, l.file = "deepwiki_cache_t_o_package.json_en.json" ∧
        l.key = ⟨"o", "package", "t", "en"⟩) ∧
      ¬∃ l ∈ all, l.file = "deepwiki_cache_t_o_package.json_en.json" ∧
        l.key = ⟨"o", "package.json", "t", "en"⟩ := by
  obtain ⟨k, hstore⟩ := bare_store "package.json" (by decide)
    ⟨by decide, by decide, checkPath_eq_ok.2 (by decide)⟩
  obtain ⟨all, hlist, hall⟩ := bare_holds.toShelf.list_after_store (keyOf_of_supports rfl) hstore
  exact ⟨k, all, hstore, hlist, (hall _).2 (by decide), mt (hall _).1 (by decide)⟩

end Cache
end Wiki
end RepoWiki
