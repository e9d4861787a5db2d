import RepoWiki.Proofs.Index.Visits
import RepoWiki.Proofs.Subtree
/-
Where a repository is stored.

The documents of a repository name its files by the way from the root, but the rules are applied to
whole paths, in which the way to the root stands as well. `Filter.inside_extend` takes the two
apart. It follows that a copy at another place gives the same documents as long as the rules make no
difference between the ways to the two roots (`documentsBy_same`), and what happens where they do: a
directory on the way to the root that is to be left out leaves nothing (`documentsBy_nothing`), and
one that is asked for leaves nothing out (`documentsBy_all`).
-/

namespace RepoWiki.Index

open FileTree Glob Index.Filter RepoWiki.Path Text

variable {filter : Filter} {count : String → Nat}

/-! ## Documents of files, one after the other -/

theorem documentsOfBy_nil (count : String → Nat) (tree : FileTree) (root : String)
    (filter : Filter) (code : Bool)
    (ending : String) : documentsOfBy count tree root filter [] code ending = .ok [] :=
  rfl

theorem documentsOfBy_cons (count : String → Nat) (tree : FileTree) (root : String)
    (filter : Filter) (file : String)
    (files : List String) (code : Bool) (ending : String) :
    documentsOfBy count tree root filter (file :: files) code ending =
      if endsWith ending file then do
        let taken ← filter.admits file
        let rest ← documentsOfBy count tree root filter files code ending
        return if taken then (documentBy? count tree root code ending file).toList ++ rest else rest
      else documentsOfBy count tree root filter files code ending := by
  simp only [documentsOfBy, List.filter_cons]
  split
  · rw [except_filterM_cons]
    cases filter.admits file with
    | error fault => rfl
    | ok taken =>
      cases (files.filter (endsWith ending)).filterM filter.admits with
      | error fault => rfl
      | ok chosen =>
        cases taken with
        | false => rfl
        | true =>
          cases hd : documentBy? count tree root code ending file <;>
            simp [hd, bind, Except.bind, pure, Except.pure]
  · rfl

variable {tree : FileTree}

theorem documentsOfBy_map {ι : Type} {tree' : FileTree} {root root' : String} {filter' : Filter}
    {code : Bool} {ending : String} {place place' : ι → String} {items : List ι}
    (hends : ∀ i ∈ items, endsWith ending (place i) = endsWith ending (place' i))
    (hadmits : ∀ i ∈ items, filter.admits (place i) = filter'.admits (place' i))
    (hread : ∀ i ∈ items, documentBy? count tree root code ending (place i) =
      documentBy? count tree' root' code ending (place' i)) :
    documentsOfBy count tree root filter (items.map place) code ending =
      documentsOfBy count tree' root' filter' (items.map place') code ending := by
  induction items with
  | nil => rw [List.map_nil, List.map_nil, documentsOfBy_nil, documentsOfBy_nil]
  | cons i items ih =>
    rw [List.map_cons, List.map_cons, documentsOfBy_cons, documentsOfBy_cons,
      hends i List.mem_cons_self, hadmits i List.mem_cons_self, hread i List.mem_cons_self,
      ih (fun j hj => hends j (List.mem_cons_of_mem i hj))
        (fun j hj => hadmits j (List.mem_cons_of_mem i hj))
        (fun j hj => hread j (List.mem_cons_of_mem i hj))]

theorem documentsOfBy_refused {root : String} {files : List String}
    (h : ∀ file ∈ files, filter.admits file = .ok false) (code : Bool) (ending : String) :
    documentsOfBy count tree root filter files code ending = .ok [] := by
  induction files with
  | nil => exact documentsOfBy_nil count tree root filter code ending
  | cons file files ih =>
    rw [documentsOfBy_cons, h file List.mem_cons_self,
      ih fun other hother => h other (List.mem_cons_of_mem file hother)]
    split <;> rfl

theorem documentsBy_eq_mapM (count : String → Nat) (tree : FileTree) (root : String)
    (filter : Filter) :
    documentsBy count tree root filter = do
      let code ← codeEndings.mapM
          (documentsOfBy count tree root filter (everything tree root) true)
      let texts ← textEndings.mapM
          (documentsOfBy count tree root filter (everything tree root) false)
      return (code ++ texts).flatten :=
  rfl

theorem documentsBy_congr {tree' : FileTree} {root root' : String} {filter' : Filter}
    (h : ∀ code, ∀ ending ∈ codeEndings ++ textEndings,
      documentsOfBy count tree root filter (everything tree root) code ending =
        documentsOfBy count tree' root' filter' (everything tree' root') code ending) :
    documentsBy count tree root filter = documentsBy count tree' root' filter' := by
  rw [documentsBy_eq_mapM, documentsBy_eq_mapM,
    except_mapM_congr fun ending he => h true ending (List.mem_append_left _ he),
    except_mapM_congr fun ending he => h false ending (List.mem_append_right _ he)]

/-! ## Rules and the way to the root -/

variable {n r : String}

namespace Filter

variable {f : Filter} {names : List String}

def directories : Filter → List Json
  | .only directories _ => directories
  | .without directories _ => directories

/-- Whether one of the directories of a rule is among some names. -/
def picks (f : Filter) (names : List String) : Bool :=
  (f.directories.filterMap Json.asText?).any fun d => names.contains (directoryName d)

theorem picks_iff :
    f.picks names = true ↔
      ∃ d ∈ f.directories.filterMap Json.asText?, directoryName d ∈ names := by
  simp only [picks, List.any_eq_true, List.contains_iff_mem]

def sees (f : Filter) (root : String) : Bool :=
  f.picks (Path.components root)

theorem sees_trimmed {p : String} (hp : p ≠ "") (f : Filter) :
    f.sees (trimmed p) = f.sees p := by
  rw [sees, sees, (trimmed_spec hp).2.1]

theorem picks_append (f : Filter) (names more : List String) :
    f.picks (names ++ more) = (f.picks names || f.picks more) := by
  rw [Bool.eq_iff_iff, Bool.or_eq_true, picks_iff, picks_iff, picks_iff]
  simp only [List.mem_append, and_or_left, exists_or]

theorem picks_congr {others : List String} (h : ∀ s, s ∈ names ↔ s ∈ others) :
    f.picks names = f.picks others := by
  rw [Bool.eq_iff_iff, picks_iff, picks_iff]
  simp only [h]

theorem mem_parts {p s : String} (hp : isAbsolute p = true) (hne : components p ≠ []) :
    s ∈ parts p ↔ s ∈ "" :: components p := by
  obtain ⟨strokes, hstrokes, hstroke, hsplit⟩ := splitOn_normalize hp
  have hfree : ∀ n ∈ components p, '/' ∉ n.toList := fun n hn =>
    isName.free (List.all_eq_true.1 (components_all hp) n hn)
  rw [parts, hsplit, splitOn_join stroke hne hfree, List.mem_append, List.mem_cons]
  refine or_congr_left ⟨hstrokes s, ?_⟩
  rintro rfl
  obtain ⟨t, ht⟩ := List.exists_mem_of_ne_nil strokes hstroke
  exact hstrokes t ht ▸ ht

/-- The judgement about a file by the directories of a rule: a directory that is no text is only
met where no other one counts. -/
def verdict (f : Filter) (picked : Bool) : Result Bool :=
  if picked then .ok true
  else
    match f.directories.find? fun v => v.asText?.isNone with
    | some v => .error (.attribute v.kindName "strip")
    | none => .ok false

theorem inside_extend (hr : isAbsolute r = true) (hne : names ≠ []) (hn : names.all isName = true) :
    inside f.directories (extend r names) =
      f.verdict (f.sees r || f.picks ("" :: names)) := by
  have hrne := ne_empty_of_isAbsolute hr
  have hcomponents := components_extend hrne hn
  -- The empty part before the first stroke is the same for every root, so it goes with the names.
  have hmem : ∀ s, s ∈ parts (extend r names) ↔
      s ∈ components r ++ ("" :: names) := by
    intro s
    rw [mem_parts ((isAbsolute_extend r hn).trans hr) (by simp [hcomponents, hne]),
      hcomponents]
    simp [or_left_comm]
  rw [sees, ← picks_append, ← picks_congr hmem]
  rfl

theorem base_extend (hr : r ≠ "") (hnames : names.all isName = true) (hn : isName n = true) :
    base (extend r (names ++ [n])) = n := by
  rw [extend_concat, base_join (extend_ne_empty hr hnames) hn]

/-- A rule judges files alike that are below two roots in the same way, if it sees a directory on
the way to both roots or to none. -/
theorem admits_extend {r' : String} (hr : isAbsolute r = true) (hr' : isAbsolute r' = true)
    (hsees : f.sees r = f.sees r') (hnames : names.all isName = true) (hn : isName n = true) :
    f.admits (extend r (names ++ [n])) = f.admits (extend r' (names ++ [n])) := by
  have hall : (names ++ [n]).all isName = true := by
    simp [List.all_append, hnames, hn]
  have hinside : inside f.directories (extend r (names ++ [n])) =
      inside f.directories (extend r' (names ++ [n])) := by
    rw [inside_extend hr (by simp) hall, inside_extend hr' (by simp) hall, hsees]
  have hbase := (base_extend (ne_empty_of_isAbsolute hr) hnames hn).trans
    (base_extend (ne_empty_of_isAbsolute hr') hnames hn).symm
  cases f with
  | only directories endings =>
    rw [admits, admits, endsWithOne, endsWithOne, hbase]
    exact congrArg (· >>= _) hinside
  | without directories fileNames =>
    rw [admits, admits, isNamed, isNamed, hbase]
    exact congrArg (· >>= _) hinside

end Filter

/-! ## Documents of the same tree -/

section

variable {tree tree' : FileTree} {p q : String}

theorem documentBy?_eq (hp : isAbsolute p = true) (hq : isAbsolute q = true)
    (hs : Glob.SameTree tree (trimmed p) tree' (trimmed q)) (code : Bool)
    (ending : String) {ns : List String} (hne : ns ≠ []) (hns : ns.all isName = true) :
    documentBy? count tree p code ending (extend (trimmed p) ns) =
      documentBy? count tree' q code ending (extend (trimmed q) ns) := by
  have hrelative : ∀ {p : String} (cwd : String), isAbsolute p = true →
      relative cwd (extend (trimmed p) ns) p = join "/" ns := by
    intro p cwd hp
    obtain ⟨-, hcomponents, habs⟩ := trimmed_spec (ne_empty_of_isAbsolute hp)
    exact relative_extend hp (habs.trans hp) hcomponents hne hns cwd
  have htext := hs.texts ns hns
  unfold documentBy?
  rw [hrelative tree.cwd hp, hrelative tree'.cwd hq]
  cases hread : tree.readText (extend (trimmed p) ns) with
  | error fault =>
    cases hread' : tree'.readText (extend (trimmed q) ns) with
    | error fault' => rfl
    | ok text' => simp [hread, hread', Except.toOption] at htext
  | ok text =>
    cases hread' : tree'.readText (extend (trimmed q) ns) with
    | error fault' => simp [hread, hread', Except.toOption] at htext
    | ok text' =>
      rw [hread, hread'] at htext
      obtain rfl := Option.some.inj htext
      rfl

theorem endsWith_extend {ending : String} (hending : ending ∈ codeEndings ++ textEndings)
    {names : List String} (hr : r ≠ "") (hnames : names.all isName = true) (hn : isName n = true) :
    endsWith ending (extend r (names ++ [n])) = endsWith ending n := by
  have hfree : '/' ∉ ending.toList := by
    revert ending
    decide
  obtain ⟨s, hjoin, -⟩ := join_eq (extend_ne_empty hr hnames) hn
  rw [extend_concat, hjoin, endsWith_append stroke hfree]

section

variable (hp : isAbsolute p = true)
include hp

theorem documentsBy_same (hq : isAbsolute q = true)
    (hpattern : isPattern p = false) (hpattern' : isPattern q = false)
    (hs : Glob.SameTree tree (trimmed p) tree' (trimmed q))
    (hsees : filter.sees p = filter.sees q) :
    documentsBy count tree p filter = documentsBy count tree' q filter := by
  have hpne := ne_empty_of_isAbsolute hp
  have hqne := ne_empty_of_isAbsolute hq
  obtain ⟨hr, -, habs⟩ := trimmed_spec hpne
  obtain ⟨hr', -, habs'⟩ := trimmed_spec hqne
  refine documentsBy_congr fun code ending hending => ?_
  rw [everything_eq hpne hpattern, everything_eq hqne hpattern', ← hs.listed_eq hr]
  -- Name, judgement and text of a file are all asked along the same way below the two roots.
  refine documentsOfBy_map (fun x hx => ?_) (fun x hx => ?_) fun x hx => ?_ <;>
    obtain ⟨ns, hns, hname, hplace⟩ := names_of_mem_listed hr hs.tidy hx <;>
    rw [hplace, hplace]
  · rw [endsWith_extend hending hr hns hname, endsWith_extend hending hr' hns hname]
  · exact admits_extend (habs.trans hp) (habs'.trans hq)
      (by rw [sees_trimmed hpne, sees_trimmed hqne, hsees]) hns hname
  · exact documentBy?_eq hp hq hs code ending (by simp) (by simp [List.all_append, hns, hname])

section

variable (hpattern : isPattern p = false) (htidy : Glob.TidyBelow tree (trimmed p))
include hpattern htidy

theorem inside_of_sees (hsees : filter.sees p = true) {file : String}
    (hfile : file ∈ everything tree p) : inside filter.directories file = .ok true := by
  have hpne := ne_empty_of_isAbsolute hp
  obtain ⟨hr, -, habs⟩ := trimmed_spec hpne
  rw [everything_eq hpne hpattern] at hfile
  obtain ⟨x, hx, rfl⟩ := List.mem_map.1 hfile
  obtain ⟨ns, hns, hname, hplace⟩ := names_of_mem_listed hr htidy hx
  rw [hplace, inside_extend (habs.trans hp) (by simp)
    (by simp [List.all_append, hns, hname]), sees_trimmed hpne, hsees]
  rfl

theorem documentsBy_nothing {directories names : List Json}
    (hsees : (Filter.without directories names).sees p = true) :
    documentsBy count tree p (.without directories names) = .ok [] := by
  have hrefused : ∀ file ∈ everything tree p,
      (Filter.without directories names).admits file = .ok false := by
    intro file hfile
    rw [admits]
    exact congrArg (· >>= _) (inside_of_sees hp hpattern htidy hsees hfile)
  rw [documentsBy_eq_mapM, except_mapM_congr fun ending _ =>
    documentsOfBy_refused hrefused true ending,
    except_mapM_congr fun ending _ => documentsOfBy_refused hrefused false ending]
  rfl

theorem documentsBy_all {directories endings : List Json}
    (hsees : (Filter.only directories endings).sees p = true) :
    documentsBy count tree p (.only directories endings) =
      documentsBy count tree p (.without [] []) := by
  have htaken : ∀ file ∈ everything tree p,
      (Filter.only directories endings).admits file = (Filter.without [] []).admits file := by
    intro file hfile
    rw [admits]
    exact congrArg (· >>= _) (inside_of_sees hp hpattern htidy hsees hfile)
  refine documentsBy_congr fun code ending _ => ?_
  have hsame :
      documentsOfBy count tree p (.only directories endings)
        ((everything tree p).map id) code ending =
        documentsOfBy count tree p (.without [] []) ((everything tree p).map id) code ending :=
    documentsOfBy_map (fun _ _ => rfl) htaken fun _ _ => rfl
  rwa [List.map_id] at hsame

end

end

end

/-! ## Reading a repository -/

theorem readBy_of_isDirectory {h : Host} {p : String} (hp : h.tree.isDirectory p = true)
    (count : String → Nat) (settings : Fields) (wishes : Wishes) :
    ((readBy count settings (.str p) wishes).on h).1 =
      ofWishes settings wishes >>= documentsBy count h.tree p := by
  have hnul : p.toList.contains (Char.ofNat 0) = false := by
    rw [isDirectory, find?] at hp
    cases hplace : h.tree.resolve p with
    | error problem => simp [hplace] at hp
    | ok place => simpa using (checkPath_eq_ok.1 (resolve_eq_ok.1 hplace).1).1
  rw [Database.readBy_on, hnul]
  rfl

/-- A repository gives the same documents at two roots, none of which is a pattern, if the rules
speak of a directory on the way to both roots or to none. Otherwise the way to a root decides alone:
a directory on it that is to be left out leaves no documents, and one that is asked for has every
file taken. Roots hold the same tree if there are copies below them (`FileTree.Copy.sameTree`). -/
theorem read_of_same_tree {h k : Host} {p q : String} (hp : Path.isAbsolute p = true)
    (hq : Path.isAbsolute q = true) (hpattern : isPattern p = false)
    (hpattern' : isPattern q = false) (hroot : h.tree.isDirectory p = true)
    (hroot' : k.tree.isDirectory q = true)
    (hs : Glob.SameTree h.tree (trimmed p) k.tree (trimmed q)) (count : String → Nat)
    (settings : Fields) (wishes : Wishes) :
    ((∀ filter, ofWishes settings wishes = .ok filter → filter.sees p = filter.sees q) →
      ((readBy count settings (.str p) wishes).on h).1 =
        ((readBy count settings (.str q) wishes).on k).1) ∧
    (∀ directories names, ofWishes settings wishes = .ok (.without directories names) →
      (Filter.without directories names).sees p = true →
      ((readBy count settings (.str p) wishes).on h).1 = .ok []) ∧
    ∀ directories endings, ofWishes settings wishes = .ok (.only directories endings) →
      (Filter.only directories endings).sees p = true →
      ((readBy count settings (.str p) wishes).on h).1 =
        documentsBy count h.tree p (.without [] []) := by
  rw [readBy_of_isDirectory hroot, readBy_of_isDirectory hroot']
  refine ⟨fun hsees => ?_, fun directories names hf hsees => ?_,
    fun directories endings hf hsees => ?_⟩
  · exact except_bind_congr fun filter hf =>
      documentsBy_same hp hq hpattern hpattern' hs (hsees filter hf)
  · rw [hf, ok_bind, documentsBy_nothing hp hpattern hs.tidy hsees]
  · rw [hf, ok_bind, documentsBy_all hp hpattern hs.tidy hsees]

/-! ### A small repository in several places -/

def smallRepository : List (List String × Entry) :=
  [([], .directory none), (["m.py"], .file (.text "M") none), (["tmp"], .directory none),
    (["tmp", "n.py"], .file (.text "N") none)]

def places : List String :=
  ["abc", "xyz", "tmp", "a[1]"]

def shelf : Host where
  tree := {
    cwd := "/"
    entries := (["w"], .directory none) ::
      places.flatMap fun place => smallRepository.map fun e => ("w" :: place :: e.1, e.2) }

theorem entriesBelow_shelf :
    ∀ place ∈ places, shelf.tree.entriesBelow ["w", place] = smallRepository := by
  simp only [places, List.forall_mem_cons]
  exact ⟨rfl, rfl, rfl, rfl, by simp⟩

theorem shelf_copy {m : String} (hm : m ∈ places) (hn : n ∈ places) :
    Copy shelf.tree ["w", m] shelf.tree ["w", n] where
  below := by simp
  below' := by simp
  entries := (entriesBelow_shelf m hm).trans (entriesBelow_shelf n hn).symm
  order := fun _ _ => rfl
  named := by
    rw [entriesBelow_shelf m hm]
    decide
  plain := by
    rw [entriesBelow_shelf m hm]
    simp [smallRepository]

theorem shelf_stands {place : String} (hplace : place ∈ places) :
    Stands shelf.tree ("/w/" ++ place) ["w", place] where
  firm := by
    have hname : ∀ place ∈ places, isName place = true := by decide
    exact (isName.firm (hname place hplace)).append "/w/"
  leads := by
    revert place
    simp only [places, List.forall_mem_cons]
    exact ⟨rfl, rfl, rfl, rfl, by simp⟩
  directory := by
    have hlookup : shelf.tree.lookup? (["w", place] ++ []) = _ :=
      lookup?_below (List.cons_ne_nil "w" [place]) []
    rw [entriesBelow_shelf place hplace] at hlookup
    exact ⟨none, hlookup⟩
  short := by
    have hshort : ∀ place ∈ places, ∀ e ∈ smallRepository,
        checkPath (extend ("/w/" ++ place) e.1 ++ "/") = .ok () := by
      simp only [checkPath_eq_ok]
      decide +kernel
    exact entriesBelow_shelf place hplace ▸ hshort place hplace

theorem shelf_sameTree {m : String} (hm : m ∈ places) (hn : n ∈ places) :
    Glob.SameTree shelf.tree ("/w/" ++ m) shelf.tree ("/w/" ++ n) :=
  (shelf_copy hm hn).sameTree (shelf_stands hm) (shelf_stands hn)

theorem texts_shelf :
    texts ((readBy String.length [] (.str "/w/abc") {}).on shelf).1 = some ["M"] := by
  decide +kernel

/-- A stroke at the end of a root makes no difference, and neither does one harmless name or the
other. The name that is usually left out does. -/
theorem read_of_same_tree_small_repository :
    texts ((readBy String.length [] (.str "/w/abc") {}).on shelf).1 = some ["M"] ∧
      ((readBy String.length [] (.str "/w/abc") {}).on shelf).1 =
        ((readBy String.length [] (.str "/w/xyz/") {}).on shelf).1 ∧
      ((readBy String.length [] (.str "/w/tmp") {}).on shelf).1 = .ok [] ∧
      ((readBy String.length [] (.str "/w/tmp") { includedDirs := .arr [.str "tmp"] }).on shelf).1 =
        documentsBy String.length shelf.tree "/w/tmp" (.without [] []) := by
  have hsame := read_of_same_tree (h := shelf) (k := shelf) (p := "/w/abc") (q := "/w/xyz/")
    (by decide) (by decide) (by decide) (by decide) (by decide +kernel) (by decide +kernel)
    (shelf_sameTree (m := "abc") (n := "xyz") (by decide) (by decide)) String.length [] {}
  have hother := read_of_same_tree (h := shelf) (k := shelf) (p := "/w/tmp") (q := "/w/abc")
    (by decide) (by decide) (by decide) (by decide) (by decide +kernel) (by decide +kernel)
    (shelf_sameTree (m := "tmp") (n := "abc") (by decide) (by decide)) String.length []
  refine ⟨texts_shelf, hsame.1 ?_, (hother _).2.1 _ _ rfl (by decide +kernel),
    (hother _).2.2 _ _ rfl (by decide +kernel)⟩
  rintro _ ⟨⟩
  decide +kernel

/-- A copy in a directory of a name that is usually left out gives no documents, and so does one in
a directory whose name is a pattern that does not match itself. -/
theorem other_place_other_documents :
    (Copy shelf.tree ["w", "abc"] shelf.tree ["w", "tmp"] ∧
      Copy shelf.tree ["w", "abc"] shelf.tree ["w", "a[1]"]) ∧
    texts ((readBy String.length [] (.str "/w/abc") {}).on shelf).1 = some ["M"] ∧
      texts ((readBy String.length [] (.str "/w/tmp") {}).on shelf).1 = some [] ∧
      texts ((readBy String.length [] (.str "/w/a[1]") {}).on shelf).1 = some [] :=
  ⟨⟨shelf_copy (by decide) (by decide), shelf_copy (by decide) (by decide)⟩, texts_shelf,
    by decide +kernel, by decide +kernel⟩

end RepoWiki.Index
