import RepoWiki.Proofs.Wiki.Atomic
import RepoWiki.Proofs.Wiki.Listing
/-
From a file in the directory of wikis to the list and back.

The key that a file is listed under need not be the one it was stored under: an owner with a joint
in its name loses a part of it to the repository. But the parts come from one text in their order,
and joined again they give that text, so the key always leads back to the file
(`Key.exists_of_legible`). What is listed can therefore be removed by what the list says.
-/

namespace RepoWiki

open List Text

namespace Text

theorem length_splitFrom {c : Char} (piece xs : List Char) :
    (splitFrom [c] 0 piece xs).length = xs.count c + 1 := by
  induction xs generalizing piece with
  | nil => rfl
  | cons d xs ih =>
    rw [splitFrom_cons, count_cons]
    by_cases hd : d = c
    · simp [hd, ih]
    · simp [hd, ih]

theorem length_splitOn {c : Char} {sep : String} (hs : Sole c sep) (s : String) :
    (splitOn sep s).length = s.toList.count c + 1 := by
  rw [Sole] at hs
  rw [splitOn, length_map, hs, length_splitFrom]

end Text

variable {f : String → Option Listed}

namespace Wiki
namespace Cache

open FileTree

/-! ## Names that are read without loss -/

/-- What may stand between the mark and the ending of a file name. -/
structure Legible (middle : String) : Prop where
  joints : 3 ≤ middle.toList.count '_'
  mark : Text.hasInfix mark middle = false
  ending : Text.hasInfix ending middle = false

theorem Key.exists_of_parts {parts : List String} (h : 4 ≤ parts.length)
    (hfree : ∀ part ∈ parts, '_' ∉ part.toList) : ∃ k, ofParts? parts = some k ∧ k.Apart := by
  obtain ⟨kind, owner, rest, rfl⟩ : ∃ kind owner rest, parts = kind :: owner :: rest := by
    rcases parts with _ | ⟨kind, _ | ⟨owner, rest⟩⟩
    · exact absurd h (by decide)
    · exact absurd h (by simp)
    · exact ⟨kind, owner, rest, rfl⟩
  have hrest : ¬rest.length < 2 := by
    simp only [length_cons] at h
    omega
  have hne : rest ≠ [] := by
    rintro rfl
    exact hrest (by decide)
  have hlast : rest.getLast?.getD "" ∈ rest := by
    rw [getLast?_eq_some_getLast hne]
    exact getLast_mem hne
  rw [ofParts?, if_neg hrest]
  exact ⟨_, rfl, hfree _ (by simp), hfree _ (by simp), hfree _ (by simp [hlast])⟩

theorem Key.exists_of_legible {middle : String} (h : Legible middle) :
    ∃ k : Key, k.Apart ∧ k.middle = middle ∧ ofFileName? k.fileName = some k := by
  have hparts : 4 ≤ (splitOn "_" middle).length := by
    rw [length_splitOn joint]
    have := h.joints
    omega
  obtain ⟨k, hk, hapart⟩ := Key.exists_of_parts hparts fun part hpart =>
    not_mem_of_mem_splitOn joint hpart
  have hmiddle : k.middle = middle := by
    rw [← Key.join_of_ofParts? hk, join_splitOn joint]
  refine ⟨k, hapart, hmiddle, ?_⟩
  rw [ofFileName?, replaceAll_fileName, hmiddle,
    (replaceAll_eq_self_iff (by decide) _).2 h.mark,
    (replaceAll_eq_self_iff (by decide) _).2 h.ending, hk]

/-! ## The order of the list -/

/-- Whether one entry of the list may stand before another: it was changed later, or at the same
time and its name comes first. -/
def Before (names : List String) (a b : Listed) : Prop :=
  b.time < a.time ∨ b.time = a.time ∧ names.idxOf a.file < names.idxOf b.file

theorem notOlder_trans (a b c : Listed) (hab : decide (b.time ≤ a.time) = true)
    (hbc : decide (c.time ≤ b.time) = true) : decide (c.time ≤ a.time) = true := by
  simp only [decide_eq_true_eq] at *
  omega

theorem notOlder_total (a b : Listed) :
    (decide (b.time ≤ a.time) || decide (a.time ≤ b.time)) = true := by
  simp only [Bool.or_eq_true, decide_eq_true_eq]
  omega

theorem newestFirst_sorted (all : List Listed) :
    (newestFirst all).Pairwise fun a b => b.time ≤ a.time :=
  (pairwise_mergeSort notOlder_trans notOlder_total all).imp of_decide_eq_true

theorem newestFirst_perm (all : List Listed) : (newestFirst all).Perm all :=
  mergeSort_perm all _

theorem newestFirst_filter (all : List Listed) (time : Int) :
    (newestFirst all).filter (fun l => l.time = time) = all.filter fun l => l.time = time := by
  have hties : (all.filter fun l => l.time = time).Pairwise
      fun a b => decide (b.time ≤ a.time) = true := by
    refine pairwise_of_forall_mem_list fun a ha b hb => ?_
    simp only [mem_filter, decide_eq_true_eq] at ha hb ⊢
    omega
  have hsublist : (all.filter fun l => l.time = time).Sublist (newestFirst all) :=
    sublist_mergeSort notOlder_trans notOlder_total hties filter_sublist
  -- They are found among themselves in this order, and there are no more of them than before.
  have hagain := hsublist.filter fun l => decide (l.time = time)
  rw [filter_filter] at hagain
  simp only [Bool.and_self] at hagain
  exact (hagain.eq_of_length ((newestFirst_perm all).filter _).length_eq.symm).symm

variable {names : List String}

theorem idxOf_pairwise (h : names.Nodup) :
    names.Pairwise fun a b => names.idxOf a < names.idxOf b := by
  rw [pairwise_iff_getElem]
  intro i j hi hj hij
  rw [h.idxOf_getElem i hi, h.idxOf_getElem j hj]
  exact hij

theorem newestFirst_before (hf : ∀ name l, f name = some l → l.file = name) (h : names.Nodup) :
    (newestFirst (names.filterMap f)).Pairwise (Before names) := by
  have hlisted : (names.filterMap f).Pairwise
      fun a b => names.idxOf a.file < names.idxOf b.file := by
    rw [pairwise_filterMap]
    refine (idxOf_pairwise h).imp fun {a b} hab l hl m hm => ?_
    rwa [hf a l hl, hf b m hm]
  rw [pairwise_iff_forall_sublist]
  intro a b hab
  have hle := pairwise_iff_forall_sublist.1 (newestFirst_sorted _) hab
  by_cases hlt : b.time < a.time
  · exact .inl hlt
  · have heq : b.time = a.time := by omega
    -- Of the same time the two come from the list as it was before.
    have hsame := hab.filter fun l => decide (l.time = a.time)
    rw [newestFirst_filter] at hsame
    simp only [filter_cons, heq, decide_true, if_true, filter_nil] at hsame
    exact .inr ⟨heq, pairwise_iff_forall_sublist.1 hlisted
      (hsame.trans filter_sublist)⟩

theorem newestFirst_once (hf : ∀ name l, f name = some l → l.file = name) (h : names.Nodup)
    {name : String} {l : Listed} (hname : name ∈ names) (hl : f name = some l) :
    (newestFirst (names.filterMap f)).filter (fun m => m.file = name) = [l] := by
  have hone : (names.filterMap f).filter (fun m => m.file = name) = [l] := by
    have hown : ∀ n, (f n).filter (fun m => m.file = name) =
        if decide (n = name) = true then f n else none := by
      intro n
      cases hn : f n with
      | none => simp
      | some m => simp [Option.filter, hf n m hn]
    rw [filter_filterMap, funext hown, ← filterMap_filter, filter_eq, count_eq_one_of_mem h hname]
    simp [hl]
  have hperm := (newestFirst_perm (names.filterMap f)).filter fun m => decide (m.file = name)
  rw [hone] at hperm
  exact perm_singleton.1 hperm

/-! ## Removing what is listed -/

theorem delete_named {h : Host} {place : List String}
    (hleads : h.tree.resolve (directoryOf h) = .ok place) {k : Key}
    (hk : Path.isName k.fileName = true) (hexists : h.tree.exists? (path h k) = true)
    (hfile : ¬h.tree.IsDir (place ++ [k.fileName])) {settings : Fields}
    (hsupports : supports settings (.str k.language) = .ok true) {g : Guard} {code : Json}
    (hadmits : g.admits code = true) :
    ∃ tree, (delete settings g k.wanted code).on h = (.ok (), { h with tree }) ∧
      tree.lookup? (place ++ [k.fileName]) = none ∧
      h.tree.SameBut tree (place ++ [k.fileName]) := by
  have hdeletes := deletes_one settings g k.wanted code h
  have hlanguage : supports settings k.wanted.language = .ok true := hsupports
  have hkey : k.wanted.key = k := rfl
  rw [DeletesOne, hlanguage, hadmits, hkey, hexists] at hdeletes
  have hplace : ∀ q, h.tree.Names (path h k) q → q = place ++ [k.fileName] :=
    fun q hq => hq.eq_below (directoryOf_firm h) hleads hk
  rcases hdeletes with ⟨tree, hdelete, q, e, hq, -, hgone, hsame, -⟩ | ⟨_, -, q, hq, hdir⟩
  · obtain rfl := hplace q hq
    exact ⟨tree, hdelete, hgone, hsame⟩
  · obtain rfl := hplace q hq
    exact absurd hdir hfile

/-- The list has each file with a legible name exactly once, the last changed ones first and those
of one time in the order of the directory. The key it is listed under leads back to that file, so
removing the wiki of that key, where its language is supported, removes the file and nothing
else. -/
theorem listed_leads_back {h : Host} (ht : h.tree.Orderly) {place : List String}
    (hleads : h.tree.resolve (directoryOf h) = .ok place) (hdir : h.tree.IsDir place) :
    ∃ all, list.on h = (.ok all, h) ∧ all.Pairwise (Before (h.tree.namesAt place)) ∧
      ∀ middle name e, name = mark ++ middle ++ ending → Legible middle →
        name ∈ h.tree.namesAt place →
        h.tree.find? (Path.join (directoryOf h) name) = some e →
        ∃ key, all.filter (fun l => l.file = name) = [⟨name, key, timeOf e⟩] ∧ key.Apart ∧
          key.fileName = name ∧ path h key = Path.join (directoryOf h) name ∧
          ∀ settings g code, supports settings (.str key.language) = .ok true →
            g.admits code = true → ¬h.tree.IsDir (place ++ [name]) →
            ∃ tree, (delete settings g key.wanted code).on h = (.ok (), { h with tree }) ∧
              tree.lookup? (place ++ [name]) = none ∧ h.tree.SameBut tree (place ++ [name]) := by
  have hfile : ∀ n l, listed? h.tree (directoryOf h) n = some l → l.file = n :=
    fun n l => file_of_listed?
  have hnodup := ht.nodup_namesAt place
  refine ⟨_, list_on hleads hdir, newestFirst_before hfile hnodup, ?_⟩
  intro middle name e hname hlegible hmem hfound
  obtain ⟨k, hapart, hmiddle, hread⟩ := Key.exists_of_legible hlegible
  obtain rfl : k.fileName = name := by rw [Key.fileName, hmiddle, hname]
  have hlisted := listed?_fileName hfound
  rw [hread, Option.map_some] at hlisted
  refine ⟨k, newestFirst_once hfile hnodup hmem hlisted, hapart, rfl, rfl, ?_⟩
  intro settings g code hsupports hadmits hplain
  refine delete_named hleads (ht.isName_of_mem_namesAt hmem) ?_ hplain hsupports hadmits
  rw [FileTree.exists?, path, hfound]
  rfl

/-- A host with the wiki of an owner whose name has a joint, and with a link to its file. -/
def linked : Host :=
  { tree := { cwd := "/", entries := [([".adalflow"], .directory none),
      ([".adalflow", "wikicache"], .directory none),
      ([".adalflow", "wikicache", "deepwiki_cache_t_a_b_r_en.json"], .file (.text "") none),
      ([".adalflow", "wikicache", "deepwiki_cache_t_o_r_en.json"],
        .link "deepwiki_cache_t_a_b_r_en.json")] } }

theorem linked_orderly : linked.tree.Orderly :=
  ⟨by decide, by decide, by decide⟩

/-- The file is listed for the owner "a" and removed for that one, and the link stays. -/
theorem listed_leads_back_joint_in_owner :
    ∃ all tree, list.on linked = (.ok all, linked) ∧
      all.filter (fun l => l.file = "deepwiki_cache_t_a_b_r_en.json") =
        [⟨"deepwiki_cache_t_a_b_r_en.json", ⟨"a", "b_r", "t", "en"⟩, 0⟩] ∧
      (delete (speaking "en") {} (Key.wanted ⟨"a", "b_r", "t", "en"⟩) .null).on linked =
        (.ok (), { linked with tree }) ∧
      tree.lookup? [".adalflow", "wikicache", "deepwiki_cache_t_a_b_r_en.json"] = none ∧
      tree.lookup? [".adalflow", "wikicache", "deepwiki_cache_t_o_r_en.json"] =
        some (.link "deepwiki_cache_t_a_b_r_en.json") := by
  have hleads : linked.tree.resolve (directoryOf linked) = .ok [".adalflow", "wikicache"] := rfl
  obtain ⟨all, hlist, -, hall⟩ := listed_leads_back linked_orderly hleads ⟨none, rfl⟩
  obtain ⟨key, honce, hapart, hname, -, hdelete⟩ := hall "t_a_b_r_en"
    "deepwiki_cache_t_a_b_r_en.json" (.file (.text "") none) rfl ⟨by decide, by decide, by decide⟩
    (mem_namesAt.2 ⟨_, rfl⟩) rfl
  obtain rfl : key = ⟨"a", "b_r", "t", "en"⟩ :=
    Key.fileName_inj hapart ⟨by decide, by decide, by decide⟩ hname
  obtain ⟨tree, hrun, hgone, hsame⟩ := hdelete (speaking "en") {} .null rfl rfl (by
    rintro ⟨m, hm⟩
    cases hm)
  exact ⟨all, tree, hlist, honce, hrun, hgone, hsame.others _ (by decide)⟩

end Cache
end Wiki
end RepoWiki
