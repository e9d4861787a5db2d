import RepoWiki.Proofs.Index.Coverage
/-
Patterns for the names of files.

Among the names of files that are left out there are patterns, in which a star stands for any
characters, and patterns may be asked for. But a name is left out only if it is in the list as it
stands, and taken only if it ends as one of the list does, stars included. Both do what a pattern
says exactly for the patterns that have no star (`covers_iff`, `exists_covered`).
-/

namespace RepoWiki

open Glob Index.Filter List Text

namespace Glob

theorem anyTail_iff {p : List Char → Bool} {cs : List Char} :
    anyTail p cs = true ↔ ∃ run rest, cs = run ++ rest ∧ p rest = true := by
  induction cs with
  | nil => simp [anyTail]
  | cons c cs ih =>
    rw [anyTail, Bool.or_eq_true, ih]
    constructor
    · rintro (h | ⟨run, rest, rfl, h⟩)
      · exact ⟨[], c :: cs, rfl, h⟩
      · exact ⟨c :: run, rest, rfl, h⟩
    · rintro ⟨run, rest, hcs, h⟩
      cases run with
      | nil =>
        left
        rwa [hcs]
      | cons d run =>
        rw [cons_append, cons.injEq] at hcs
        exact .inr ⟨run, rest, hcs.2, h⟩

end Glob

namespace Index
namespace Filter

/-! ## Patterns with stars -/

def starTokens (pattern : List Char) : List Glob.Token :=
  pattern.map fun c => if c = '*' then .any else .char c

def covers (pattern name : String) : Bool :=
  matchTokens (starTokens pattern.toList) name.toList

theorem starTokens_star (pattern : List Char) :
    starTokens ('*' :: pattern) = .any :: starTokens pattern := rfl

theorem starTokens_char {c : Char} (hc : c ≠ '*') (pattern : List Char) :
    starTokens (c :: pattern) = .char c :: starTokens pattern := by
  rw [starTokens, map_cons, if_neg hc]
  rfl

theorem matchTokens_literal {pattern : List Char} (h : '*' ∉ pattern) (cs : List Char) :
    matchTokens (starTokens pattern) cs = true ↔ cs = pattern := by
  induction pattern generalizing cs with
  | nil => exact isEmpty_iff
  | cons c pattern ih =>
    rw [mem_cons, not_or] at h
    rw [starTokens_char (Ne.symm h.1)]
    cases cs with
    | nil => simp [matchTokens]
    | cons d cs =>
      rw [matchTokens, Bool.and_eq_true, beq_iff_eq, ih h.2, cons.injEq]

theorem matchTokens_run {front : List Char} (h : '*' ∉ front) {pattern cs : List Char}
    (hcs : matchTokens (starTokens pattern) cs = true) (run : List Char) :
    matchTokens (starTokens (front ++ '*' :: pattern)) (front ++ (run ++ cs)) = true := by
  induction front with
  | nil =>
    rw [nil_append, nil_append, starTokens_star, matchTokens, anyTail_iff]
    exact ⟨run, cs, rfl, hcs⟩
  | cons c front ih =>
    rw [mem_cons, not_or] at h
    rw [cons_append, cons_append, starTokens_char (Ne.symm h.1), matchTokens, Bool.and_eq_true]
    exact ⟨beq_self_eq_true c, ih h.2⟩

theorem matchTokens_self (pattern : List Char) :
    matchTokens (starTokens pattern) pattern = true := by
  induction pattern with
  | nil => rfl
  | cons c pattern ih =>
    by_cases hc : c = '*'
    · rw [hc]
      exact matchTokens_run not_mem_nil ih ['*']
    · rw [starTokens_char hc, matchTokens, Bool.and_eq_true]
      exact ⟨beq_self_eq_true c, ih⟩

variable {pattern : String}

theorem covers_iff (h : '*' ∉ pattern.toList) (name : String) :
    covers pattern name = true ↔ name = pattern := by
  rw [covers, matchTokens_literal h, String.toList_inj]

theorem star_of_covers {names : List String} {name : String} (hname : name ∉ names)
    (hpattern : pattern ∈ names) (hcovers : covers pattern name = true) :
    '*' ∈ pattern.toList ∧ pattern ≠ name := by
  constructor
  · by_contra hstar
    exact hname ((covers_iff hstar name).1 hcovers ▸ hpattern)
  · intro hsame
    exact hname (hsame ▸ hpattern)

theorem endsWith_of_covers {name : String} (hstar : '*' ∉ pattern.toList)
    (hcovers : covers pattern name = true) : endsWith pattern name = true := by
  rw [(covers_iff hstar name).1 hcovers, endsWith]
  exact isSuffixOf_iff_suffix.2 (suffix_refl _)

theorem exists_covered (h : '*' ∈ pattern.toList) :
    ∃ name, covers pattern name = true ∧ endsWith pattern name = false := by
  obtain ⟨front, back, hsplit, hfront⟩ := eq_append_cons_of_mem h
  refine ⟨String.ofList (front ++ (['x'] ++ back)), ?_, ?_⟩
  · rw [covers, hsplit, String.toList_ofList]
    exact matchTokens_run hfront (matchTokens_self back) ['x']
  · rw [← Bool.not_eq_true, endsWith, isSuffixOf_iff_suffix, String.toList_ofList, hsplit]
    intro hsuffix
    have hsame := hsuffix.eq_of_length (by simp)
    rw [append_cancel_left_eq] at hsame
    exact absurd (cons.inj hsame).1 (by decide)

/-! ## Files that pass -/

theorem admits_without {dirs names : List String} {file : String} :
    (Filter.without (dirs.map .str) (names.map .str)).admits file = .ok true ↔
      inside (dirs.map .str) file = .ok false ∧ Path.base file ∉ names := by
  rw [admits, inside, anyName_texts, ok_bind, isNamed, filterMap_asText?]
  simp

theorem admits_only {endings : List String} {file : String} :
    (Filter.only [] (endings.map .str)).admits file = .ok true ↔
      ∃ e ∈ endings, endsWith e (Path.base file) = true := by
  have hinside : inside [] file = .ok false := rfl
  rw [admits, hinside, ok_bind, if_neg Bool.false_ne_true, endsWithOne, anyName_texts,
    Except.ok.injEq, any_eq_true]

end Filter

/-- A file that the search finds gives a document if it passes: it has one of the endings, can be
read, and does not have too many tokens. -/
def Gives (count : String → Nat) (tree : FileTree) (root file : String) (d : Document) : Prop :=
  file ∈ everything tree root ∧ ∃ k ∈ kinds, Text.endsWith k.ending file = true ∧
    documentBy? count tree root k.code k.ending file = some d

theorem exists_documentsBy (count : String → Nat) (tree : FileTree)
    (root : String) {filter : Filter}
    (hnamed : filter.Named) :
    ∃ docs, documentsBy count tree root filter = .ok docs ∧
      ∀ d, d ∈ docs ↔ ∃ file, Gives count tree root file d ∧ filter.admits file = .ok true := by
  choose accepts hadmits using hnamed.admits
  refine ⟨_, documentsBy_eq hadmits, fun d => ?_⟩
  simp only [mem_flatMap, mem_filterMap, Kind.documentOf?, Option.ite_none_right_eq_some,
    Bool.and_eq_true, Gives, hadmits, Except.ok.injEq]
  constructor
  · rintro ⟨k, hk, file, hfile, ⟨hends, haccepts⟩, hd⟩
    exact ⟨file, ⟨hfile, k, hk, hends, hd⟩, haccepts⟩
  · rintro ⟨file, ⟨hfile, k, hk, hends, hd⟩, haccepts⟩
    exact ⟨k, hk, file, hfile, ⟨hends, haccepts⟩, hd⟩

section

variable {settings : Fields} {dirs files : List String}
  (hdirs : configured settings "excluded_dirs" = .ok (dirs.map .str))
  (hfiles : configured settings "excluded_files" = .ok (files.map .str))
  {root : String} (hroot : root.toList.contains (Char.ofNat 0) = false)
include hdirs hfiles hroot

/-- What is read by lists of names of files. Names without a star are honoured as patterns: no file
of such a name is read when they are left out, and every file of such a name is read when they are
asked for. Otherwise a file is left out only under the name that is in the list, and read only if
its name ends as one in the list; a pattern with a star also stands for names that do neither. -/
theorem read_file_patterns (count : String → Nat) (h : Host) {w : NameLists}
    (honly : w.includedDirs.getD [] = []) :
    ∃ docs, (readBy count settings (.str root) w.wishes).on h = (.ok docs, h) ∧
      (w.includedFiles.getD [] = [] →
        (∀ d ∈ docs, ∃ file, Gives count h.tree root file d ∧
          ∀ p ∈ usualFiles ++ files ++ w.excludedFiles.getD [],
            covers p (Path.base file) = true → '*' ∈ p.toList ∧ p ≠ Path.base file) ∧
        ∀ file d, Gives count h.tree root file d →
          inside
            ((usualDirectories ++ dirs ++ w.excludedDirs.getD []).map .str) file =
            .ok false →
          Path.base file ∉ usualFiles ++ files ++ w.excludedFiles.getD [] → d ∈ docs) ∧
      (w.includedFiles.getD [] ≠ [] →
        (∀ file d, Gives count h.tree root file d → ∀ p ∈ w.includedFiles.getD [],
          covers p (Path.base file) = true → '*' ∉ p.toList → d ∈ docs) ∧
        ∀ d ∈ docs, ∃ file, Gives count h.tree root file d ∧
          ∃ p ∈ w.includedFiles.getD [], Text.endsWith p (Path.base file) = true) ∧
      ∀ p : String, '*' ∈ p.toList →
        ∃ name, covers p name = true ∧ Text.endsWith p name = false := by
  have hread : ∀ {filter : Filter} {docs : List Document},
      ofWishes settings w.wishes = .ok filter →
        documentsBy count h.tree root filter = .ok docs →
        (readBy count settings (.str root) w.wishes).on h = (.ok docs, h) := by
    intro filter docs hfilter hdocs
    rw [Database.readBy_on, hfilter, ok_bind, hroot, if_neg Bool.false_ne_true, hdocs]
  have hfilter := ofWishes_names hdirs hfiles w
  by_cases hnone : w.includedFiles.getD [] = []
  · rw [if_pos ⟨honly, hnone⟩] at hfilter
    obtain ⟨docs, hdocs, hmem⟩ := exists_documentsBy count h.tree root
      (show (Filter.without _ _).Named from ⟨_, _, rfl, rfl⟩)
    simp only [admits_without] at hmem
    refine ⟨docs, hread hfilter hdocs, fun _ => ⟨?_, ?_⟩, fun hsome => absurd hnone hsome,
      fun p => exists_covered⟩
    · intro d hd
      obtain ⟨file, hgives, -, hname⟩ := (hmem d).1 hd
      exact ⟨file, hgives, fun p hp hcovers => star_of_covers hname hp hcovers⟩
    · intro file d hgives houtside hname
      exact (hmem d).2 ⟨file, hgives, houtside, hname⟩
  · rw [if_neg fun hboth => hnone hboth.2, honly, List.map_nil] at hfilter
    obtain ⟨docs, hdocs, hmem⟩ := exists_documentsBy count h.tree root
      (show (Filter.only [] _).Named from ⟨[], _, rfl, rfl⟩)
    simp only [admits_only] at hmem
    refine ⟨docs, hread hfilter hdocs, fun hempty => absurd hempty hnone, fun _ => ⟨?_, ?_⟩,
      fun p => exists_covered⟩
    · intro file d hgives p hp hcovers hstar
      exact (hmem d).2 ⟨file, hgives, p, hp, endsWith_of_covers hstar hcovers⟩
    · intro d hd
      exact (hmem d).1 hd

end

/-! ### A script in a bundle -/

def scripts : Host where
  tree := {
    cwd := "/"
    entries := [(["r"], .directory none), (["r", "a.py"], .file (.text "a") none),
      (["r", "app.min.js"], .file (.text "b") none),
      (["r", "karma.conf.js"], .file (.text "c") none)] }

theorem texts_scripts :
    texts ((readBy String.length [] (.str "r") ({} : NameLists).wishes).on scripts).1 =
      some ["a", "b"] := by
  decide +kernel

/-- The script that is left out by its name is not read. -/
theorem read_file_patterns_scripts :
    "karma.conf.js" ∈ usualFiles ∧ '*' ∉ "karma.conf.js".toList ∧
      ∃ docs, (readBy String.length [] (.str "r") ({} : NameLists).wishes).on scripts =
        (.ok docs, scripts) ∧
        docs.map (·.text) = ["a", "b"] ∧
        ∀ d ∈ docs, ∃ file, Gives String.length scripts.tree "r" file d ∧
          covers "karma.conf.js" (Path.base file) = false := by
  have hlisted : "karma.conf.js" ∈ usualFiles := by decide +kernel
  have hplain : '*' ∉ "karma.conf.js".toList := by decide
  have hdirs : configured [] "excluded_dirs" = .ok (([] : List String).map .str) := rfl
  have hfiles : configured [] "excluded_files" = .ok (([] : List String).map .str) := rfl
  have honly : ({} : NameLists).includedDirs.getD [] = [] := rfl
  obtain ⟨docs, hrun, hexcluded, -⟩ :=
    read_file_patterns hdirs hfiles (show "r".toList.contains (Char.ofNat 0) = false by decide)
      String.length scripts honly
  refine ⟨hlisted, hplain, docs, hrun, ?_, ?_⟩
  · have htexts := texts_scripts
    rw [hrun] at htexts
    exact Option.some.inj htexts
  · intro d hd
    obtain ⟨file, hgives, hpatterns⟩ := (hexcluded rfl).1 d hd
    refine ⟨file, hgives, ?_⟩
    rw [← Bool.not_eq_true]
    intro hcovers
    exact hplain (hpatterns _ (by simp [hlisted]) hcovers).1

/-- A script whose name a pattern among the usual ones stands for is read all the same, and a file
of a pattern that is asked for is not. -/
theorem patterns_not_honoured :
    ("*.min.js" ∈ usualFiles ∧ covers "*.min.js" "app.min.js" = true ∧
      texts ((readBy String.length [] (.str "r") ({} : NameLists).wishes).on scripts).1 =
        some ["a", "b"]) ∧
    covers "*.py" "a.py" = true ∧
      texts ((readBy String.length [] (.str "r")
        (NameLists.wishes { includedFiles := some ["*.py"] })).on scripts).1 = some [] := by
  refine ⟨⟨by decide +kernel, by decide, texts_scripts⟩, by decide, by decide +kernel⟩

end Index
end RepoWiki
