import Mathlib.Data.List.Infix
import RepoWiki.Proofs.Index.Coverage
import RepoWiki.Proofs.Text.Trim
/-
What a rule for directories does.

A rule is a path: names with strokes between them, perhaps with a mark of the root in front and a
stroke at the end. It is compared with single names on the way to a file, after points and strokes
at its ends are taken away. So a rule of one name stands for every directory of that name without
its outer points, on the way to the root as well, and for a file of that name; a rule of more names
stands for nothing (`Rule.hits`).
-/

namespace RepoWiki

open Index.Filter List RepoWiki.Path Text

namespace Text

theorem join_cons (sep piece : String) {rest : List String} (h : rest ≠ []) :
    join sep (piece :: rest) = piece ++ sep ++ join sep rest := by
  cases rest with
  | nil => exact absurd rfl h
  | cons next rest => rw [join, String.intercalate_cons_cons, join]

theorem toList_join (before after : List String) (piece : String) :
    (join "/" (before ++ piece :: after)).toList =
      before.flatMap (fun s => s.toList ++ ['/']) ++
        (piece.toList ++ after.flatMap fun s => '/' :: s.toList) := by
  induction before with
  | nil =>
    induction after generalizing piece with
    | nil => simp [join]
    | cons next after ih =>
      have hnext := ih next
      rw [nil_append] at hnext ⊢
      rw [join_cons _ _ (cons_ne_nil _ _), String.toList_append, String.toList_append, hnext]
      simp
  | cons first before ih =>
    rw [cons_append, join_cons _ _ (by simp), String.toList_append, String.toList_append, ih]
    simp

end Text

namespace Index

/-! ## Rules -/

/-- A path that names a directory: below the root or below some other directory. -/
structure Rule where
  marked : Bool
  names : List String
  closed : Bool
  names_ne : names ≠ []
  proper : names.all isName = true

namespace Rule

def text (r : Rule) : String :=
  (if r.marked then "./" else "") ++ Text.join "/" r.names ++ (if r.closed then "/" else "")

def bare (name : String) : String :=
  Text.trimBy (· = '.') name

def isSolid (name : String) : Bool :=
  name.toList.any (· ≠ '.')

/-- Whether the rule counts for a file that is reached from a root by way of some names, its own
among them. -/
def hits (r : Rule) (root : String) (way : List String) : Bool :=
  match r.names.filter isSolid with
  | [] => isAbsolute root
  | [name] => (components root ++ way).contains (bare name)
  | _ => false

/-! ## Names of directories -/

def isOuter (c : Char) : Bool :=
  c = '.' || c = '/'

theorem isOuter_of_not_isSolid {name : String} (h : isSolid name = false) :
    ∀ c ∈ name.toList, isOuter c = true := by
  intro c hc
  have hpoint : c = '.' := by
    simpa using any_eq_false.1 h c hc
  rw [hpoint]
  rfl

theorem exists_of_isSolid {name : String} (hname : isName name = true)
    (h : isSolid name = true) : ∃ c ∈ name.toList, isOuter c = false := by
  obtain ⟨c, hc, hpoint⟩ := any_eq_true.1 h
  have hstroke : c ≠ '/' := by
    rintro rfl
    exact isName.free hname hc
  exact ⟨c, hc, by simpa [isOuter, hstroke] using hpoint⟩

theorem toList_text (r : Rule) : ∃ before after, (∀ c ∈ before ++ after, isOuter c = true) ∧
    r.text.toList = before ++ ((join "/" r.names).toList ++ after) := by
  refine ⟨(if r.marked then "./" else "").toList, (if r.closed then "/" else "").toList, ?_, ?_⟩
  · cases r.marked <;> cases r.closed <;> exact all_eq_true.1 rfl
  · rw [text, String.toList_append, String.toList_append, append_assoc]

theorem isOuter_of_mem_flatMap {names : List String} (h : ∀ name ∈ names, isSolid name = false)
    {f : String → List Char} (hf : ∀ name, ∀ c ∈ f name, c = '/' ∨ c ∈ name.toList) :
    ∀ c ∈ names.flatMap f, isOuter c = true := by
  intro c hc
  obtain ⟨name, hname, hc⟩ := mem_flatMap.1 hc
  rcases hf name c hc with rfl | hc
  · rfl
  · exact isOuter_of_not_isSolid (h name hname) c hc

section

variable {r : Rule} {name : String} {before after : List String}
  (h : r.names = before ++ name :: after)
include h

theorem isName_of_split : isName name = true :=
  all_eq_true.1 r.proper name (by simp [h])

theorem directoryName_text (hbefore : ∀ n ∈ before, isSolid n = false)
    (hafter : ∀ n ∈ after, isSolid n = false) : directoryName r.text = bare name := by
  obtain ⟨lead, tail, houter, htext⟩ := r.toList_text
  rw [forall_mem_append] at houter
  rw [h, toList_join] at htext
  have hfront : ∀ c ∈ lead ++ before.flatMap (fun s => s.toList ++ ['/']), isOuter c = true :=
    forall_mem_append.2 ⟨houter.1, isOuter_of_mem_flatMap hbefore (by simp [or_comm])⟩
  have hback : ∀ c ∈ after.flatMap (fun s => '/' :: s.toList) ++ tail, isOuter c = true :=
    forall_mem_append.2 ⟨isOuter_of_mem_flatMap hafter (by simp), houter.2⟩
  have hname : directoryName r.text = trimBy isOuter name :=
    trimBy_around hfront hback (by rw [htext]; simp only [append_assoc])
  rw [hname, bare]
  refine trimBy_congr fun c hc => ?_
  have hstroke : c ≠ '/' := by
    rintro rfl
    exact isName.free (isName_of_split h) hc
  simp [isOuter, hstroke]

theorem stroke_mem_directoryName (hname : isSolid name = true) {next : String}
    (hnext : next ∈ after)
    (hsolid : isSolid next = true) : '/' ∈ (directoryName r.text).toList := by
  obtain ⟨lead, tail, -, htext⟩ := r.toList_text
  obtain ⟨c, hc, houter⟩ := exists_of_isSolid (isName_of_split h) hname
  have hnextName : isName next = true := all_eq_true.1 r.proper next (by simp [h, hnext])
  obtain ⟨d, hd, houter'⟩ := exists_of_isSolid hnextName hsolid
  cases after with
  | nil => cases hnext
  | cons first after =>
    have hcut : r.text.toList =
        lead ++ (before.flatMap (fun s => s.toList ++ ['/']) ++ name.toList) ++ '/' ::
          (first.toList ++ (after.flatMap (fun s => '/' :: s.toList) ++ tail)) := by
      rw [htext, h, toList_join, flatMap_cons]
      simp
    refine mem_trimBy hcut ⟨c, by simp [hc], houter⟩ ⟨d, ?_, houter'⟩
    rcases mem_cons.1 hnext with rfl | hnext
    · simp [hd]
    · simp only [mem_append, mem_flatMap]
      exact .inr (.inl ⟨next, hnext, mem_cons_of_mem _ hd⟩)

end

theorem bare_eq_empty {name : String} : bare name = "" ↔ isSolid name = false := by
  rw [bare, trimBy_eq_empty, isSolid, any_eq_false]
  simp

end Rule

/-! ## Names on the way to a file -/

end Index

namespace Path

theorem mem_components {p s : String} (h : s ∈ components p) : s ≠ "" ∧ '/' ∉ s.toList := by
  have hfold : ∀ (pieces done : List String), (∀ t ∈ pieces, '/' ∉ t.toList) →
      (∀ t ∈ done, t ≠ "" ∧ '/' ∉ t.toList) →
      ∀ t ∈ pieces.foldl (pushComponent (isAbsolute p)) done, t ≠ "" ∧ '/' ∉ t.toList := by
    intro pieces
    induction pieces with
    | nil => exact fun done _ hdone => hdone
    | cons c pieces ih =>
      intro done hpieces hdone
      rw [forall_mem_cons] at hpieces
      refine ih _ hpieces.2 ?_
      have hclimb : ".." ≠ "" ∧ '/' ∉ "..".toList := by decide
      unfold pushComponent
      split
      · exact hdone
      next hstays =>
      split
      · split
        · split
          · exact forall_mem_nil _
          · exact forall_mem_singleton.2 hclimb
        · rw [forall_mem_cons] at hdone
          split
          · exact forall_mem_cons.2 ⟨hclimb, forall_mem_cons.2 hdone⟩
          · exact hdone.2
      · have hne : c ≠ "" := by
          rintro rfl
          exact hstays rfl
        exact forall_mem_cons.2 ⟨⟨hne, hpieces.1⟩, hdone⟩
  exact hfold _ [] (fun t ht => not_mem_of_mem_splitOn stroke ht) (forall_mem_nil _) s
    (mem_reverse.1 h)

theorem splitOn_normalize_relative {p : String} (hp : isAbsolute p = false)
    (hne : components p ≠ []) : Text.splitOn "/" (normalize p) = components p := by
  have hdouble : Text.startsWith "//" p = false := by
    rw [← Bool.not_eq_true, Text.startsWith, isPrefixOf_iff_prefix]
    intro hstarts
    have hstart : Text.startsWith "/" p = true :=
      isPrefixOf_iff_prefix.2 (List.IsPrefix.trans ⟨['/'], rfl⟩ hstarts)
    rw [isAbsolute, hstart] at hp
    cases hp
  have hout : Text.join "/" (components p) ≠ "" := by
    obtain ⟨first, rest, hfirst⟩ := exists_cons_of_ne_nil hne
    have hmem : first ∈ components p := hfirst ▸ mem_cons_self
    intro hempty
    have hchars := Text.toList_join [] rest first
    rw [nil_append, ← hfirst, hempty, flatMap_nil, nil_append, eq_comm,
      String.toList_empty, append_eq_nil_iff] at hchars
    exact (mem_components hmem).1 (String.toList_eq_nil_iff.1 hchars.1)
  simp only [normalize, hdouble, hp, Bool.false_and, Bool.false_eq_true, if_false,
    String.empty_append, hout]
  exact Text.splitOn_join stroke hne fun s hs => (mem_components hs).2

end Path

namespace Index

theorem Filter.mem_parts_iff {p s : String} (hne : components p ≠ []) :
    s ∈ parts p ↔ s ∈ components p ∨ isAbsolute p = true ∧ s = "" := by
  cases hp : isAbsolute p with
  | true =>
    rw [mem_parts hp hne, mem_cons, or_comm]
    simp
  | false =>
    rw [parts, splitOn_normalize_relative hp hne]
    simp

section

variable {root : String} (hroot : root ≠ "") {way : List String} (hne : way ≠ [])
  (hway : way.all isName = true)
include hroot hne hway

theorem mem_parts_extend {s : String} :
    s ∈ parts (extend root way) ↔
      s ∈ components root ++ way ∨ isAbsolute root = true ∧ s = "" := by
  have hcomponents := components_extend hroot hway
  rw [mem_parts_iff (by simp [hcomponents, hne]), hcomponents, isAbsolute_extend root hway]

theorem Rule.contains_parts (r : Rule) :
    (parts (extend root way)).contains (directoryName r.text) =
      r.hits root way := by
  have hparts : ∀ n ∈ components root ++ way, n ≠ "" ∧ '/' ∉ n.toList := by
    intro n hn
    rcases mem_append.1 hn with hn | hn
    · exact mem_components hn
    · have hname := all_eq_true.1 hway n hn
      exact ⟨isName.ne_empty hname, isName.free hname⟩
  rw [Bool.eq_iff_iff, contains_iff_mem, mem_parts_extend hroot hne hway, hits]
  -- How many of the names are more than points decides what is left of the text.
  cases hsolid : r.names.filter isSolid with
  | nil =>
    obtain ⟨first, rest, hnames⟩ := exists_cons_of_ne_nil r.names_ne
    have hpoints : ∀ n ∈ first :: rest, isSolid n = false := by
      rw [← hnames]
      simpa using filter_eq_nil_iff.1 hsolid
    rw [forall_mem_cons] at hpoints
    rw [@directoryName_text r first [] rest hnames (forall_mem_nil _) hpoints.2,
      bare_eq_empty.2 hpoints.1]
    have hempty : "" ∉ components root ++ way := fun hmem => (hparts "" hmem).1 rfl
    simp [hempty]
  | cons name others =>
    obtain ⟨before, after, hnames, hbefore, hname, hothers⟩ := filter_eq_cons_iff.1 hsolid
    cases others with
    | nil =>
      have hbare : bare name ≠ "" := by
        rw [ne_eq, bare_eq_empty, hname]
        decide
      rw [directoryName_text hnames (by simpa using hbefore)
        (by simpa using filter_eq_nil_iff.1 hothers), contains_iff_mem]
      simp [hbare]
    | cons next others =>
      have hnext : next ∈ after.filter isSolid := hothers ▸ mem_cons_self
      rw [mem_filter] at hnext
      have hstroke := stroke_mem_directoryName hnames hname hnext.1 hnext.2
      refine ⟨?_, Bool.false_ne_true.elim⟩
      rintro (hmem | ⟨-, hempty⟩)
      · exact absurd hstroke (hparts _ hmem).2
      · rw [hempty] at hstroke
        cases hstroke

end

/-! ## Rules that are in force -/

def usualNames : List String :=
  usualDirectories.map fun d => String.ofList (d.toList.drop 2).dropLast

theorem isName_usualNames : ∀ n ∈ usualNames, isName n = true := by
  decide +kernel

def usualRules : List Rule :=
  usualNames.pmap (fun n hn => ⟨true, [n], true, cons_ne_nil _ _, by simp [hn]⟩)
    isName_usualNames

theorem text_usualRules : usualRules.map Rule.text = usualDirectories := by
  have htexts : usualNames.map (fun n => "./" ++ n ++ "/") = usualDirectories := by
    decide +kernel
  rw [usualRules, map_pmap, ← htexts, ← pmap_eq_map]
  rfl

namespace Filter

section

variable {root : String} (hroot : root ≠ "") {way : List String}
  (hway : way.all isName = true) {name : String} (hname : isName name = true)
include hroot hway hname

theorem inside_rules (rules : List Rule) :
    inside ((rules.map Rule.text).map .str) (extend root (way ++ [name])) =
      .ok (rules.any fun r => r.hits root (way ++ [name])) := by
  have hall : (way ++ [name]).all isName = true := by
    simp [all_append, hway, hname]
  have hfits : ∀ r : Rule, (parts (extend root (way ++ [name]))).contains
      (directoryName r.text) = r.hits root (way ++ [name]) :=
    fun r => r.contains_parts hroot (by simp) hall
  rw [inside, anyName_texts, any_map]
  simp only [Function.comp_def, hfits]

/-- The rules that are asked for, if there are any, or else those that leave something out, decide
about a file together with the lists of names: by what `Rule.hits` says of each rule. That is what
the rule names if it has one name without points at its ends, which is neither on the way to the
root nor the name of the file. -/
theorem ofWishes_rules {settings : Fields} {configuredDirs : List Rule}
    {configuredFiles : List String}
    (hdirs : configured settings "excluded_dirs" = .ok ((configuredDirs.map Rule.text).map .str))
    (hfiles : configured settings "excluded_files" = .ok (configuredFiles.map .str))
    {w : NameLists} {excluded included : List Rule}
    (hexcluded : w.excludedDirs.getD [] = excluded.map Rule.text)
    (hincluded : w.includedDirs.getD [] = included.map Rule.text) :
    (∃ filter, ofWishes settings w.wishes = .ok filter ∧
      filter.admits (extend root (way ++ [name])) = .ok
        (if included = [] ∧ w.includedFiles.getD [] = [] then
          !((usualRules ++ configuredDirs ++ excluded).any fun r => r.hits root (way ++ [name])) &&
            !(usualFiles ++ configuredFiles ++ w.excludedFiles.getD []).contains name
        else
          (included.any fun r => r.hits root (way ++ [name])) ||
            (w.includedFiles.getD []).any fun ending => Text.endsWith ending name)) ∧
      ∀ (r : Rule) (n : String), r.names = [n] → Rule.bare n = n → n ∉ components root →
        n ≠ name → (r.hits root (way ++ [name]) = true ↔ r.names <:+: way) := by
  constructor
  · refine ⟨_, ofWishes_names hdirs hfiles w, ?_⟩
    simp only [hexcluded, hincluded, List.map_eq_nil_iff]
    by_cases hnone : included = [] ∧ w.includedFiles.getD [] = []
    · have hrules : usualDirectories ++ configuredDirs.map Rule.text ++ excluded.map Rule.text =
          (usualRules ++ configuredDirs ++ excluded).map Rule.text := by
        rw [List.map_append, List.map_append, text_usualRules]
      rw [if_pos hnone, if_pos hnone, hrules, admits, inside_rules hroot hway hname, ok_bind,
        isNamed, filterMap_asText?, base_extend hroot hway hname]
      rfl
    · rw [if_neg hnone, if_neg hnone, admits, inside_rules hroot hway hname, ok_bind,
        endsWithOne, anyName_texts, base_extend hroot hway hname]
      cases included.any fun r => r.hits root (way ++ [name]) <;> rfl
  · intro r n hnames hbare hout hne
    have hproper : isName n = true := List.all_eq_true.1 r.proper n (by simp [hnames])
    have hsolid : Rule.isSolid n = true := by
      rw [← Bool.not_eq_false, ← Rule.bare_eq_empty, hbare]
      exact isName.ne_empty hproper
    have hfilter : r.names.filter Rule.isSolid = [n] := by
      rw [hnames, List.filter_cons_of_pos hsolid, List.filter_nil]
    rw [Rule.hits, hfilter, hnames, List.singleton_infix_iff]
    simp [hbare, hout, hne]

end

def libRule : Rule :=
  ⟨true, ["lib"], true, by decide, by decide⟩

def libSettings : Fields :=
  [("file_filters", .obj [("excluded_dirs", .arr [.str "./lib/"])])]

theorem ofWishes_rules_configured :
    configured libSettings "excluded_dirs" = .ok (([libRule].map Rule.text).map .str) ∧
      configured libSettings "excluded_files" = .ok (([] : List String).map .str) ∧
      (∃ filter, ofWishes libSettings ({} : NameLists).wishes = .ok filter ∧
        filter.admits "r/src/lib/a.py" = .ok false) ∧
      (libRule.hits "r" ["src", "lib", "a.py"] = true ↔ ["lib"] <:+: ["src", "lib"]) := by
  have hdirs : configured libSettings "excluded_dirs" =
      .ok (([libRule].map Rule.text).map .str) := rfl
  have hfiles : configured libSettings "excluded_files" = .ok (([] : List String).map .str) := rfl
  have hway : ["src", "lib"].all isName = true := by decide
  have hexcluded : ({} : NameLists).excludedDirs.getD [] = ([] : List Rule).map Rule.text := rfl
  have hincluded : ({} : NameLists).includedDirs.getD [] = ([] : List Rule).map Rule.text := rfl
  have hname : isName "a.py" = true := by decide
  have hroot : "r" ≠ "" := by decide
  obtain ⟨⟨filter, hfilter, hadmits⟩, hmeans⟩ :=
    ofWishes_rules hroot hway hname hdirs hfiles hexcluded hincluded
  refine ⟨hdirs, hfiles, ⟨filter, hfilter, hadmits.trans (congrArg Except.ok ?_)⟩, ?_⟩
  · decide +kernel
  · exact hmeans libRule "lib" rfl (by decide) (by decide) (by decide)

def apiRule : Rule :=
  ⟨false, ["src", "api"], false, by decide, by decide⟩

/-- A rule of two names counts neither when it leaves out nor when it includes. The usual rule for
`.git` leaves out `git`, and a rule leaves out the file of its name. -/
theorem rules_not_as_named :
    (apiRule.names <:+: ["src", "api"] ∧
      ∃ filter, ofWishes [] (NameLists.wishes { excludedDirs := some [apiRule.text] }) =
        .ok filter ∧
        filter.admits "r/src/api/a.py" = .ok true) ∧
    (∃ filter, ofWishes [] (NameLists.wishes { includedDirs := some [apiRule.text] }) = .ok filter ∧
      filter.admits "r/src/api/a.py" = .ok false) ∧
    ((∀ r ∈ usualRules, ¬r.names <:+: ["git"]) ∧
      ∃ filter, ofWishes [] ({} : NameLists).wishes = .ok filter ∧
        filter.admits "r/git/a.py" = .ok false) ∧
    (¬["a.py"] <:+: ([] : List String) ∧
      ∃ filter, ofWishes [] (NameLists.wishes { excludedDirs := some ["a.py"] }) = .ok filter ∧
        filter.admits "r/a.py" = .ok false) := by
  exact ⟨⟨List.infix_rfl, _, rfl, rfl⟩, ⟨_, rfl, rfl⟩, ⟨by decide +kernel, _, rfl, rfl⟩,
    ⟨by decide, _, rfl, rfl⟩⟩

end Filter

end Index
end RepoWiki
