import RepoWiki.Proofs.Outline.LineNumbers
import RepoWiki.Proofs.Outline.Session
/-
The dependencies of a file in the summary of its project.

An import names what it brings in under a label of its language. A report looks under four labels
only, and of these the last one counts (`importInfo_toJson_eq`). So a file, a namespace or a name is
not seen, and names picked out of a module hide the module. What a summary lists for a file is made
of just what the reports on its imports name (`dependencies_info`).
-/

namespace RepoWiki

open Fields List Outline.Import Outline.Report Outline.Summary RepoWiki.Path Text

theorem forall₂_trans {α β γ : Type} {R : α → β → Prop} {S : β → γ → Prop} {T : α → γ → Prop}
    {xs : List α} {ys : List β} {zs : List γ} (hxy : List.Forall₂ R xs ys)
    (hyz : List.Forall₂ S ys zs) (h : ∀ x y z, R x y → S y z → T x z) : List.Forall₂ T xs zs := by
  induction hxy generalizing zs with
  | nil =>
    cases hyz
    exact .nil
  | cons hxy _ ih =>
    cases hyz with
    | cons hyz hrest => exact .cons (h _ _ _ hxy hyz) (ih hrest)

variable {ess : List (List (Json × Bool))}

namespace Outline

/-! ## What imports name -/

def targetLabel : Language → String
  | .java => "package"
  | .cFamily | .css => "file"
  | .php => "name"
  | .csharp => "namespace"
  | .go => "path"
  | _ => "module"

/-- What an import brings in. A line that opens a module or a namespace brings in nothing. -/
def Import.target? (l : Language) (i : Import) : Option String :=
  if i.kind = "mod" ∨ i.kind = "namespace" then none else i.parts.lookup (targetLabel l)

def Import.isTold (l : Language) (i : Import) : Bool :=
  match l with
  | .java | .rust | .swift | .go => true
  | .python => i.kind = "import"
  | .javascript | .typescript => i.kind = "require"
  | .cFamily | .php | .csharp | .css | .html | .unknown => false

/-- What a summary names for an import: what it brings in, or else the names that it picks out. -/
def Import.told? (l : Language) (i : Import) : Option String :=
  if i.isTold l then i.target? l else i.parts.lookup "imports"

def Import.info (i : Import) : Json :=
  .obj (importFields (.str i.kind) (.int i.line) i.reported?)

theorem reported?_of_form {l : Language} {form : Import.Form} (hform : form ∈ forms l)
    (m : Pattern.Found) (n : Int) :
    reported? ⟨form.kind, form.parts m, n⟩ =
      told? l ⟨form.kind, form.parts m, n⟩ := by
  cases l with
  | python | rust | php | csharp | javascript | typescript =>
    rcases mem_cons.1 hform with rfl | hform
    · rfl
    · rw [mem_singleton.1 hform]
      rfl
  | java | cFamily | swift | css =>
    rw [mem_singleton.1 hform]
    rfl
  | go | html | unknown => cases hform

/-! ## Reports on imports -/

namespace Report

theorem importInfo_toJson_eq {i : Import} (h : "line_number" ∉ i.parts.map (·.1)) :
    importInfo i.toJson = .ok i.info := by
  obtain ⟨line, hline, hinfo⟩ := importInfo_toJson i
  obtain rfl := Except.ok.inj (hline.symm.trans (onLine_import h))
  exact hinfo

theorem mapM_importInfo {is : List Import} (h : ∀ i ∈ is, "line_number" ∉ i.parts.map (·.1)) :
    (is.map toJson).mapM importInfo = .ok (is.map info) := by
  induction is with
  | nil => rfl
  | cons i is ih =>
    obtain ⟨hi, his⟩ := forall_mem_cons.1 h
    rw [map_cons, mapM_cons, importInfo_toJson_eq hi, ok_bind, ih his]
    rfl

end Report

/-! ## Dependencies -/

namespace Summary

theorem dependencies_info (is : List Import) :
    ∃ named, dependencies (.arr (is.map info)) = .ok named ∧
      ∀ v, v ∈ named ↔ ∃ i ∈ is, ∃ t, i.reported? = some t ∧ v = .str t := by
  obtain ⟨named, hnamed, hmem⟩ := @dependencies_eq_ok (is.map info)
    (forall_mem_map.2 fun _ _ => ⟨_, _, _, rfl⟩)
  refine ⟨named, hnamed, fun v => (hmem v).trans ?_⟩
  simp [info, field?_importFields, eq_comm]

theorem fileSummary_dependencies {e s imports : Json} (hs : fileSummary e = .ok s)
    (himports : reach (.arr []) ["imports"] (reach (.obj []) ["parsed_data"]
      (reach (.obj []) ["analysis_result"] e)) = imports) :
    ∃ named, dependencies imports = .ok named ∧ s.field? "dependencies" = some (.arr named) := by
  obtain ⟨named, hnamed, hs⟩ := except_bind_eq_ok.1 hs
  obtain ⟨found, -, hs⟩ := except_bind_eq_ok.1 hs
  obtain ⟨classes, -, hs⟩ := except_bind_eq_ok.1 hs
  obtain ⟨functions, -, hs⟩ := except_bind_eq_ok.1 hs
  rw [except_pure_eq_ok] at hs
  exact ⟨named, himports ▸ hnamed, hs ▸ rfl⟩

end Summary

/-! ## Files -/

/-- The imports in the record of a file. -/
structure Brings (record : Json) (l : Language) (is : List Import) : Prop where
  listed : listed record "imports" = .ok (is.map toJson)
  told : ∀ i ∈ is, i.reported? = i.told? l
  labels : ∀ i ∈ is, "line_number" ∉ i.parts.map (·.1)

theorem brings_entries (name : String) (l : Language) (lines : List String) :
    Brings ((Entries.ofLines l lines).toJson name l) l (Entries.ofLines l lines).imports := by
  have hforms : ∀ i ∈ (Entries.ofLines l lines).imports, ∃ form ∈ forms l, ∃ m n,
      i = ⟨form.kind, form.parts m, n⟩ := by
    intro i hi
    obtain ⟨k, line, -, hfound⟩ := Entries.import_origin l lines i hi
    obtain ⟨form, hform, m, -, rfl⟩ := find?_eq_some hfound
    exact ⟨form, hform, m, _, rfl⟩
  refine ⟨rfl, fun i hi => ?_, fun i hi => ?_⟩
  · obtain ⟨form, hform, m, n, rfl⟩ := hforms i hi
    exact reported?_of_form hform m n
  · obtain ⟨form, hform, m, n, rfl⟩ := hforms i hi
    exact forms_labels l form hform m

theorem brings_goFile (name : String) (lines : List String) :
    Brings ((Go.File.ofLines lines).toJson name) .go (Go.File.ofLines lines).imports := by
  refine ⟨rfl, fun i hi => ?_, fun i hi => ?_⟩
  · obtain ⟨path, line, rfl⟩ := Go.File.import_origin lines i hi
    rfl
  · obtain ⟨path, line, rfl⟩ := Go.File.import_origin lines i hi
    show "line_number" ∉ ["path"]
    decide

theorem reach_imports {record : Fields} {package : Json} {imports functions methods : List Json}
    {classes : Option (List Json)} {n : Nat} (herror : get? "error" record = none)
    (hparsed : parsedData (.obj record) =
      .ok (dataOf package imports functions methods classes, n)) :
    ∃ report, ofRecord (.obj record) = .ok report ∧
      reach (.arr []) ["imports"] (reach (.obj []) ["parsed_data"] report) =
        .arr imports := by
  obtain ⟨metadata, hreport⟩ := ofRecord_of_parsedData herror hparsed
  refine ⟨_, hreport, (reach_obj _ _ _).trans ?_⟩
  exact get?_dataOf_imports package imports functions methods classes

theorem report_imports (tree : FileTree) (path : String) :
    ∃ is report, Brings (Project.recordOf tree (.str path)) (Language.ofFileName path) is ∧
      ofRecord (Project.recordOf tree (.str path)) = .ok report ∧
      reach (.arr []) ["imports"] (reach (.obj []) ["parsed_data"] report) =
        .arr (is.map info) := by
  cases hlines : tree.readLines path with
  | error fault =>
    have hrecord : Project.recordOf tree (.str path) = ofFault path fault.message := by
      rw [Project.recordOf, Json.asPath]
      dsimp only
      rw [hlines]
    rw [hrecord]
    unfold ofFault
    split
    all_goals
      exact ⟨[], _, ⟨rfl, forall_mem_nil _, forall_mem_nil _⟩, rfl, rfl⟩
  | ok lines =>
    rw [recordOf_readLines hlines]
    by_cases hgo : Language.ofFileName path = .go
    · rw [ofLines_goFile hgo, hgo]
      have hbrings := brings_goFile (base path) lines
      obtain ⟨functions, hfunctions, -⟩ :=
        goFunctions_eq_ok (Go.File.ofLines lines).functions
      obtain ⟨methods, hmethods, -⟩ := goMethods_eq_ok (Go.File.received_ofLines lines)
      obtain ⟨report, hreport⟩ := reach_imports rfl (parsedData_goFile (base path)
        (mapM_importInfo hbrings.labels) hfunctions hmethods)
      exact ⟨_, report, hbrings, hreport⟩
    · rw [ofLines_entries hgo]
      generalize Language.ofFileName path = l at hgo ⊢
      have hbrings := brings_entries (base path) l lines
      obtain ⟨functions, hfunctions, -⟩ :=
        functions_eq_ok (Entries.ofLines l lines).functions
      obtain ⟨classes, hclasses, -⟩ := classes_eq_ok (Entries.ofLines l lines).classes
      obtain ⟨report, hreport⟩ := reach_imports rfl (parsedData_entries (base path) hgo
        (mapM_importInfo hbrings.labels) hfunctions hclasses)
      exact ⟨_, report, hbrings, hreport⟩

/-- The dependencies listed for the imports of a file in some language. -/
structure Dependencies (l : Language) (is : List Import) (named : List Json) : Prop where
  told : ∀ v, v ∈ named ↔ ∃ i ∈ is, ∃ t, i.told? l = some t ∧ v = .str t
  kept : ∀ i ∈ is, i.isTold l = true → ∀ t, i.target? l = some t → .str t ∈ named

theorem Brings.dependencies {record : Json} {l : Language} {is : List Import} {named : List Json}
    (h : Brings record l is)
    (hmem : ∀ v, v ∈ named ↔ ∃ i ∈ is, ∃ t, i.reported? = some t ∧ v = .str t) :
    Dependencies l is named := by
  refine ⟨fun v => (hmem v).trans ?_, fun i hi hkept t ht => (hmem _).2 ⟨i, hi, t, ?_, rfl⟩⟩
  · exact exists_congr fun i => and_congr_right fun hi => by rw [h.told i hi]
  · rw [h.told i hi, told?, if_pos hkept, ht]

namespace Project

/-- The summary of a file lists the dependencies of the file. Only where the console cannot print
everything may the report on a file be missing, and then nothing is listed. -/
def DependsOn (h : Host) (path : String) (summary : Json) : Prop :=
  summary.field? "file_name" = some (.str (base path)) ∧
    ∃ (named : List Json) (is : List Import), summary.field? "dependencies" = some (.arr named) ∧
      listed (recordOf h.tree (.str path)) "imports" = .ok (is.map toJson) ∧
      (Dependencies (Language.ofFileName path) is named ∨ h.console ≠ .unicode ∧ named = [])

variable {h : Host}

theorem EntryOf.dependsOn {dir : String} {s : Source} {e : Json × Bool}
    (he : EntryOf h.tree dir s e) (hs : s.Proper) (hdone : h.console = .unicode → e.2 = true)
    {summary : Json} (hsummary : fileSummary e.1 = .ok summary) :
    DependsOn h s.path summary := by
  obtain ⟨is, report, hbrings, hreport, himports⟩ := report_imports h.tree s.path
  have hname := fileSummary_file_name he.file_name hsummary
  rw [hs.name] at hname
  cases he with
  | done hgiven =>
    obtain rfl := Except.ok.inj (hreport.symm.trans hgiven)
    obtain ⟨named, hnamed, hfield⟩ := fileSummary_dependencies hsummary himports
    obtain ⟨others, hothers, hmem⟩ := dependencies_info is
    obtain rfl := Except.ok.inj (hothers.symm.trans hnamed)
    exact ⟨hname, others, is, hfield, hbrings.listed, .inl (hbrings.dependencies hmem)⟩
  | failed message =>
    obtain ⟨named, hnamed, hfield⟩ := fileSummary_dependencies hsummary rfl
    obtain rfl := Except.ok.inj hnamed
    rw [mergeSort_nil] at hfield
    exact ⟨hname, [], is, hfield, hbrings.listed,
      .inr ⟨fun hconsole => Bool.false_ne_true (hdone hconsole), rfl⟩⟩

/-- The entry of a file has its ending, and its summary has the dependencies of the file. -/
def EntryAt (h : Host) (path : String) (e : Json) : Prop :=
  e.field? "file_type" = some (.str (lower (extension path))) ∧
    ∀ summary, fileSummary e = .ok summary → DependsOn h path summary

theorem entries_flagged {k : Host} {dir : String}
    (hess : ((sources h.tree dir).mapM (entries dir)).on h = (.ok ess, k)) :
    List.Forall₂ (fun s e => (h.console = .unicode → e.2 = true) ∧ EntryOf h.tree dir s e)
      (sources h.tree dir) ess.flatten := by
  have hdone : ∀ e ∈ ess.flatten, h.console = .unicode → e.2 = true := by
    intro e he hconsole
    obtain ⟨others, _, hothers, hdone⟩ := mapM_entries_on hconsole dir (sources h.tree dir)
    rw [hess, Prod.mk.injEq, Except.ok.injEq] at hothers
    rw [← hothers.1] at hdone
    exact hdone e he
  have hflagged : List.Forall₂ (fun e s => (h.console = .unicode → e.2 = true) ∧
      EntryOf h.tree dir s e) ess.flatten (sources h.tree dir) :=
    (forall₂_and_left _ _).2 ⟨hdone, (mapM_entries_eq_ok hess).2.flip⟩
  exact hflagged.flip

theorem entriesAt {k : Host} {dir : String} {place : List String} (ht : h.tree.Orderly)
    (hdir : h.tree.directoryAt dir = .ok place)
    (hess : ((sources h.tree dir).mapM (entries dir)).on h = (.ok ess, k)) :
    List.Forall₂ (EntryAt h) (sourcePaths h.tree dir) (ess.flatten.map (·.1)) := by
  have hall : List.Forall₂ (fun s e => s.Proper ∧ (h.console = .unicode → e.2 = true) ∧
      EntryOf h.tree dir s e) (sources h.tree dir) ess.flatten :=
    (forall₂_and_left _ _).2
      ⟨fun s hs => proper_of_mem_sources ht hdir hs, entries_flagged hess⟩
  rw [← sources_paths ht hdir, forall₂_map_left_iff, forall₂_map_right_iff]
  refine hall.imp fun s e hse => ?_
  obtain ⟨hproper, hflag, hentry⟩ := hse
  exact ⟨hproper.ending ▸ hentry.file_type, fun summary => hentry.dependsOn hproper hflag⟩

def summaryOf (tree : FileTree) (dir : String) : Result Json := do
  let entries ← (sources tree dir).mapM fun s => do
    return (s.done tree.cwd dir (← ofRecord (recordOf tree (.str s.path))), true)
  ofProject (data dir (sources tree dir).length entries)

theorem summaryOf_of_analyse {k : Host} {path summary : Json} (hconsole : h.console = .unicode)
    (hrun : (analyse path).on h = (.ok summary, k)) :
    ∃ dir, (locate path).on h = (.ok dir, h) ∧ summaryOf h.tree dir = .ok summary := by
  rw [analyse] at hrun
  obtain ⟨dir, g, hdir, hrest⟩ := Run.bind_eq_ok hrun
  obtain ⟨project, n, hproject, hfile⟩ := Run.bind_eq_ok hrest
  obtain ⟨rfl, -⟩ := locate_eq_ok hdir
  obtain ⟨ess, hess, rfl⟩ := survey_eq_ok hproject
  have hreports : ∀ {found : List Source} {es : List (Json × Bool)},
      List.Forall₂ (fun s e => (g.console = .unicode → e.2 = true) ∧ EntryOf g.tree dir s e)
        found es →
      (found.mapM fun s => do
        return (s.done g.tree.cwd dir (← ofRecord (recordOf g.tree (.str s.path))), true)) =
          (.ok es : Result _) := by
    intro found es hall
    induction hall with
    | nil => rfl
    | @cons s e found es he _ ih =>
      obtain ⟨hflag, hentry⟩ := he
      cases hentry with
      | done hreport =>
        rw [mapM_cons, hreport, ok_bind, ih]
        rfl
      | failed message => cases hflag hconsole
  refine ⟨dir, hdir, ?_⟩
  rw [summaryOf, hreports (entries_flagged hess), ok_bind]
  exact file_eq_ok hfile

/-! ## A project with an include and a picked name -/

def mixedFiles : List (List String × Entry) :=
  [(["w", "a", "a.c"], .file (.text "#include <stdio.h>") none),
    (["w", "a", "b.py"], .file (.text "from os import path") none)]

theorem mixed_orderly : (desk mixedFiles).tree.Orderly :=
  ⟨by decide, by decide, by decide⟩

theorem mixed_lines :
    (desk mixedFiles).tree.readLines "/w/a/a.c" = .ok ["#include <stdio.h>"] ∧
      (desk mixedFiles).tree.readLines "/w/a/b.py" = .ok ["from os import path"] := by
  constructor
  · rw [FileTree.readLines, FileTree.open?,
      show (desk mixedFiles).tree.resolve "/w/a/a.c" = .ok ["w", "a", "a.c"] by decide +kernel]
    rfl
  · rw [FileTree.readLines, FileTree.open?,
      show (desk mixedFiles).tree.resolve "/w/a/b.py" = .ok ["w", "a", "b.py"] by decide +kernel]
    rfl

theorem mixed_modest : Modest (desk mixedFiles).tree "/w/a" := by
  have hpaths : (sources (desk mixedFiles).tree "/w/a").map Source.path =
      ["/w/a/a.c", "/w/a/b.py"] := by
    decide +kernel
  have hfew : 2 < 10 ^ digitLimit := by
    calc 2 < 10 ^ 1 := by decide
      _ ≤ 10 ^ digitLimit := Nat.pow_le_pow_right (by decide) (by decide)
  refine ⟨?_, fun s hs lines hlines => ?_⟩
  · rw [← length_map Source.path, hpaths]
    exact hfew
  · have hpath := mem_map_of_mem hs (f := Source.path)
    rw [hpaths, mem_cons, mem_singleton] at hpath
    rcases hpath with hpath | hpath
    · rw [hpath, mixed_lines.1] at hlines
      rw [← Except.ok.inj hlines]
      exact Nat.lt_of_succ_lt hfew
    · rw [hpath, mixed_lines.2] at hlines
      rw [← Except.ok.inj hlines]
      exact Nat.lt_of_succ_lt hfew

theorem mixed_analysed :
    ∃ summary k, (analyse (.str "/w/a")).on (desk mixedFiles) = (.ok summary, k) := by
  have hholds : Archive.Holds (desk mixedFiles) [".adalflow", "analysis"] ["a"]
      fun _ _ => none := by
    refine ⟨rfl, desk_room mixedFiles, fun n hn kind => ?_⟩
    simp [FileTree.lookup?, desk, mixedFiles]
  obtain ⟨project, summary, -, k, hk, -⟩ := analyse_gives hholds (by decide) (by decide +kernel)
    mixed_modest (by decide) (desk_projects.fits (show "/w/a" ∈ deskDirs by decide))
  exact ⟨summary, k, hk⟩

/-! ## Summaries of projects -/

theorem EntryAt.isOfEnding {path : String} {e : Json} (he : EntryAt h path e) (ending : String) :
    decide (lower (extension path) = ending) = true ↔
      Summary.isOfEnding ending e = true := by
  rw [Summary.isOfEnding, he.1, decide_eq_true_iff]
  simp [Json.asText?]

/-- The summary of a project has every source file under its ending, with what the imports of the
file name: what they bring in, except that names picked out of a module stand for the module, and
that files, namespaces and names by themselves are left out. -/
theorem analyse_dependencies {h k : Host} {path summary : Json} (ht : h.tree.Orderly)
    (hrun : (analyse path).on h = (.ok summary, k)) :
    ∃ (dir : String) (modules : List (String × List Json)), (locate path).on h = (.ok dir, h) ∧
      summary.field? "modules" = some (.obj (modules.map fun m =>
        (m.1, .obj [("file_count", .nat m.2.length), ("files", .arr m.2)]))) ∧
      (∀ p ∈ sourcePaths h.tree dir, lower (extension p) ∈ modules.map (·.1)) ∧
      ∀ m ∈ modules, List.Forall₂ (DependsOn h)
        ((sourcePaths h.tree dir).filter fun p => lower (extension p) = m.1) m.2 := by
  rw [analyse] at hrun
  obtain ⟨dir, g, hdir, hrest⟩ := Run.bind_eq_ok hrun
  obtain ⟨project, n, hproject, hfile⟩ := Run.bind_eq_ok hrest
  obtain ⟨rfl, place, hplace⟩ := locate_eq_ok hdir
  obtain ⟨entries, hsurveyed⟩ := surveyed ht hplace hproject
  obtain ⟨ess, hess, rfl⟩ := survey_eq_ok hproject
  obtain rfl : ess.flatten.map (·.1) = entries := Json.arr.inj (Option.some.inj hsurveyed.files)
  have hentries := entriesAt ht hplace hess
  obtain ⟨-, ⟨modules, hmodules, -, hcovered, hsummaries, -⟩, -⟩ :=
    hsurveyed.extracted (file_eq_ok hfile)
  refine ⟨dir, modules, hdir, hmodules, fun p hp => ?_, fun m hm => ?_⟩
  · obtain ⟨e, he, hentry⟩ := exists_of_mem_left hentries hp
    obtain ⟨m, hm, hending⟩ := hcovered e he
    exact List.mem_map.2 ⟨m, hm, (of_decide_eq_true ((hentry.isOfEnding m.1).2 hending)).symm⟩
  · have hmodule : List.Forall₂ (EntryAt g)
        ((sourcePaths g.tree dir).filter fun p => lower (extension p) = m.1)
        ((ess.flatten.map (·.1)).filter (isOfEnding m.1)) :=
      List.rel_filter (fun p e he => he.isOfEnding m.1) hentries
    have hfiles := forall₂_of_mapM_eq_ok (hsummaries m hm)
    exact forall₂_trans hmodule hfiles fun p e s he => he.2 s

theorem analyse_dependencies_mixed :
    ∃ summary k, (analyse (.str "/w/a")).on (desk mixedFiles) = (.ok summary, k) ∧
      ∃ (dir : String) (modules : List (String × List Json)),
        (locate (.str "/w/a")).on (desk mixedFiles) = (.ok dir, desk mixedFiles) ∧
        summary.field? "modules" = some (.obj (modules.map fun m =>
          (m.1, .obj [("file_count", .nat m.2.length), ("files", .arr m.2)]))) ∧
        (∀ p ∈ sourcePaths (desk mixedFiles).tree dir,
          lower (extension p) ∈ modules.map (·.1)) ∧
        ∀ m ∈ modules, List.Forall₂ (DependsOn (desk mixedFiles))
          ((sourcePaths (desk mixedFiles).tree dir).filter fun p =>
            lower (extension p) = m.1) m.2 := by
  obtain ⟨summary, k, hrun⟩ := mixed_analysed
  exact ⟨summary, k, hrun, analyse_dependencies mixed_orderly hrun⟩

def onlyDependencies? (ending : String) (summary : Json) : Option (List String) :=
  match ((summary.field? "modules").bind (Json.field? ending)).bind (Json.field? "files") with
  | some (.arr [file]) =>
      match file.field? "dependencies" with
      | some (.arr named) => named.mapM Json.asText?
      | _ => none
  | _ => none

/-- The file that is included is in the record and not in the summary, and neither is the module out
of which a name is picked. -/
theorem analyse_target_lost :
    ∃ summary k, (analyse (.str "/w/a")).on (desk mixedFiles) = (.ok summary, k) ∧
      listed (recordOf (desk mixedFiles).tree (.str "/w/a/a.c")) "imports" =
        .ok [toJson ⟨"include", [("file", "stdio.h")], 1⟩] ∧
      onlyDependencies? ".c" summary = some [] ∧
      listed (recordOf (desk mixedFiles).tree (.str "/w/a/b.py")) "imports" =
        .ok [toJson ⟨"from_import", [("module", "os"), ("imports", "path")], 1⟩] ∧
      onlyDependencies? ".py" summary = some ["path"] := by
  obtain ⟨summary, k, hrun⟩ := mixed_analysed
  obtain ⟨dir, hdir, hsummary⟩ := summaryOf_of_analyse rfl hrun
  rw [locate_on (by decide) (by decide +kernel), Prod.mk.injEq, Except.ok.injEq] at hdir
  obtain ⟨rfl, -⟩ := hdir
  have hnamed : (summaryOf (desk mixedFiles).tree "/w/a").toOption.map (fun summary =>
      (onlyDependencies? ".c" summary, onlyDependencies? ".py" summary)) =
      some (some [], some ["path"]) := by
    decide +kernel
  rw [hsummary] at hnamed
  obtain ⟨hnone, hpicked⟩ := Prod.mk.inj (Option.some.inj hnamed)
  have hc : Language.ofFileName "/w/a/a.c" = .cFamily := by decide +kernel
  have hpython : Language.ofFileName "/w/a/b.py" = .python := by decide +kernel
  refine ⟨summary, k, hrun, ?_, hnone, ?_, hpicked⟩
  · rw [recordOf_readLines mixed_lines.1, ofLines_entries (by rw [hc]; decide), hc,
      (brings_entries _ _ _).listed,
      show (Entries.ofLines .cFamily ["#include <stdio.h>"]).imports =
        [⟨"include", [("file", "stdio.h")], 1⟩] by decide +kernel]
    rfl
  · rw [recordOf_readLines mixed_lines.2, ofLines_entries (by rw [hpython]; decide), hpython,
      (brings_entries _ _ _).listed,
      show (Entries.ofLines .python ["from os import path"]).imports =
        [⟨"from_import", [("module", "os"), ("imports", "path")], 1⟩] by decide +kernel]
    rfl

end Project
end Outline
end RepoWiki
