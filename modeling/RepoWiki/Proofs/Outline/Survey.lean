import Mathlib.Algebra.BigOperators.Group.List.Lemmas
import Mathlib.Data.List.Dedup
import RepoWiki.Proofs.Outline.Report
import RepoWiki.Proofs.Walk
/-
The survey of a project misses no file and counts none twice, whatever the console can print.

A fault while a report is printed turns the entry of a file into a failed one. A fault after that
would add a second entry, but it cannot come: what is printed then is the path once more, and the
letters around it are in every character set (`entries_eq_ok`). The summary puts each file under its
ending, in the order of the walk (`modules_eq`).
-/

namespace RepoWiki

open Fields FileTree Json List RepoWiki.Path Run Text

variable {α β : Type} {R : α → β → Prop} {xs : List α} {ys : List β}

theorem map_of_forall₂ {γ : Type} {f : α → γ} {g : β → γ} (h : List.Forall₂ R xs ys)
    (hfg : ∀ x y, R x y → g y = f x) : ys.map g = xs.map f := by
  induction h with
  | nil => rfl
  | cons hxy _ ih => rw [map_cons, map_cons, hfg _ _ hxy, ih]

theorem exists_of_map_eq {γ : Type} {f : α → γ} {g : β → γ} (h : xs.map f = ys.map g) {x : α}
    (hx : x ∈ xs) : ∃ y, f x = g y := by
  obtain ⟨y, -, hy⟩ := mem_map.1 (h ▸ mem_map_of_mem hx)
  exact ⟨y, hy.symm⟩

variable {project : Json}

namespace Outline

/-! ## Files under their endings -/

namespace Summary

variable {files : List (String × Json)} {endings : List String}

def moduleOf (files : List (String × Json)) (ending : String) : Module :=
  ⟨.str ending, (files.filter (·.1 = ending)).map (·.2)⟩

theorem addFile_of_not_mem {e : String} (he : e ∉ endings) (v : Json) :
    addFile (.str e) v (endings.map (moduleOf files)) =
      endings.map (moduleOf files) ++ [⟨.str e, [v]⟩] := by
  induction endings with
  | nil => rfl
  | cons d endings ih =>
    rw [mem_cons, not_or] at he
    have hne : (moduleOf files d).key.same (.str e) = false := by
      simpa [moduleOf, same] using Ne.symm he.1
    rw [map_cons, addFile, hne, if_neg Bool.false_ne_true, ih he.2]
    rfl

theorem moduleOf_append_ne {d e : String} (hne : d ≠ e) (v : Json) :
    moduleOf (files ++ [(e, v)]) d = moduleOf files d := by
  simp [moduleOf, filter_append, Ne.symm hne]

theorem moduleOf_append_self (files : List (String × Json)) (e : String) (v : Json) :
    moduleOf (files ++ [(e, v)]) e = ⟨.str e, (moduleOf files e).files ++ [v]⟩ := by
  simp [moduleOf, filter_append]

theorem addFile_of_mem {e : String} (hnodup : endings.Nodup) (he : e ∈ endings) (v : Json) :
    addFile (.str e) v (endings.map (moduleOf files)) =
      endings.map (moduleOf (files ++ [(e, v)])) := by
  induction endings with
  | nil => cases he
  | cons d endings ih =>
    obtain ⟨hd, hrest⟩ := nodup_cons.1 hnodup
    rw [map_cons, map_cons, addFile]
    by_cases hde : d = e
    · subst hde
      have hsame : (moduleOf files d).key.same (.str d) = true := by simp [moduleOf, same]
      rw [if_pos hsame, moduleOf_append_self]
      refine congrArg₂ List.cons rfl (map_congr_left fun c hc => ?_)
      have hne : c ≠ d := by
        rintro rfl
        exact hd hc
      exact (moduleOf_append_ne hne v).symm
    · have hne : (moduleOf files d).key.same (.str e) = false := by
        simpa [moduleOf, same] using hde
      rw [hne, if_neg Bool.false_ne_true, moduleOf_append_ne hde,
        ih hrest ((mem_cons.1 he).resolve_left (Ne.symm hde))]

/-- Adding files one after the other gives a module for each ending, once, with the files of that
ending in their order. -/
theorem modules_eq (files : List (String × Json)) :
    ∃ endings : List String, endings.Nodup ∧ (∀ e, e ∈ endings ↔ e ∈ files.map (·.1)) ∧
      files.foldl (fun modules f => addFile (.str f.1) f.2 modules) [] =
        endings.map (moduleOf files) := by
  induction files using List.reverseRecOn with
  | nil => exact ⟨[], nodup_nil, fun e => Iff.rfl, rfl⟩
  | append_singleton files f ih =>
    obtain ⟨endings, hnodup, hmem, hfold⟩ := ih
    obtain ⟨e, v⟩ := f
    rw [foldl_append, hfold, foldl_cons, foldl_nil]
    by_cases he : e ∈ endings
    · refine ⟨endings, hnodup, fun d => ?_, addFile_of_mem hnodup he v⟩
      rw [map_append, mem_append, hmem d]
      refine ⟨.inl, ?_⟩
      rintro (hd | hd)
      · exact hd
      · obtain rfl : d = e := by simpa using hd
        exact (hmem d).1 he
    · have hnew : files.filter (fun g => g.1 = e) = [] := by
        rw [filter_eq_nil_iff]
        intro g hg hge
        exact he ((hmem e).2 (mem_map.2 ⟨g, hg, by simpa using hge⟩))
      refine ⟨endings ++ [e], ?_, fun d => ?_, ?_⟩
      · rw [nodup_append]
        refine ⟨hnodup, nodup_singleton e, ?_⟩
        rintro d hd c hc rfl
        exact he (mem_singleton.1 hc ▸ hd)
      · rw [mem_append, hmem d, map_append, mem_append]
        rfl
      · rw [addFile_of_not_mem he, map_append, map_singleton, moduleOf_append_self]
        refine congrArg₂ _ (map_congr_left fun d hd => ?_) ?_
        · have hne : d ≠ e := by
            rintro rfl
            exact he hd
          exact (moduleOf_append_ne hne v).symm
        · simp [moduleOf, hnew]

theorem sum_modules (hnodup : endings.Nodup) (hmem : ∀ e, e ∈ endings ↔ e ∈ files.map (·.1)) :
    (endings.map fun e => (moduleOf files e).files.length).sum = files.length := by
  have hperm : endings.Perm (files.map (·.1)).dedup := by
    rw [perm_ext_iff_of_nodup hnodup (nodup_dedup _)]
    intro e
    rw [hmem e, mem_dedup]
  have hcount : ∀ e, (moduleOf files e).files.length = (files.map (·.1)).count e := by
    intro e
    rw [moduleOf, length_map, count_eq_countP, countP_map, ← countP_eq_length_filter]
    refine countP_congr fun f _ => ?_
    simp
  rw [map_congr_left fun e _ => hcount e, (hperm.map _).sum_eq,
    sum_map_count_dedup_eq_length, length_map]

end Summary

/-! ## Reports -/

namespace Report

variable {report : Json}

theorem metadata_of_ofRecord {record : Fields} (h : ofRecord (.obj record) = .ok report) :
    report.field? "metadata" = some (.obj [("filename", (get? "filename" record).getD (.str "")),
      ("language", (get? "language" record).getD (.str ""))]) := by
  rw [ofRecord, Json.getD, ok_bind, Json.getD, ok_bind] at h
  dsimp only at h
  obtain ⟨broken, -, h⟩ := except_bind_eq_ok.1 h
  split at h
  · obtain ⟨message, -, h⟩ := except_bind_eq_ok.1 h
    obtain ⟨file, -, h⟩ := except_bind_eq_ok.1 h
    rw [except_pure_eq_ok] at h
    exact h ▸ rfl
  · obtain ⟨data, -, h⟩ := except_bind_eq_ok.1 h
    rw [except_pure_eq_ok] at h
    exact h ▸ rfl

theorem error_of_ofRecord {record : Fields} {message : Json}
    (hmessage : get? "error" record = some message)
    (h : ofRecord (.obj record) = .ok report) :
    (report.field? "error").isSome = true := by
  have hholds : (Json.obj record).holds "error" = .ok true := by
    rw [Json.holds, has, hmessage]
    rfl
  rw [ofRecord, Json.getD, ok_bind, Json.getD, ok_bind] at h
  dsimp only at h
  rw [hholds, ok_bind, if_pos rfl, Json.item_obj hmessage, ok_bind] at h
  obtain ⟨file, -, h⟩ := except_bind_eq_ok.1 h
  rw [except_pure_eq_ok] at h
  exact h ▸ rfl

theorem language_of_report {tree : FileTree} {path : String}
    (h : ofRecord (Project.recordOf tree (.str path)) = .ok report)
    (hno : report.field? "error" = none) :
    (report.field? "metadata").bind (field? "language") =
      some (.str (Language.ofFileName path).label) := by
  rw [Project.recordOf, asPath] at h
  dsimp only at h
  cases hlines : tree.readLines path with
  | error fault =>
    rw [hlines] at h
    dsimp only at h
    have herror : (report.field? "error").isSome = true := by
      unfold ofFault at h
      split at h
      · exact error_of_ofRecord rfl h
      · exact error_of_ofRecord rfl h
    rw [hno] at herror
    cases herror
  | ok lines =>
    rw [hlines] at h
    dsimp only at h
    unfold ofLines at h
    split at h
    · next hgo =>
      rw [metadata_of_ofRecord h, hgo]
      rfl
    · rw [metadata_of_ofRecord h]
      rfl

end Report

/-! ## Entries -/

namespace Project

open Run (Keeps)

variable {dir root : String}

variable (g : Host)

instance (path : String) : Keeps g.Told (report path) := by
  unfold report
  infer_instance

instance (s : Source) : Keeps g.Told (attemptReport s) := by
  unfold attemptReport
  infer_instance

instance (s : Source) : Keeps g.Told (tellDone s) := by
  unfold tellDone
  infer_instance

instance (s : Source) (cwd dir : String) (fault : Fault) :
    Keeps g.Told (s.failed cwd dir fault) := by
  unfold Source.failed
  infer_instance

instance (dir : String) (s : Source) : Keeps g.Told (entries dir s) := by
  unfold entries
  refine .andThen inferInstance fun tree => .andThen inferInstance fun outcome => ?_
  split
  · infer_instance
  · refine .andThen inferInstance fun told => ?_
    split <;> infer_instance

variable {h k : Host} {s : Source}

theorem report_eq_ok {path : String} {r : Json} (hr : (report path).on h = (.ok r, k)) :
    Report.ofRecord (recordOf h.tree (.str path)) = .ok r := by
  rw [report, on_bind_ok (on_tree h), on_lift_bind] at hr
  cases hrecord : Report.ofRecord (recordOf h.tree (.str path)) with
  | error fault =>
    rw [hrecord, next_error] at hr
    cases hr
  | ok given =>
    rw [hrecord, next_ok] at hr
    obtain ⟨_, _, -, hr⟩ := bind_eq_ok hr
    replace hr := pure_eq_ok hr
    rw [hr.1]

theorem attemptReport_eq_ok {r : Json} (hr : (attemptReport s).on h = (.ok (.ok r), k)) :
    h.console.check s.path = .ok () ∧
      Report.ofRecord (recordOf h.tree (.str s.path)) = .ok r := by
  rcases orElse_eq_ok hr with hstep | ⟨fault, m, -, hrescue⟩
  · obtain ⟨_, m, hline, hstep⟩ := bind_eq_ok hstep
    obtain ⟨_, n, hpath, hstep⟩ := bind_eq_ok hstep
    obtain ⟨given, _, hreport, hstep⟩ := bind_eq_ok hstep
    rw [on_pure, Prod.mk.injEq, Except.ok.injEq, Except.ok.injEq] at hstep
    have hm : h.Told m := .of_keeps hline
    have hn : m.Told n := .of_keeps hpath
    have hcheck : h.console.check ("Processing: " ++ s.path) = .ok () := by
      rw [← hm.console]
      exact print_eq_ok hpath
    refine ⟨(Charset.check_append.1 hcheck).2, ?_⟩
    rw [← hstep.1, ← hm.tree, ← hn.tree]
    exact report_eq_ok hreport
  · rw [on_pure] at hrescue
    cases hrescue

theorem tellDone_on (hpath : h.console.check s.path = .ok ()) :
    ∃ k, (tellDone s).on h = (.ok none, k) := by
  have hdone : h.console.check ("Successfully processed: " ++ s.path) = .ok () :=
    Charset.check_append.2 ⟨h.console.check_letters (all_iff_forall_prop.1 (by decide)), hpath⟩
  have hend : ∀ m : Host, (print "").on m =
      (.ok (), { m with printed := m.printed ++ "" ++ "\n" }) :=
    fun m => on_print_ok (m.console.check_letters (all_iff_forall_prop.1 (by decide)))
  exact ⟨_, on_orElse_ok ((on_bind_ok (on_print_ok hdone) _).trans
    ((on_bind_ok (hend _) _).trans (on_pure none _))) _⟩

/-- The entry of a source file: for its report, or for a fault. -/
inductive EntryOf (tree : FileTree) (dir : String) (s : Source) : Json × Bool → Prop where
  | done {report : Json} (h : Report.ofRecord (recordOf tree (.str s.path)) = .ok report) :
      EntryOf tree dir s (s.done tree.cwd dir report, true)
  | failed (message : String) :
      EntryOf tree dir s (.obj (s.fields tree.cwd dir ++
        [("error", .str message), ("status", .str "failed")]), false)

theorem failed_eq_ok {cwd : String} {fault : Fault} {v : Json}
    (hf : (s.failed cwd dir fault).on h = (.ok v, k)) :
    v = .obj (s.fields cwd dir ++ [("error", .str fault.message), ("status", .str "failed")]) := by
  obtain ⟨_, _, -, hf⟩ := bind_eq_ok hf
  obtain ⟨_, _, -, hf⟩ := bind_eq_ok hf
  exact (pure_eq_ok hf).1.symm

theorem entries_eq_ok {es : List (Json × Bool)} (he : (entries dir s).on h = (.ok es, k)) :
    ∃ e, es = [e] ∧ EntryOf h.tree dir s e := by
  rw [entries, on_bind_ok (on_tree h)] at he
  obtain ⟨outcome, m, houtcome, he⟩ := bind_eq_ok he
  cases outcome with
  | error fault =>
    obtain ⟨v, _, hv, he⟩ := bind_eq_ok he
    replace he := pure_eq_ok he
    exact ⟨_, he.1.symm, failed_eq_ok hv ▸ .failed fault.message⟩
  | ok report =>
    obtain ⟨hpath, hreport⟩ := attemptReport_eq_ok houtcome
    have htold : h.Told m := .of_keeps houtcome
    -- The path was printed once, so it can be printed again, and nothing is added.
    obtain ⟨n, hdone⟩ := tellDone_on (s := s) (h := m) (htold.console ▸ hpath)
    dsimp only at he
    rw [on_bind_ok hdone, on_pure, Prod.mk.injEq, Except.ok.injEq] at he
    exact ⟨_, he.1.symm, .done hreport⟩

/-! ## The files of a project -/

def isSource (path : String) : Bool :=
  (Language.ofEnding? (Text.lower (extension path))).isSome

def sourcePaths (tree : FileTree) (dir : String) : List String :=
  (FileTree.pathsOf (tree.walk (fun _ => true) dir)).filter isSource

theorem extension_eq (p : String) :
    extension p =
      ((cutLast? "." (String.ofList ((base p).toList.dropWhile (· == '.')))).map
        fun parts => "." ++ parts.2).getD "" := by
  rw [extension]
  delta splitExtension
  dsimp only
  generalize cutLast? "." (String.ofList ((base p).toList.dropWhile (· == '.'))) = parts
  cases parts with
  | none => rfl
  | some parts => rfl

theorem extension_join {name : String} (hroot : root ≠ "") (hname : isName name = true) :
    extension (join root name) = extension name := by
  rw [extension_eq, extension_eq name, base_join hroot hname, isName.base hname]

/-- A source file as its path tells it. -/
structure Source.Proper (s : Source) : Prop where
  name : s.name = base s.path
  ending : s.ending = Text.lower (extension s.path)
  language : s.language = Language.ofFileName s.path

theorem Source.ofName?_eq_some {name : String} (hroot : root ≠ "")
    (hname : isName name = true) (hs : Source.ofName? root name = some s) :
    s.path = join root name ∧ s.Proper := by
  rw [Source.ofName?, Option.map_eq_some_iff] at hs
  obtain ⟨l, hl, rfl⟩ := hs
  have hextension := extension_join hroot hname
  refine ⟨rfl, (base_join hroot hname).symm, (congrArg lower hextension).symm, ?_⟩
  show l = (Language.ofEnding? (lower (extension (join root name)))).getD .unknown
  rw [hextension, hl, Option.getD_some]

theorem isSome_ofName? {name : String} (hroot : root ≠ "") (hname : isName name = true) :
    (Source.ofName? root name).isSome = isSource (join root name) := by
  rw [Source.ofName?, Option.isSome_map, isSource, extension_join hroot hname]

theorem sources_of_visit {files : List String} (hroot : root ≠ "")
    (hfiles : ∀ name ∈ files, Path.isName name = true) :
    (files.filterMap (Source.ofName? root)).map Source.path =
      (files.map (Path.join root)).filter isSource := by
  induction files with
  | nil => rfl
  | cons name files ih =>
    have hname := hfiles name mem_cons_self
    have hrest := ih fun n hn => hfiles n (mem_cons_of_mem name hn)
    rw [map_cons, filter_cons, ← isSome_ofName? hroot hname]
    cases hs : Source.ofName? root name with
    | none =>
      rw [filterMap_cons_none hs]
      exact hrest
    | some s =>
      rw [filterMap_cons_some hs, map_cons, hrest, (Source.ofName?_eq_some hroot hname hs).1]
      rfl

section

variable {tree : FileTree} {dir : String} {place : List String} (ht : tree.Orderly)
  (hdir : tree.directoryAt dir = .ok place)
include ht hdir

theorem visit_proper {files : List String} (h : (root, files) ∈ tree.walk (fun _ => true) dir) :
    root ≠ "" ∧ ∀ name ∈ files, isName name = true := by
  obtain ⟨way, hway, hvisited, rfl, listing, hlist, rfl⟩ :=
    (mem_walkFrom ht hdir (Nat.le_add_right _ _)).1 h
  obtain ⟨other, hother, -, -, -, hsub⟩ :=
    list_eq_ok (hvisited.listed way (prefix_refl way))
  obtain rfl := Except.ok.inj (hother.symm.trans hlist)
  exact ⟨extend_ne_empty (ne_empty_of_directoryAt hdir) hway,
    fun name hname => ht.isName_of_mem_namesAt (hsub.subset hname)⟩

theorem sources_paths : (sources tree dir).map Source.path = sourcePaths tree dir := by
  rw [sources, sourcePaths, pathsOf, map_flatMap, filter_flatMap, flatMap_def, flatMap_def]
  refine congrArg List.flatten (map_congr_left fun visit hvisit => ?_)
  obtain ⟨hroot, hfiles⟩ := visit_proper ht hdir hvisit
  exact sources_of_visit hroot hfiles

theorem proper_of_mem_sources (hs : s ∈ sources tree dir) : s.Proper := by
  obtain ⟨visit, hvisit, hs⟩ := mem_flatMap.1 hs
  obtain ⟨name, hname, hs⟩ := mem_filterMap.1 hs
  obtain ⟨hroot, hfiles⟩ := visit_proper ht hdir hvisit
  exact (Source.ofName?_eq_some hroot (hfiles name hname) hs).2

end

/-! ## The data of a project -/

theorem mapM_entries_eq_ok {found : List Source} {ess : List (List (Json × Bool))}
    (hrun : (found.mapM (entries dir)).on h = (.ok ess, k)) :
    h.Told k ∧ List.Forall₂ (EntryOf h.tree dir) found ess.flatten := by
  induction found generalizing h ess with
  | nil =>
    rw [mapM_nil, on_pure, Prod.mk.injEq, Except.ok.injEq] at hrun
    obtain ⟨rfl, rfl⟩ := hrun
    exact ⟨.refl h, .nil⟩
  | cons s found ih =>
    rw [mapM_cons] at hrun
    obtain ⟨es, m, hes, hrun⟩ := bind_eq_ok hrun
    obtain ⟨rest, n, hrest, hrun⟩ := bind_eq_ok hrun
    obtain ⟨rfl, rfl⟩ := pure_eq_ok hrun
    have htold : h.Told m := .of_keeps hes
    obtain ⟨e, rfl, he⟩ := entries_eq_ok hes
    obtain ⟨hmore, hall⟩ := ih hrest
    refine ⟨htold.trans hmore, .cons he ?_⟩
    rw [← htold.tree]
    exact hall

def isReported (entry : Json) : Bool :=
  (entry.field? "analysis_result").isSome

/-- The data of a project lists its source files one by one in the order of the walk, and counts
them. An entry carries a report, or it failed; a report without an error is on the language of the
entry. -/
structure Surveyed (tree : FileTree) (dir : String) (entries : List Json) (project : Json) :
    Prop where
  files : project.field? "files" = some (.arr entries)
  paths : entries.map (field? "file_path") = (sourcePaths tree dir).map (some ∘ str)
  names : entries.map (field? "file_name") =
    (sourcePaths tree dir).map fun p => some (.str (base p))
  endings : entries.map (field? "file_type") =
    (sourcePaths tree dir).map fun p => some (.str (Text.lower (extension p)))
  total : project.field? "total_files" = some (.nat entries.length)
  processed : project.field? "processed_files" = some (.nat (entries.filter isReported).length)
  failed : ∀ e ∈ entries, isReported e = false ↔ e.field? "status" = some (.str "failed")
  language : ∀ e ∈ entries, ∀ report, e.field? "analysis_result" = some report →
    report.field? "error" = none →
      (e.field? "language").isSome ∧
        e.field? "language" = (report.field? "metadata").bind (field? "language")

namespace EntryOf

variable {tree : FileTree} {dir : String} {s : Source} {e : Json × Bool}

variable (he : EntryOf tree dir s e)
include he

theorem file_path : e.1.field? "file_path" = some (.str s.path) := by
  cases he <;> rfl

theorem file_name : e.1.field? "file_name" = some (.str s.name) := by
  cases he <;> rfl

theorem file_type : e.1.field? "file_type" = some (.str s.ending) := by
  cases he <;> rfl

theorem isReported : isReported e.1 = e.2 := by
  cases he <;> rfl

theorem status :
    Project.isReported e.1 = false ↔ e.1.field? "status" = some (.str "failed") := by
  cases he with
  | done => constructor <;> intro hno <;> cases hno
  | failed => exact ⟨fun _ => rfl, fun _ => rfl⟩

theorem language (hs : s.Proper) {report : Json}
    (hreport : e.1.field? "analysis_result" = some report) (hno : report.field? "error" = none) :
    e.1.field? "language" = some (.str s.language.label) ∧
      (report.field? "metadata").bind (field? "language") =
        some (.str s.language.label) := by
  cases he with
  | @done given hgiven =>
    obtain rfl : given = report := Option.some.inj hreport
    refine ⟨rfl, ?_⟩
    rw [hs.language]
    exact Report.language_of_report hgiven hno
  | failed => cases hreport

end EntryOf

theorem survey_eq_ok (hrun : (survey dir).on h = (.ok project, k)) :
    ∃ ess, ((sources h.tree dir).mapM (entries dir)).on h = (.ok ess, k) ∧
      project = data dir (sources h.tree dir).length ess.flatten := by
  rw [survey, on_bind_ok (on_tree h)] at hrun
  obtain ⟨ess, m, hess, hrun⟩ := bind_eq_ok hrun
  obtain ⟨rfl, rfl⟩ := pure_eq_ok hrun
  exact ⟨ess, hess, rfl⟩

theorem surveyed {place : List String} (ht : h.tree.Orderly)
    (hdir : h.tree.directoryAt dir = .ok place) (hrun : (survey dir).on h = (.ok project, k)) :
    ∃ entries, Surveyed h.tree dir entries project := by
  obtain ⟨ess, hess, rfl⟩ := survey_eq_ok hrun
  obtain ⟨-, hentries⟩ := mapM_entries_eq_ok hess
  have hall : List.Forall₂ (fun s e => s.Proper ∧ EntryOf h.tree dir s e)
      (sources h.tree dir) ess.flatten :=
    (forall₂_and_left _ _).2 ⟨fun s hs => proper_of_mem_sources ht hdir hs, hentries⟩
  have hentry : ∀ e ∈ ess.flatten.map (·.1), ∃ s flag, Source.Proper s ∧
      EntryOf h.tree dir s (e, flag) := by
    intro e he
    obtain ⟨⟨v, flag⟩, hmem, rfl⟩ := mem_map.1 he
    obtain ⟨s, -, hs⟩ := exists_of_mem_right hall hmem
    exact ⟨s, flag, hs⟩
  refine ⟨ess.flatten.map (·.1), rfl, ?_, ?_, ?_, ?_, ?_, ?_, ?_⟩
  · rw [map_map, ← sources_paths ht hdir, map_map]
    exact map_of_forall₂ hall fun s e he => he.2.file_path
  · rw [map_map, ← sources_paths ht hdir, map_map]
    refine map_of_forall₂ hall fun s e he => ?_
    exact he.2.file_name.trans (congrArg (some ∘ str) he.1.name)
  · rw [map_map, ← sources_paths ht hdir, map_map]
    refine map_of_forall₂ hall fun s e he => ?_
    exact he.2.file_type.trans (congrArg (some ∘ str) he.1.ending)
  · rw [length_map, ← hall.length_eq]
    rfl
  · have hflags : ∀ e ∈ ess.flatten, e.2 = (isReported ∘ Prod.fst) e := by
      intro e he
      obtain ⟨s, -, hs⟩ := exists_of_mem_right hall he
      exact hs.2.isReported.symm
    rw [filter_map, length_map, ← filter_congr hflags]
    rfl
  · intro e he
    obtain ⟨s, flag, -, hs⟩ := hentry e he
    exact hs.status
  · intro e he report hreport hno
    obtain ⟨s, flag, hproper, hs⟩ := hentry e he
    obtain ⟨hlabel, hmeta⟩ := hs.language hproper hreport hno
    rw [hlabel, hmeta]
    exact ⟨rfl, rfl⟩

end Project

/-! ## The summary of a project -/

namespace Summary

variable {entries : List Json}

def isOfEnding (ending : String) (entry : Json) : Bool :=
  (entry.field? "file_type").bind asText? == some ending

/-- The summary of a project counts its files and has a module for each ending, which counts and
lists the summaries of its files in their order. -/
structure Extracted (entries : List Json) (summary : Json) : Prop where
  total : summary.field? "total_files" = some (.nat entries.length)
  modules : ∃ modules : List (String × List Json),
    summary.field? "modules" = some (.obj (modules.map fun m =>
      (m.1, .obj [("file_count", .nat m.2.length), ("files", .arr m.2)]))) ∧
    (modules.map (·.1)).Nodup ∧
    (∀ e ∈ entries, ∃ m ∈ modules, isOfEnding m.1 e = true) ∧
    (∀ m ∈ modules, (entries.filter (isOfEnding m.1)).mapM fileSummary = .ok m.2) ∧
    (modules.map (·.2.length)).sum = entries.length
  names : ∀ e ∈ entries, ∀ s, fileSummary e = .ok s → s.field? "file_name" = e.field? "file_name"

theorem reach_of_field? {v x : Json} {key : String} (default : Json)
    (h : v.field? key = some x) : reach default [key] v = x := by
  cases v with
  | obj fields =>
    rw [reach, item_obj h]
    rfl
  | _ => cases h

theorem fileSummary_file_name {e s name : Json} (he : e.field? "file_name" = some name)
    (hs : fileSummary e = .ok s) : s.field? "file_name" = some name := by
  obtain ⟨named, -, hs⟩ := except_bind_eq_ok.1 hs
  obtain ⟨found, -, hs⟩ := except_bind_eq_ok.1 hs
  obtain ⟨classes, -, hs⟩ := except_bind_eq_ok.1 hs
  obtain ⟨functions, -, hs⟩ := except_bind_eq_ok.1 hs
  rw [except_pure_eq_ok] at hs
  rw [← hs, ← reach_of_field? (.str "unknown") he]
  rfl

def Summed (e : Json) (f : String × Json) : Prop :=
  e.field? "file_type" = some (.str f.1) ∧ fileSummary e = .ok f.2

theorem foldlM_eq_ok {start modules : List Module}
    (hendings : ∀ e ∈ entries, ∃ ending, e.field? "file_type" = some (.str ending))
    (h : entries.foldlM (fun modules file => do
      let kind ← (reach (.str "unknown") ["file_type"] file).asKey
      return addFile kind (← fileSummary file) modules) start = .ok modules) :
    ∃ files, List.Forall₂ Summed entries files ∧
      modules = files.foldl (fun modules f => addFile (.str f.1) f.2 modules) start := by
  induction entries generalizing start with
  | nil =>
    rw [foldlM_nil, except_pure_eq_ok] at h
    exact ⟨[], .nil, h.symm⟩
  | cons e entries ih =>
    obtain ⟨ending, hending⟩ := hendings e mem_cons_self
    rw [foldlM_cons, reach_of_field? _ hending] at h
    obtain ⟨next, hnext, h⟩ := except_bind_eq_ok.1 h
    obtain ⟨kind, hkind, hnext⟩ := except_bind_eq_ok.1 hnext
    obtain rfl : str ending = kind := Except.ok.inj hkind
    obtain ⟨summary, hsummary, hnext⟩ := except_bind_eq_ok.1 hnext
    rw [except_pure_eq_ok] at hnext
    subst hnext
    obtain ⟨files, hfiles, hmodules⟩ := ih (fun x hx => hendings x (mem_cons_of_mem e hx)) h
    exact ⟨(ending, summary) :: files, .cons ⟨hending, hsummary⟩ hfiles, hmodules⟩

theorem mapM_filter_of_summed {files : List (String × Json)}
    (h : List.Forall₂ Summed entries files) (ending : String) :
    (entries.filter (isOfEnding ending)).mapM fileSummary =
      .ok ((files.filter (·.1 = ending)).map (·.2)) := by
  induction h with
  | nil => rfl
  | @cons e f entries files hef _ ih =>
    have hof : isOfEnding ending e = decide (f.1 = ending) := by
      rw [isOfEnding, hef.1]
      by_cases hf : f.1 = ending <;> simp [asText?, hf]
    rw [filter_cons, filter_cons, hof]
    by_cases hf : f.1 = ending
    · rw [if_pos (decide_eq_true hf), if_pos (decide_eq_true hf), mapM_cons, hef.2, ok_bind, ih]
      rfl
    · rw [if_neg (by simpa using hf), if_neg (by simpa using hf), ih]

theorem extracted {summary : Json} (hfiles : project.field? "files" = some (.arr entries))
    (htotal : project.field? "total_files" = some (.nat entries.length))
    (hendings : ∀ e ∈ entries, ∃ ending, e.field? "file_type" = some (.str ending))
    (hnames : ∀ e ∈ entries, ∃ name, e.field? "file_name" = some name)
    (h : ofProject project = .ok summary) : Extracted entries summary := by
  rw [ofProject, reach_of_field? _ hfiles, elements, ok_bind] at h
  obtain ⟨modules, hmodules, h⟩ := except_bind_eq_ok.1 h
  rw [except_pure_eq_ok] at h
  obtain ⟨files, hall, rfl⟩ := foldlM_eq_ok hendings hmodules
  obtain ⟨endings, hnodup, hmem, hfold⟩ := modules_eq files
  rw [hfold] at h
  subst h
  have hlength := hall.length_eq
  refine ⟨?_, ⟨endings.map fun e => (e, (moduleOf files e).files), ?_, ?_, ?_, ?_, ?_⟩, ?_⟩
  · exact congrArg some (reach_of_field? _ htotal)
  · refine congrArg (fun fields => some (obj fields)) ?_
    rw [map_map, map_map]
    rfl
  · rw [map_map]
    exact (map_id endings).symm ▸ hnodup
  · intro e he
    obtain ⟨f, hf, hef⟩ := exists_of_mem_left hall he
    refine ⟨_, mem_map_of_mem ((hmem f.1).2 (mem_map_of_mem hf)), ?_⟩
    rw [isOfEnding, hef.1]
    exact beq_self_eq_true _
  · intro m hm
    obtain ⟨e, he, rfl⟩ := mem_map.1 hm
    exact mapM_filter_of_summed hall e
  · rw [map_map, hlength]
    exact sum_modules hnodup hmem
  · intro e he s hs
    obtain ⟨name, hname⟩ := hnames e he
    rw [hname]
    exact fileSummary_file_name hname hs

end Summary

/-! ## Analysing a project -/

namespace Project

variable {h k : Host}

variable {dir : String}

theorem locate_eq_ok {path : Json} (hl : (locate path).on h = (.ok dir, k)) :
    k = h ∧ ∃ place, h.tree.directoryAt dir = .ok place := by
  rw [locate, on_lift_bind] at hl
  cases hpath : path.asPath with
  | error fault =>
    rw [hpath, next_error] at hl
    cases hl
  | ok p =>
    rw [hpath, next_ok, on_bind_ok (on_tree h)] at hl
    generalize (if isAbsolute p then p else absolute h.tree.cwd p) = found at hl
    dsimp only at hl
    rw [on_ite] at hl
    split at hl
    · next hdir =>
      obtain ⟨rfl, rfl⟩ := pure_eq_ok hl
      exact ⟨rfl, directoryAt_of_isDirectory hdir⟩
    · obtain ⟨_, _, -, hl⟩ := bind_eq_ok hl
      rw [on_throw] at hl
      cases hl

theorem file_eq_ok {summary : Json} (hf : (file dir project).on h = (.ok summary, k)) :
    Summary.ofProject project = .ok summary := by
  rw [file] at hf
  obtain ⟨_, _, -, hf⟩ := bind_eq_ok hf
  obtain ⟨_, m, -, hf⟩ := bind_eq_ok hf
  obtain ⟨given, _, hgiven, hf⟩ := bind_eq_ok hf
  obtain ⟨_, _, -, hf⟩ := bind_eq_ok hf
  obtain ⟨_, _, -, hf⟩ := bind_eq_ok hf
  rw [on_lift, Prod.mk.injEq] at hgiven
  replace hf := pure_eq_ok hf
  rw [hgiven.1, hf.1]

theorem Surveyed.extracted {tree : FileTree} {entries : List Json} {summary : Json}
    (hs : Surveyed tree dir entries project) (h : Summary.ofProject project = .ok summary) :
    Summary.Extracted entries summary := by
  refine Summary.extracted hs.files hs.total (fun e he => ?_) (fun e he => ?_) h
  · obtain ⟨p, hp⟩ := exists_of_map_eq hs.endings he
    exact ⟨_, hp⟩
  · obtain ⟨p, hp⟩ := exists_of_map_eq hs.names he
    exact ⟨_, hp⟩

end Project
end Outline
end RepoWiki
