import RepoWiki.Proofs.Json.Reading
import RepoWiki.Proofs.Outline.Survey
/-
The summary of a project can always be made, stored and read back.

What it takes from the reports are texts and counts. The texts are those of a record, in which all
but line numbers are texts (`Worded`), and the counts are those of its lists, of which none is
longer than the file has lines (`Within`). `Readable` says what of a report matters to a summary;
every report has it (`readable_of_record`), so that the summary of a file is a value that can be
read back (`fileSummary_eq_ok`), and then that of the project is one as well
(`ofProject_eq_ok`).
-/

namespace RepoWiki

open Fields Json List Outline.Report Outline.Summary Run Text

variable {key : String} {v : Json} {limit n : Nat}

theorem mem_of_get? {fields : Fields} (h : get? key fields = some v) : (key, v) ∈ fields := by
  induction fields with
  | nil => cases h
  | cons f fields ih =>
    obtain ⟨k, u⟩ := f
    rw [get?] at h
    split at h
    · next hk =>
      obtain rfl := Option.some.inj h
      rw [hk]
      exact mem_cons_self
    · exact mem_cons_of_mem _ (ih h)

namespace Outline

variable {e : Entries}

/-! ## Lists are no longer than the file -/

/-- Neither the imports nor the methods of a class are more than so many. -/
def Entries.Within (n : Nat) (e : Entries) : Prop :=
  e.imports.length ≤ n ∧ ∀ c ∈ e.classes, c.methods.length ≤ n

theorem Entries.Within.mono {m : Nat} (h : e.Within n) (hnm : n ≤ m) : e.Within m :=
  ⟨h.1.trans hnm, fun c hc => (h.2 c hc).trans hnm⟩

theorem Entries.within_ofLines (l : Language) (lines : List String) :
    (Entries.ofLines l lines).Within lines.length := by
  refine Entries.ofLines_induct l (P := fun lines e => e.Within lines.length)
    ⟨Nat.le_refl 0, forall_mem_nil _⟩ ?_ lines
  intro done line e e' h hadded
  have hmore := h.mono (Nat.le_succ done.length)
  rw [length_append, length_singleton]
  cases hadded with
  | nothing | function => exact hmore
  | imported => exact ⟨by simpa using h.1, hmore.2⟩
  | begun _ _ hc =>
    refine ⟨hmore.1, forall_mem_append.2 ⟨hmore.2, forall_mem_singleton.2 ?_⟩⟩
    rw [(line_of_classEntry hc).2]
    exact Nat.zero_le _
  | method _ _ _ hclasses =>
    have hold := hmore.2
    rw [hclasses, forall_mem_append] at hold
    refine ⟨hmore.1, forall_mem_append.2 ⟨hold.1, forall_mem_singleton.2 ?_⟩⟩
    simpa using h.2 _ (hclasses ▸ mem_append_right _ mem_cons_self)

theorem Go.File.imports_ofLines (lines : List String) :
    (Go.File.ofLines lines).imports.length ≤ lines.length := by
  refine Go.File.ofLines_induct (P := fun lines f => f.imports.length ≤ lines.length)
    (Nat.le_refl 0) ?_ lines
  intro done line f f' h hadded
  rw [length_append, length_singleton]
  cases hadded with
  | imported => simpa [Go.File.addImport] using h
  | nothing | packaged | function | method => exact Nat.le_succ_of_le h

/-! ## Texts in reports -/

def IsText (v : Json) : Prop :=
  ∃ s, v = .str s

def Worded (v : Json) : Prop :=
  ∃ fields : Fields, v = .obj fields ∧ ∀ f ∈ fields, f.1 ≠ "line_number" → IsText f.2

theorem Worded.item {x : Json} (h : Worded v) (hkey : key ≠ "line_number")
    (hx : v.item key = .ok x) : IsText x := by
  obtain ⟨fields, rfl, htexts⟩ := h
  rw [item] at hx
  split at hx
  · next found hfound =>
    obtain rfl := Except.ok.inj hx
    exact htexts _ (mem_of_get? hfound) hkey
  · cases hx

theorem Worded.reach (h : Worded v) (hkey : key ≠ "line_number") (default : String) :
    IsText (Summary.reach (.str default) [key] v) := by
  rw [Summary.reach]
  split
  · next x hx => exact h.item hkey hx
  · exact ⟨default, rfl⟩

theorem Worded.append {fields more : Fields} (h : Worded (.obj fields))
    (hmore : ∀ f ∈ more, IsText f.2) : Worded (.obj (fields ++ more)) := by
  obtain ⟨others, hothers, htexts⟩ := h
  cases hothers
  refine ⟨_, rfl, fun f hf hline => ?_⟩
  rcases mem_append.1 hf with hf | hf
  · exact htexts f hf hline
  · exact hmore f hf

namespace Report

variable {f : Callable} {j : Json}

theorem texts_fieldIfSet (label : String) (hv : v = .null ∨ IsText v) :
    ∀ f ∈ fieldIfSet label v, IsText f.2 := by
  intro f hf
  rw [fieldIfSet] at hf
  split at hf
  · next hset =>
    rw [mem_singleton.1 hf]
    rcases hv with rfl | hv
    · cases hset
    · exact hv
  · cases hf

theorem ofText?_cases (s : Option String) : ofText? s = .null ∨ IsText (ofText? s) := by
  cases s with
  | none => exact .inl rfl
  | some s => exact .inr ⟨s, rfl⟩

theorem worded_described (kind name parameters signature : String) (line : Json) :
    Worded (.obj [("name", .str name), ("type", .str kind), ("parameters", .str parameters),
      ("line_number", line), ("signature", .str signature)]) := by
  refine ⟨_, rfl, fun f hf hline => ?_⟩
  simp only [mem_cons, not_mem_nil, or_false] at hf
  rcases hf with rfl | rfl | rfl | rfl | rfl
  · exact ⟨_, rfl⟩
  · exact ⟨_, rfl⟩
  · exact ⟨_, rfl⟩
  · exact absurd rfl hline
  · exact ⟨_, rfl⟩

theorem callableInfo_callable (kind : String) (f : Callable) :
    ∃ signature, callableInfo kind f.toJson = .ok ([("name", .str f.name), ("type", .str kind),
      ("parameters", .str f.parameters), ("line_number", .int f.line),
      ("signature", .str signature)] ++ fieldIfSet "return_type" (ofText? f.returnType) ++
        fieldIfSet "modifiers" (ofText? f.modifiers) ++ fieldIfSet "receiver" .null) := by
  obtain ⟨name, parameters, result, modifiers, line, isMethod⟩ := f
  cases modifiers <;> exact ⟨_, rfl⟩

theorem worded_callableInfo {kind : String} {fields : Fields}
    (h : callableInfo kind f.toJson = .ok fields) : Worded (.obj fields) := by
  obtain ⟨signature, hinfo⟩ := callableInfo_callable kind f
  obtain rfl := Except.ok.inj (hinfo.symm.trans h)
  apply Worded.append _ (texts_fieldIfSet _ (.inl rfl))
  apply Worded.append _ (texts_fieldIfSet _ (ofText?_cases _))
  exact (worded_described ..).append (texts_fieldIfSet _ (ofText?_cases _))

theorem worded_methodInfo (h : methodInfo f.toJson = .ok j) :
    Worded j := by
  obtain ⟨fields, hfields, h⟩ := except_bind_eq_ok.1 h
  obtain rfl := Except.ok.inj h
  exact worded_callableInfo hfields

theorem worded_functionInfo (h : functionInfo f.toJson = .ok j) :
    Worded j := by
  have hkind : f.toJson.get "type" = .ok .null := by
    obtain ⟨name, parameters, result, modifiers, line, isMethod⟩ := f
    cases modifiers <;> rfl
  obtain ⟨fields, hfields, h⟩ := except_bind_eq_ok.1 h
  rw [hkind, ok_bind, except_pure_eq_ok] at h
  rw [← h]
  exact (worded_callableInfo hfields).append (texts_fieldIfSet _ (.inl rfl))

theorem worded_goFunctionInfo {f : Go.Function} (h : goFunctionInfo f.toJson = .ok j) :
    Worded j := by
  have hinfo : ∃ signature, goFunctionInfo f.toJson = .ok (.obj ([("name", .str f.name),
      ("type", .str "function"), ("parameters", .str f.parameters), ("line_number", .int f.line),
      ("signature", .str signature)] ++ fieldIfSet "return_type" (.str f.returnTypes))) := by
    obtain ⟨name, receiver, parameters, results, line⟩ := f
    cases receiver <;> exact ⟨_, rfl⟩
  obtain ⟨signature, hinfo⟩ := hinfo
  obtain rfl := Except.ok.inj (hinfo.symm.trans h)
  exact (worded_described ..).append (texts_fieldIfSet _ (.inr ⟨_, rfl⟩))

/-! ## What a summary takes from a report -/

def OnImport (v : Json) : Prop :=
  ∃ kind line path, v = .obj (importFields kind line path)

theorem onImport_importInfo {i : Import} (h : importInfo i.toJson = .ok j) : OnImport j := by
  obtain ⟨line, -, hinfo⟩ := importInfo_toJson i
  exact ⟨_, line, _, Except.ok.inj (h.symm.trans hinfo)⟩

/-- A class with a name and fewer than so many methods. -/
structure Titled (limit : Nat) (c : Json) : Prop where
  name : IsText (reach (.str "unknown") ["name"] c)
  methods : ∃ ms, reach (.arr []) ["methods"] c = .arr ms ∧ (∀ m ∈ ms, Worded m) ∧
    ms.length < limit

theorem titled_classInfo {c : ClassEntry} (hc : c.methods.length < limit)
    {info : Json × List Json} (h : classInfo c.toJson = .ok info) : Titled limit info.1 := by
  have hinfo : classInfo c.toJson = do
      let ms ← (c.methods.map Callable.toJson).mapM methodInfo
      return (.obj ([("name", .str c.name), ("line_number", .int c.line), ("methods", .arr ms)] ++
        fieldIfSet "inheritance" (ofText? c.inheritance)), ms) := rfl
  rw [hinfo] at h
  obtain ⟨ms, hms, h⟩ := except_bind_eq_ok.1 h
  obtain rfl := Except.ok.inj h
  refine ⟨⟨c.name, rfl⟩, ms, rfl, fun m hm => ?_, ?_⟩
  · obtain ⟨x, hx, hinfo⟩ := mem_of_mapM_eq_ok hms hm
    obtain ⟨f, -, rfl⟩ := mem_map.1 hx
    exact worded_methodInfo hinfo
  · rwa [← (forall₂_of_mapM_eq_ok hms).length_eq, length_map]

/-- A report with lists as a summary needs them: the language and all names are texts, and the
lists that are counted have fewer than so many items. -/
structure Readable (limit : Nat) (report : Json) : Prop where
  language : IsText (reach (.str "unknown") ["metadata", "language"] report)
  imports : ∃ is, reach (.arr []) ["imports"]
    (reach (.obj []) ["parsed_data"] report) = .arr is ∧ ∀ i ∈ is, OnImport i
  classes : ∃ cs, reach (.arr []) ["classes"]
    (reach (.obj []) ["parsed_data"] report) = .arr cs ∧ ∀ c ∈ cs, Titled limit c
  functions : ∃ fs, reach (.arr []) ["functions"]
    (reach (.obj []) ["parsed_data"] report) = .arr fs ∧ ∀ f ∈ fs, Worded f
  count : ∃ n < limit, reach (.int 0) ["statistics", "total_imports"] report = .nat n

theorem reach_obj (default : Json) (key : String) (fields : Fields) :
    reach default [key] (.obj fields) = (get? key fields).getD default := by
  rw [reach, item]
  cases get? key fields <;> rfl

theorem reach_metadata {record : Fields} {report : Json} (h : ofRecord (.obj record) = .ok report) :
    reach (.str "unknown") ["metadata", "language"] report =
      (get? "language" record).getD (.str "") := by
  have hfield := metadata_of_ofRecord h
  cases report with
  | obj fields =>
    rw [reach, item_obj hfield]
    rfl
  | _ => cases hfield

theorem readable_dataOf {record : Fields} {package : Json} {imports functions methods : List Json}
    {classes : Option (List Json)} (herror : get? "error" record = none)
    (hparsed : parsedData (.obj record) =
      .ok (dataOf package imports functions methods classes, n))
    (hlanguage : IsText ((get? "language" record).getD (.str "")))
    (himports : ∀ i ∈ imports, OnImport i) (hcount : imports.length < limit)
    (hclasses : ∀ c ∈ classes.getD [], Titled limit c) (hfunctions : ∀ f ∈ functions, Worded f) :
    ∃ report, ofRecord (.obj record) = .ok report ∧ Readable limit report := by
  obtain ⟨metadata, hreport⟩ := ofRecord_of_parsedData herror hparsed
  have hparts : ∀ key, reach (.arr []) [key] (.obj (dataOf package imports functions methods
      classes)) = (get? key (dataOf package imports functions methods classes)).getD
        (.arr []) := fun key => reach_obj _ key _
  refine ⟨_, hreport, ?_, ⟨imports, ?_, himports⟩, ⟨classes.getD [], ?_, hclasses⟩,
    ⟨functions, ?_, hfunctions⟩, imports.length, hcount, ?_⟩
  · rw [reach_metadata hreport]
    exact hlanguage
  · exact (hparts _).trans (get?_dataOf_imports package imports functions methods classes)
  · refine (hparts _).trans ?_
    rw [get?_dataOf (by decide) (by decide)]
    cases classes <;> rfl
  · refine (hparts _).trans ?_
    rw [get?_dataOf (by decide) (by decide)]
    rfl
  · exact (lists_dataOf package imports functions methods classes).2.1

theorem forall_of_mapM {α : Type} {toJson : α → Json} {β : Type} {f : Json → Result β} {xs : List α}
    {ys : List β} {P : β → Prop} (h : (xs.map toJson).mapM f = .ok ys)
    (hP : ∀ x ∈ xs, ∀ y, f (toJson x) = .ok y → P y) : ∀ y ∈ ys, P y := by
  intro y hy
  obtain ⟨v, hv, hfv⟩ := mem_of_mapM_eq_ok h hy
  obtain ⟨x, hx, rfl⟩ := mem_map.1 hv
  exact hP x hx y hfv

theorem length_of_mapM {α : Type} {toJson : α → Json} {β : Type} {f : Json → Result β}
    {xs : List α} {ys : List β} (h : (xs.map toJson).mapM f = .ok ys) : ys.length = xs.length := by
  rw [← (forall₂_of_mapM_eq_ok h).length_eq, length_map]

theorem readable_entries (name : String) {l : Language} (hl : l ≠ .go) (he : e.Within n) :
    ∃ report, ofRecord (e.toJson name l) = .ok report ∧ Readable (n + 1) report := by
  obtain ⟨imports, himports, -⟩ := imports_eq_ok e.imports
  obtain ⟨functions, hfunctions, -⟩ := functions_eq_ok e.functions
  obtain ⟨classes, hclasses, -⟩ := classes_eq_ok e.classes
  refine readable_dataOf rfl (parsedData_entries name hl himports hfunctions hclasses)
    ⟨l.label, rfl⟩ ?_ ?_ ?_ ?_
  · exact forall_of_mapM himports fun i _ j hj => onImport_importInfo hj
  · rw [length_of_mapM himports]
    exact Nat.lt_succ_of_le he.1
  · intro c hc
    obtain ⟨info, hinfo, rfl⟩ := mem_map.1 hc
    exact forall_of_mapM (P := fun info => Titled (n + 1) info.1) hclasses
      (fun d hd j hj => titled_classInfo (Nat.lt_succ_of_le (he.2 d hd)) hj) info hinfo
  · exact forall_of_mapM hfunctions fun f _ j hj => worded_functionInfo hj

theorem readable_goFile (name : String) {f : Go.File} (h : ∀ m ∈ f.methods, m.receiver.isSome)
    (hn : f.imports.length ≤ n) :
    ∃ report, ofRecord (f.toJson name) = .ok report ∧ Readable (n + 1) report := by
  obtain ⟨imports, himports, -⟩ := imports_eq_ok f.imports
  obtain ⟨functions, hfunctions, -⟩ := goFunctions_eq_ok f.functions
  obtain ⟨methods, hmethods, -⟩ := goMethods_eq_ok h
  refine readable_dataOf rfl (parsedData_goFile name himports hfunctions hmethods)
    ⟨Language.go.label, rfl⟩ ?_ ?_ ?_ ?_
  · exact forall_of_mapM himports fun i _ j hj => onImport_importInfo hj
  · rw [length_of_mapM himports]
    exact Nat.lt_succ_of_le hn
  · intro c hc
    cases hc
  · exact forall_of_mapM hfunctions fun g _ j hj => worded_goFunctionInfo hj

end Report

theorem readable_ofLines (path : String) (lines : List String) :
    ∃ report, ofRecord (ofLines path lines) = .ok report ∧
      Readable (lines.length + 1) report := by
  unfold ofLines
  split
  · exact readable_goFile _ (Go.File.received_ofLines lines) (Go.File.imports_ofLines lines)
  · next hgo => exact readable_entries _ hgo (Entries.within_ofLines _ lines)

theorem readable_ofFault (path message : String) :
    ∃ report, ofRecord (ofFault path message) = .ok report ∧ Readable 1 report := by
  unfold ofFault
  split
  all_goals
    refine ⟨_, rfl, ⟨"", rfl⟩, ⟨[], rfl, fun _ h => by cases h⟩, ⟨[], rfl, fun _ h => by cases h⟩,
      ⟨[], rfl, fun _ h => by cases h⟩, 0, Nat.one_pos, rfl⟩

/-! ## Summaries of files -/

theorem Report.Titled.mono {more : Nat} {c : Json} (h : Titled limit c)
    (hle : limit ≤ more) : Titled more c := by
  obtain ⟨ms, hms, hworded, hlength⟩ := h.methods
  exact ⟨h.name, ms, hms, hworded, Nat.lt_of_lt_of_le hlength hle⟩

theorem Report.Readable.mono {more : Nat} {report : Json} (h : Readable limit report)
    (hle : limit ≤ more) : Readable more report := by
  obtain ⟨cs, hcs, htitled⟩ := h.classes
  obtain ⟨n, hn, hcount⟩ := h.count
  exact ⟨h.language, h.imports, ⟨cs, hcs, fun c hc => (htitled c hc).mono hle⟩, h.functions, n,
    Nat.lt_of_lt_of_le hn hle, hcount⟩

namespace Summary

variable {room : Nat}

theorem legible_of_isText (h : IsText v) : Legible room v := by
  obtain ⟨s, rfl⟩ := h
  exact .str s

theorem legible_nat (h : n < 10 ^ digitLimit) : Legible room (.nat n) :=
  .int (by rwa [Int.natAbs_natCast])

theorem same_str {t : String} {v : Json} : same (.str t) v = true ↔ v = .str t := by
  cases v with
  | str s =>
    rw [same, beq_iff_eq, str.injEq]
    exact eq_comm
  | _ => simp [same, sameNumber, asInt?]

theorem addMember_str (members : List Json) (t : String) :
    ∃ more, addMember members (.str t) = .ok more ∧ ∀ v, v ∈ more ↔ v ∈ members ∨ v = .str t := by
  refine ⟨_, rfl, fun v => ?_⟩
  split
  · next hany =>
    obtain ⟨w, hw, hsame⟩ := any_eq_true.1 hany
    refine ⟨.inl, ?_⟩
    rintro (hv | rfl)
    · exact hv
    · rwa [← same_str.1 hsame]
  · rw [mem_append, mem_singleton]

theorem field?_importFields (kind line : Json) (path : Option String) :
    (obj (importFields kind line path)).field? "import_path" = path.map str := by
  cases path <;> rfl

theorem step_importFields (kind line : Json) (path : Option String) (members : List Json) :
    ∃ more, (do
        let i := obj (importFields kind line path)
        if ← i.holds "import_path" then addMember members (← i.item "import_path")
        else if ← i.holds "path" then addMember members (← i.item "path")
        else return members) = (.ok more : Result (List Json)) ∧
      ∀ v, v ∈ more ↔ v ∈ members ∨ path.map str = some v := by
  cases path with
  | none => exact ⟨members, rfl, by simp⟩
  | some t =>
    obtain ⟨more, hmore, hmem⟩ := addMember_str members t
    exact ⟨more, hmore, by simpa [eq_comm] using hmem⟩

theorem dependencies_eq_ok {is : List Json} (h : ∀ i ∈ is, OnImport i) :
    ∃ named, dependencies (.arr is) = .ok named ∧
      ∀ v, v ∈ named ↔ ∃ i ∈ is, i.field? "import_path" = some v := by
  have hfold : ∀ start : List Json, ∃ members, is.foldlM
      (fun members i => do
        if ← i.holds "import_path" then addMember members (← i.item "import_path")
        else if ← i.holds "path" then addMember members (← i.item "path")
        else return members) start = (.ok members : Result (List Json)) ∧
      ∀ v, v ∈ members ↔ v ∈ start ∨ ∃ i ∈ is, i.field? "import_path" = some v := by
    induction is with
    | nil => exact fun start => ⟨start, rfl, by simp⟩
    | cons i is ih =>
      intro start
      obtain ⟨⟨kind, line, path, rfl⟩, his⟩ := forall_mem_cons.1 h
      obtain ⟨next, hnext, hone⟩ := step_importFields kind line path start
      obtain ⟨members, hmembers, hrest⟩ := ih his next
      refine ⟨members, ?_, fun v => ?_⟩
      · rw [foldlM_cons, hnext, ok_bind, hmembers]
      · rw [hrest v, hone v, or_assoc, exists_mem_cons_iff, field?_importFields]
  obtain ⟨members, hmembers, hmem⟩ := hfold []
  refine ⟨members.mergeSort listedBefore, ?_, fun v => ?_⟩
  · rw [dependencies, elements, ok_bind, hmembers]
    rfl
  · rw [mem_mergeSort, hmem v]
    simp

theorem legible_arr_texts {vs : List Json} (h : ∀ v ∈ vs, IsText v) :
    Legible (room + 1) (.arr vs) :=
  .arr fun v hv => legible_of_isText (h v hv)

theorem classSummary_eq_ok {c : Json} (h : Titled (10 ^ digitLimit) c) (room : Nat) :
    ∃ s, classSummary c = .ok s ∧ Legible (room + 2) s := by
  obtain ⟨ms, hms, hworded, hlength⟩ := h.methods
  refine ⟨.obj [("name", reach (.str "unknown") ["name"] c),
    ("methods", .arr ((ms.take methodLimit).map (reach (.str "unknown") ["name"]))),
    ("method_count", .nat ms.length)], ?_, .obj (by simp) ?_⟩
  · rw [classSummary, hms]
    rfl
  · simp only [mem_cons, not_mem_nil, or_false, forall_eq_or_imp, forall_eq]
    refine ⟨legible_of_isText h.name, legible_arr_texts fun v hv => ?_, legible_nat hlength⟩
    obtain ⟨m, hm, rfl⟩ := mem_map.1 hv
    exact (hworded m (mem_of_mem_take hm)).reach (by decide) _

theorem legible_functionSummary {f : Json} (h : Worded f) (room : Nat) :
    Legible (room + 1) (functionSummary f) := by
  refine .obj (by simp) ?_
  simp only [mem_cons, not_mem_nil, or_false, forall_eq_or_imp, forall_eq]
  exact ⟨legible_of_isText (h.reach (by decide) _), legible_of_isText (h.reach (by decide) _),
    legible_of_isText (h.reach (by decide) _)⟩

theorem fileSummary_eq_ok {file : Json}
    (hname : IsText (reach (.str "unknown") ["file_name"] file))
    (h : Readable (10 ^ digitLimit) (reach (.obj []) ["analysis_result"] file))
    (room : Nat) : ∃ s, fileSummary file = .ok s ∧ Legible (room + 4) s := by
  obtain ⟨is, his, himports⟩ := h.imports
  obtain ⟨cs, hcs, hclasses⟩ := h.classes
  obtain ⟨fs, hfs, hfunctions⟩ := h.functions
  obtain ⟨n, hn, hcount⟩ := h.count
  obtain ⟨named, hnamed, hmem⟩ := dependencies_eq_ok himports
  have htexts : ∀ v ∈ named, IsText v := by
    intro v hv
    obtain ⟨i, hi, hfield⟩ := (hmem v).1 hv
    obtain ⟨kind, line, path, rfl⟩ := himports i hi
    rw [field?_importFields, Option.map_eq_some_iff] at hfield
    obtain ⟨t, -, rfl⟩ := hfield
    exact ⟨t, rfl⟩
  obtain ⟨classes, hsummed, hall⟩ := exists_mapM_eq_ok
    (R := fun _ s => Legible (room + 2) s) fun c hc => classSummary_eq_ok (hclasses c hc) room
  refine ⟨.obj [("file_name", reach (.str "unknown") ["file_name"] file),
    ("language", reach (.str "unknown") ["metadata", "language"]
      (reach (.obj []) ["analysis_result"] file)),
    ("key_classes", .arr classes), ("key_functions", .arr (fs.map functionSummary)),
    ("imports_count", .nat n), ("dependencies", .arr named)], ?_, .obj (by simp) ?_⟩
  · rw [fileSummary, his, hcs, hfs, hcount, hnamed, ok_bind, elements, ok_bind, hsummed,
      ok_bind, elements]
    rfl
  · simp only [mem_cons, not_mem_nil, or_false, forall_eq_or_imp, forall_eq]
    refine ⟨legible_of_isText hname, legible_of_isText h.language, .arr fun v hv => ?_,
      .arr fun v hv => ?_, legible_nat hn, legible_arr_texts htexts⟩
    · obtain ⟨c, -, hc⟩ := exists_of_mem_right hall hv
      exact hc
    · obtain ⟨f, hf, rfl⟩ := mem_map.1 hv
      exact legible_functionSummary (hfunctions f hf) (room + 1)

/-! ## Summaries of projects -/

def Listed (room : Nat) (e : Json) : Prop :=
  ∃ ending s, e.field? "file_type" = some (.str ending) ∧ fileSummary e = .ok s ∧ Legible room s

theorem foldlM_listed {entries : List Json} (h : ∀ e ∈ entries, Listed room e)
    (start : List Module) : ∃ modules, entries.foldlM (fun modules file => do
      let kind ← (reach (.str "unknown") ["file_type"] file).asKey
      return addFile kind (← fileSummary file) modules) start = (.ok modules : Result _) := by
  induction entries generalizing start with
  | nil => exact ⟨start, rfl⟩
  | cons e entries ih =>
    obtain ⟨ending, s, hending, hs, -⟩ := h e mem_cons_self
    obtain ⟨modules, hmodules⟩ := ih (fun x hx => h x (mem_cons_of_mem e hx))
      (addFile (.str ending) s start)
    refine ⟨modules, ?_⟩
    have hkey : (str ending).asKey = .ok (.str ending) := rfl
    rw [foldlM_cons, reach_of_field? _ hending, hkey, ok_bind, hs, ok_bind]
    exact hmodules

theorem legible_module {files : List (String × Json)} {ending : String}
    (hfiles : ∀ f ∈ files, Legible room f.2) (hlength : files.length < 10 ^ digitLimit) :
    Legible (room + 2) (moduleOf files ending).toField.2 := by
  have hcount : (moduleOf files ending).files.length ≤ files.length := by
    rw [moduleOf, length_map]
    exact length_filter_le _ _
  refine .obj (by simp) ?_
  simp only [mem_cons, not_mem_nil, or_false, forall_eq_or_imp, forall_eq]
  refine ⟨legible_nat (Nat.lt_of_le_of_lt hcount hlength), .arr fun v hv => ?_⟩
  obtain ⟨f, hf, rfl⟩ := mem_map.1 hv
  exact hfiles f (mem_of_mem_filter hf)

theorem ofProject_eq_ok {total : Nat} {dir : String} {entries : List (Json × Bool)}
    (hlisted : ∀ e ∈ entries, Listed room e.1) (htotal : total < 10 ^ digitLimit)
    (hlength : entries.length < 10 ^ digitLimit) :
    ∃ summary, ofProject (Project.data dir total entries) = .ok summary ∧
      Legible (room + 4) summary := by
  have hentries : ∀ e ∈ entries.map (·.1), Listed room e := by
    intro e he
    obtain ⟨x, hx, rfl⟩ := mem_map.1 he
    exact hlisted x hx
  obtain ⟨modules, hmodules⟩ := foldlM_listed hentries []
  obtain ⟨files, hall, hfold⟩ := foldlM_eq_ok (fun e he => by
    obtain ⟨ending, s, hending, -⟩ := hentries e he
    exact ⟨ending, hending⟩) hmodules
  obtain ⟨endings, hnodup, -, hmodulesOf⟩ := modules_eq files
  rw [hmodulesOf] at hfold
  subst hfold
  have hlegible : ∀ f ∈ files, Legible room f.2 := by
    intro f hf
    obtain ⟨e, he, hsummed⟩ := exists_of_mem_right hall hf
    obtain ⟨ending, s, -, hs, hlegible⟩ := hentries e he
    obtain rfl := Except.ok.inj (hs.symm.trans hsummed.2)
    exact hlegible
  have hfiles : files.length < 10 ^ digitLimit := by
    rwa [← hall.length_eq, length_map]
  refine ⟨.obj [("project_name", .str (Path.base dir)), ("total_files", .nat total),
    ("modules", .obj ((endings.map (moduleOf files)).map Module.toField))], ?_, .obj (by simp) ?_⟩
  · have hfound : reach (.arr []) ["files"] (Project.data dir total entries) =
        .arr (entries.map (·.1)) := rfl
    rw [ofProject, hfound, elements, ok_bind, hmodules]
    rfl
  · simp only [mem_cons, not_mem_nil, or_false, forall_eq_or_imp, forall_eq]
    refine ⟨.str _, legible_nat htotal, .obj ?_ fun f hf => ?_⟩
    · rw [map_map, map_map]
      exact (map_id endings).symm ▸ hnodup
    · obtain ⟨m, hm, rfl⟩ := mem_map.1 hf
      obtain ⟨ending, -, rfl⟩ := mem_map.1 hm
      exact legible_module hlegible hfiles

end Summary

/-! ## Analysing a project -/

namespace Project

/-- A project whose source files, and the lines of each, can be counted in digits that are read
back. -/
structure Modest (tree : FileTree) (dir : String) : Prop where
  files : (sources tree dir).length < 10 ^ Text.digitLimit
  lines : ∀ s ∈ sources tree dir, ∀ lines, tree.readLines s.path = .ok lines →
    lines.length < 10 ^ Text.digitLimit

theorem readable_recordOf {tree : FileTree} {path : String}
    (hlines : ∀ lines, tree.readLines path = .ok lines → lines.length < 10 ^ digitLimit) :
    ∃ report, ofRecord (recordOf tree (.str path)) = .ok report ∧
      Readable (10 ^ digitLimit) report := by
  rw [recordOf, asPath]
  dsimp only
  cases hread : tree.readLines path with
  | error fault =>
    obtain ⟨report, hreport, hreadable⟩ := readable_ofFault path fault.message
    exact ⟨report, hreport, hreadable.mono (Nat.one_le_pow _ _ (by decide))⟩
  | ok lines =>
    obtain ⟨report, hreport, hreadable⟩ := readable_ofLines path lines
    exact ⟨report, hreport, hreadable.mono (hlines lines hread)⟩

theorem EntryOf.listed {tree : FileTree} {dir : String} {s : Source} {e : Json × Bool}
    (he : EntryOf tree dir s e)
    (hlines : ∀ lines, tree.readLines s.path = .ok lines → lines.length < 10 ^ digitLimit) :
    Summary.Listed 4 e.1 := by
  have hname : IsText (reach (.str "unknown") ["file_name"] e.1) :=
    ⟨s.name, reach_of_field? _ he.file_name⟩
  have hreadable : Readable (10 ^ digitLimit)
      (reach (.obj []) ["analysis_result"] e.1) := by
    cases he with
    | done hreport =>
      obtain ⟨report, hok, hreadable⟩ := readable_recordOf hlines
      obtain rfl := Except.ok.inj (hok.symm.trans hreport)
      exact hreadable
    | failed message =>
      have hnone : Readable 1 (.obj []) :=
        ⟨⟨"unknown", rfl⟩, ⟨[], rfl, fun _ h => by cases h⟩, ⟨[], rfl, fun _ h => by cases h⟩,
          ⟨[], rfl, fun _ h => by cases h⟩, 0, Nat.one_pos, rfl⟩
      exact hnone.mono (Nat.one_le_pow _ _ (by decide))
  obtain ⟨v, hv, hlegible⟩ := fileSummary_eq_ok hname hreadable 0
  exact ⟨s.ending, v, he.file_type, hv, hlegible⟩

variable {h : Host}

variable (hconsole : h.console = .unicode)
include hconsole

theorem report_on (path : String) :
    ∃ r k, (report path).on h = (.ok r, k) := by
  have hrecord : ∃ r, ofRecord (recordOf h.tree (.str path)) = .ok r := by
    rw [recordOf, asPath]
    dsimp only
    cases h.tree.readLines path with
    | error fault =>
      obtain ⟨r, hr, -⟩ := readable_ofFault path fault.message
      exact ⟨r, hr⟩
    | ok lines =>
      obtain ⟨r, hr, -⟩ := readable_ofLines path lines
      exact ⟨r, hr⟩
  obtain ⟨r, hr⟩ := hrecord
  refine ⟨r, { h with printed := h.printed ++ text r ++ "\n" }, ?_⟩
  rw [report, on_bind_ok (on_tree h), hr, on_lift_bind, next_ok,
    on_bind_ok (on_print_unicode hconsole _), on_pure]

theorem entries_on (dir : String) (s : Source) :
    ∃ r k, (entries dir s).on h = (.ok [(s.done h.tree.cwd dir r, true)], k) := by
  have hattempt : ∃ r k, (attemptReport s).on h = (.ok (.ok r), k) := by
    obtain ⟨r, k, hr⟩ := report_on (h := { h with printed := h.printed ++ repeated 50 "=" ++
      "\n" ++ ("Processing: " ++ s.path) ++ "\n" }) hconsole s.path
    refine ⟨r, k, on_orElse_ok ?_ _⟩
    rw [on_bind_ok (on_print_unicode hconsole _)]
    rw [on_bind_ok (on_print_unicode (by exact hconsole) _)]
    exact (on_bind_ok hr _).trans (on_pure _ _)
  obtain ⟨r, m, hr⟩ := hattempt
  have htold : h.Told m := .of_keeps hr
  obtain ⟨k, hdone⟩ := tellDone_on (h := m) (s := s)
    (by rw [htold.console, hconsole]; exact Charset.check_unicode _)
  refine ⟨r, k, ?_⟩
  rw [entries, on_bind_ok (on_tree h)]
  exact (on_bind_ok hr _).trans ((on_bind_ok hdone _).trans (on_pure _ _))

theorem mapM_entries_on (dir : String) (found : List Source) :
    ∃ ess k, (found.mapM (entries dir)).on h = (.ok ess, k) ∧ ∀ e ∈ ess.flatten, e.2 = true := by
  induction found generalizing h with
  | nil => exact ⟨[], h, on_pure [] h, forall_mem_nil _⟩
  | cons s found ih =>
    obtain ⟨r, m, hes⟩ := entries_on hconsole dir s
    have htold : h.Told m := .of_keeps hes
    obtain ⟨ess, k, hess, hdone⟩ := ih (h := m) (htold.console.trans hconsole)
    refine ⟨[(s.done h.tree.cwd dir r, true)] :: ess, k, ?_, forall_mem_cons.2 ⟨rfl, hdone⟩⟩
    rw [mapM_cons, on_bind_ok hes, on_bind_ok hess, on_pure]

theorem survey_on {dir : String} (hmodest : Modest h.tree dir) :
    ∃ project summary k, (survey dir).on h = (.ok project, k) ∧ h.Told k ∧
      ofProject project = .ok summary ∧ Legible depthLimit summary := by
  obtain ⟨ess, k, hess, -⟩ := mapM_entries_on hconsole dir (sources h.tree dir)
  obtain ⟨htold, hall⟩ := mapM_entries_eq_ok hess
  have hlisted : ∀ e ∈ ess.flatten, Summary.Listed 4 e.1 := by
    intro e he
    obtain ⟨s, hs, hentry⟩ := exists_of_mem_right hall he
    exact hentry.listed (hmodest.lines s hs)
  obtain ⟨summary, hsummary, hlegible⟩ := @ofProject_eq_ok 4 _ dir _ hlisted
    hmodest.files (hall.length_eq ▸ hmodest.files)
  refine ⟨_, summary, k, ?_, htold, hsummary, hlegible.mono (by decide)⟩
  rw [survey, on_bind_ok (on_tree h)]
  exact (on_bind_ok hess _).trans (on_pure _ _)

end Project
end Outline
end RepoWiki
