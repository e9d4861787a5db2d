import RepoWiki.Outline.Project
import RepoWiki.Proofs.Console
import RepoWiki.Proofs.Json
import RepoWiki.Proofs.Outline.Lines
import RepoWiki.Proofs.Utf8
/-
Reports lose nothing. Every file that can be read has a record, every such record has a report, and
what the record lists is listed in the report too: as many entries, in the same order, with the same
names, parameters and line numbers. The counts at the end of a report are the lengths of its lists.
-/

namespace RepoWiki

open Fields Json List Outline.Import

variable {key : String}

namespace Outline

def Import.reported? (i : Import) : Option String :=
  ["package", "imports", "module", "path"].findSome? (i.parts.lookup ·)

namespace Report

/-! ## What a report keeps -/

def Agree (labels : List String) (a b : Json) : Prop :=
  ∀ label ∈ labels, ∃ v, a.item label = .ok v ∧ b.item label = .ok v

def callableLabels : List String := ["name", "parameters", "line_number"]

def importLabels : List String := ["type", "line_number"]

/-- Two classes with the same name and line, and the same methods in the same order. -/
def AgreeOnClass (c d : Json) : Prop :=
  Agree ["name", "line_number"] c d ∧
    ∃ ms ns, listed c "methods" = .ok ms ∧ listed d "methods" = .ok ns ∧
      List.Forall₂ (Agree callableLabels) ms ns

/-- The lists of a record, or of the data in a report. -/
structure Lists where
  imports : List Json
  functions : List Json
  classes : List Json
  methods : List Json

def Lists.of (v : Json) : Result Lists := do
  let imports ← listed v "imports"
  let functions ← listed v "functions"
  let classes ← listed v "classes"
  let methods ← listed v "methods"
  return ⟨imports, functions, classes, methods⟩

/-- The lists of a record and those of the data in its report. Only Go records list methods
themselves; otherwise the methods are those of the classes, one class after the other. -/
structure SameLists (go : Prop) (a b : Lists) : Prop where
  imports : List.Forall₂ (Agree importLabels) a.imports b.imports
  functions : List.Forall₂ (Agree callableLabels) a.functions b.functions
  classes : List.Forall₂ AgreeOnClass a.classes b.classes
  methodsOfGo : go → List.Forall₂ (Agree callableLabels) a.methods b.methods
  methodsOfClasses : ¬go → ∃ groups,
    List.Forall₂ (fun c ms => listed c "methods" = .ok ms) b.classes groups ∧
      b.methods = groups.flatten

/-- The counts of a report are the lengths of its lists. -/
def Counts (counts : Json) (b : Lists) : Prop :=
  counts.item "total_imports" = .ok (.nat b.imports.length) ∧
  counts.item "total_classes" = .ok (.nat b.classes.length) ∧
  counts.item "total_functions" = .ok (.nat b.functions.length) ∧
  counts.item "total_methods" = .ok (.nat b.methods.length)

/-- A report that keeps everything that is listed in a record, and counts it. -/
def Lossless (record report : Json) : Prop :=
  ∃ a data b counts, Lists.of record = .ok a ∧ report.item "parsed_data" = .ok data ∧
    Lists.of data = .ok b ∧ report.item "statistics" = .ok counts ∧
    SameLists (record.item "language" = .ok (.str Language.go.label)) a b ∧ Counts counts b

/-! ## Parts -/

theorem agree_of_items {labels : List String} {f g : Fields}
    (h : ∀ label ∈ labels, ∃ v, get? label f = some v ∧ get? label g = some v) :
    Agree labels (.obj f) (.obj g) := by
  intro label hlabel
  obtain ⟨v, hf, hg⟩ := h label hlabel
  exact ⟨v, item_obj hf, item_obj hg⟩

def importFields (kind line : Json) (path : Option String) : Fields :=
  [("type", kind), ("line_number", line)] ++
    (path.map fun t => ("import_path", str t)).toList

theorem get?_toJson {label : String} (hkind : "type" ≠ label) (hline : "line_number" ≠ label)
    (i : Import) : i.toJson.field? label = (i.parts.lookup label).map str := by
  have hparts : ∀ parts : List (String × String),
      get? label (parts.map (fun f => (f.1, str f.2)) ++
        [("line_number", .int i.line)]) = (parts.lookup label).map str := by
    intro parts
    induction parts with
    | nil => exact if_neg hline
    | cons part parts ih =>
      obtain ⟨key, v⟩ := part
      rw [map_cons, cons_append, get?, ih, lookup_cons]
      by_cases hkey : key = label
      · rw [if_pos hkey, beq_iff_eq.2 hkey.symm]
        rfl
      · rw [if_neg hkey, beq_false_of_ne (Ne.symm hkey)]
  show get? label (("type", str i.kind) :: _) = _
  rw [get?, if_neg hkind]
  exact hparts i.parts

theorem foldlM_import_path (i : Import) (kind line : Json) {labels : List String}
    (hlabels : ∀ label ∈ labels, "type" ≠ label ∧ "line_number" ≠ label) (old : Option String) :
    labels.foldlM
        (fun fields label => do
          if ← i.toJson.holds label then
            return Fields.set "import_path" (← i.toJson.item label) fields
          else return fields)
        (importFields kind line old) =
      (.ok (importFields kind line ((labels.reverse.findSome? (i.parts.lookup ·)).or old)) :
        Result Fields) := by
  induction labels generalizing old with
  | nil => rfl
  | cons label labels ih =>
    obtain ⟨hlabel, hlabels⟩ := forall_mem_cons.1 hlabels
    have hfield : get? label _ = _ := get?_toJson hlabel.1 hlabel.2 i
    have hholds : i.toJson.holds label = .ok (i.parts.lookup label).isSome := by
      rw [toJson, holds, has, hfield, Option.isSome_map]
    rw [foldlM_cons, reverse_cons, findSome?_append, Option.or_assoc, findSome?_singleton, hholds,
      ok_bind]
    cases hpart : i.parts.lookup label with
    | none => exact ih hlabels old
    | some t =>
      have hitem : i.toJson.item label = .ok (.str t) :=
        item_obj (hfield.trans (by rw [hpart]; rfl))
      have hset : Fields.set "import_path" (.str t) (importFields kind line old) =
          importFields kind line (some t) := by
        cases old <;> rfl
      rw [Option.isSome_some, if_pos rfl, hitem, ok_bind]
      show labels.foldlM _ (Fields.set _ _ _) = _
      rw [hset, ih hlabels (some t), Option.some_or]

theorem isSome_get?_concat (key : String) (v : Json) (fields : Fields) :
    (get? key (fields ++ [(key, v)])).isSome := by
  induction fields with
  | nil => simp [get?]
  | cons f rest ih =>
    rw [cons_append, get?]
    split
    · rfl
    · exact ih

theorem importInfo_toJson (i : Import) :
    ∃ line, i.toJson.item "line_number" = .ok line ∧
      importInfo i.toJson = .ok (.obj (importFields (.str i.kind) line i.reported?)) := by
  obtain ⟨line, hline⟩ : ∃ line, i.toJson.item "line_number" = .ok line := by
    obtain ⟨line, hline⟩ := Option.isSome_iff_exists.1 (isSome_get?_concat "line_number"
      (.int i.line) (("type", .str i.kind) :: i.parts.map fun f => (f.1, .str f.2)))
    exact ⟨line, item_obj hline⟩
  have hkind : i.toJson.item "type" = .ok (.str i.kind) := rfl
  have hfold : ["path", "module", "imports", "package"].foldlM _
      [("type", str i.kind), ("line_number", line)] = _ :=
    foldlM_import_path i (.str i.kind) line (by decide) none
  refine ⟨line, hline, ?_⟩
  rw [importInfo, hkind, ok_bind, hline, ok_bind]
  dsimp only
  rw [hfold, Option.or_none]
  rfl

theorem agree_importInfo (i : Import) :
    ∃ j, importInfo i.toJson = .ok j ∧ Agree importLabels i.toJson j := by
  obtain ⟨line, hline, hinfo⟩ := importInfo_toJson i
  refine ⟨_, hinfo, fun label hlabel => ?_⟩
  simp only [importLabels, mem_cons, not_mem_nil, or_false] at hlabel
  rcases hlabel with rfl | rfl
  · exact ⟨.str i.kind, rfl, rfl⟩
  · exact ⟨line, hline, rfl⟩

/-- The fields by which a function or a method is described. -/
structure Described (f : Fields) (name parameters line : Json) : Prop where
  name : Fields.get? "name" f = some name
  parameters : Fields.get? "parameters" f = some parameters
  line : Fields.get? "line_number" f = some line

theorem Described.agree {f g : Fields} {name parameters line : Json}
    (hf : Described f name parameters line) (hg : Described g name parameters line) :
    Agree callableLabels (.obj f) (.obj g) := by
  refine agree_of_items fun label hlabel => ?_
  simp only [callableLabels, mem_cons, not_mem_nil, or_false] at hlabel
  rcases hlabel with rfl | rfl | rfl
  · exact ⟨name, hf.name, hg.name⟩
  · exact ⟨parameters, hf.parameters, hg.parameters⟩
  · exact ⟨line, hf.line, hg.line⟩

section

variable {f : Fields} {name parameters line : Json} (hf : Described f name parameters line)
include hf

theorem callableInfo_obj (kind : String) :
    ∃ rest, callableInfo kind (.obj f) = .ok ([("name", name), ("type", .str kind),
      ("parameters", parameters), ("line_number", line)] ++ rest) := by
  simp [callableInfo, Json.item, Json.get, Json.getD, hf.name, hf.parameters, hf.line]

theorem methodInfo_obj :
    ∃ j, methodInfo (.obj f) = .ok j ∧ Agree callableLabels (.obj f) j := by
  obtain ⟨rest, hrest⟩ := callableInfo_obj hf "method"
  have hinfo := congrArg (fun r => r >>= fun fields => pure (obj fields)) hrest
  exact ⟨_, hinfo, hf.agree ⟨rfl, rfl, rfl⟩⟩

theorem functionInfo_obj :
    ∃ j, functionInfo (.obj f) = .ok j ∧ Agree callableLabels (.obj f) j := by
  obtain ⟨rest, hrest⟩ := callableInfo_obj hf "function"
  refine ⟨.obj ([("name", name), ("type", .str "function"), ("parameters", parameters),
    ("line_number", line)] ++ rest ++ fieldIfSet "function_type"
      ((get? "type" f).getD .null)), ?_, hf.agree ⟨rfl, rfl, rfl⟩⟩
  rw [functionInfo, hrest]
  rfl

theorem goFunctionInfo_obj :
    ∃ j, goFunctionInfo (.obj f) = .ok j ∧ Agree callableLabels (.obj f) j := by
  have hinfo : ∃ rest, goFunctionInfo (.obj f) = .ok (.obj ([("name", name),
      ("type", .str "function"), ("parameters", parameters), ("line_number", line)] ++ rest)) := by
    simp [goFunctionInfo, Json.item, Json.get, Json.getD, hf.name, hf.parameters, hf.line]
  obtain ⟨rest, hrest⟩ := hinfo
  exact ⟨_, hrest, hf.agree ⟨rfl, rfl, rfl⟩⟩

theorem goMethodInfo_obj {receiver : Json} (hreceiver : get? "receiver" f = some receiver) :
    ∃ j, goMethodInfo (.obj f) = .ok j ∧ Agree callableLabels (.obj f) j := by
  have hinfo : ∃ rest, goMethodInfo (.obj f) = .ok (.obj ([("name", name),
      ("type", .str "method"), ("receiver", receiver), ("parameters", parameters),
      ("line_number", line)] ++ rest)) := by
    simp [goMethodInfo, Json.item, Json.get, Json.getD, hf.name, hf.parameters, hf.line, hreceiver]
  obtain ⟨rest, hrest⟩ := hinfo
  exact ⟨_, hrest, hf.agree ⟨rfl, rfl, rfl⟩⟩

end

theorem described_callable (f : Callable) :
    ∃ fields, f.toJson = .obj fields ∧
      Described fields (.str f.name) (.str f.parameters) (.int f.line) := by
  refine ⟨_, rfl, ?_⟩
  cases f.modifiers with
  | none => exact ⟨rfl, rfl, rfl⟩
  | some m => exact ⟨rfl, rfl, rfl⟩

theorem described_goFunction (f : Go.Function) :
    ∃ fields, f.toJson = .obj fields ∧
      Described fields (.str f.name) (.str f.parameters) (.int f.line) ∧
      get? "receiver" fields = f.receiver.map str := by
  refine ⟨_, rfl, ?_⟩
  cases f.receiver with
  | none => exact ⟨⟨rfl, rfl, rfl⟩, rfl⟩
  | some m => exact ⟨⟨rfl, rfl, rfl⟩, rfl⟩

theorem classInfo_toJson (c : ClassEntry) :
    ∃ d ns, classInfo c.toJson = .ok (d, ns) ∧ AgreeOnClass c.toJson d ∧
      listed d "methods" = .ok ns := by
  have hmethods : ∀ m ∈ c.methods.map Callable.toJson,
      ∃ j, methodInfo m = .ok j ∧ Agree callableLabels m j := by
    intro m hm
    obtain ⟨f, -, rfl⟩ := mem_map.1 hm
    obtain ⟨fields, hfields, hdescribed⟩ := described_callable f
    rw [hfields]
    exact methodInfo_obj hdescribed
  obtain ⟨ns, hns, hagree⟩ := exists_mapM_eq_ok hmethods
  refine ⟨.obj ([("name", .str c.name), ("line_number", .int c.line), ("methods", .arr ns)] ++
    fieldIfSet "inheritance" (ofText? c.inheritance)), ns, ?_, ⟨agree_of_items ?_, ?_⟩, rfl⟩
  · show ((c.methods.map Callable.toJson).mapM methodInfo >>= _) = _
    rw [hns]
    rfl
  · intro label hlabel
    simp only [mem_cons, not_mem_nil, or_false] at hlabel
    rcases hlabel with rfl | rfl
    · exact ⟨.str c.name, rfl, rfl⟩
    · exact ⟨.int c.line, rfl, rfl⟩
  · exact ⟨_, ns, rfl, rfl, hagree⟩

/-! ## Records -/

theorem get?_fieldIfSet_ne {label : String} (h : label ≠ key) (v : Json) (rest : Fields) :
    get? key (fieldIfSet label v ++ rest) = get? key rest := by
  rw [fieldIfSet]
  split
  · rw [singleton_append, get?, if_neg h]
  · rfl

/-- The data of a report: the package if there is one, the imports if there are some, and the other
lists. The data of a Go file has no classes. -/
def dataOf (package : Json) (imports functions methods : List Json) (classes : Option (List Json)) :
    Fields :=
  fieldIfSet "package" package ++ (fieldIfSet "imports" (.arr imports) ++
    ([("functions", .arr functions), ("methods", .arr methods)] ++
      (classes.map fun cs => ("classes", arr cs)).toList))

section

variable {package : Json} {imports functions methods : List Json} {classes : Option (List Json)}

theorem get?_dataOf (hpackage : "package" ≠ key) (himports : "imports" ≠ key) :
    get? key (dataOf package imports functions methods classes) =
      get? key ([("functions", .arr functions), ("methods", .arr methods)] ++
        (classes.map fun cs => ("classes", arr cs)).toList) := by
  rw [dataOf, get?_fieldIfSet_ne hpackage, get?_fieldIfSet_ne himports]

theorem get?_dataOf_imports (package : Json) (imports functions methods : List Json)
    (classes : Option (List Json)) :
    (get? "imports" (dataOf package imports functions methods classes)).getD (.arr []) =
      .arr imports := by
  rw [dataOf, get?_fieldIfSet_ne (by decide)]
  cases imports with
  | nil => cases classes <;> rfl
  | cons i is => rfl

theorem listed_of_get? {fields : Fields} {items : List Json}
    (h : (get? key fields).getD (.arr []) = .arr items) :
    listed (.obj fields) key = .ok items ∧ countOf fields key = .nat items.length := by
  rw [listed, Json.getD, countOf]
  cases hget : get? key fields with
  | none =>
    rw [hget] at h
    cases h
    exact ⟨rfl, rfl⟩
  | some v =>
    rw [hget] at h
    cases h
    exact ⟨rfl, rfl⟩

theorem lists_dataOf (package : Json) (imports functions methods : List Json)
    (classes : Option (List Json)) :
    Lists.of (.obj (dataOf package imports functions methods classes)) =
        .ok ⟨imports, functions, classes.getD [], methods⟩ ∧
      countOf (dataOf package imports functions methods classes) "imports" = .nat imports.length ∧
      countOf (dataOf package imports functions methods classes) "functions" =
        .nat functions.length ∧
      countOf (dataOf package imports functions methods classes) "methods" =
        .nat methods.length := by
  have hfunctions : (get? "functions" (dataOf package imports functions methods classes)).getD
      (.arr []) = .arr functions := by
    rw [get?_dataOf (by decide) (by decide)]
    rfl
  have hmethods : (get? "methods" (dataOf package imports functions methods classes)).getD
      (.arr []) = .arr methods := by
    rw [get?_dataOf (by decide) (by decide)]
    rfl
  have hclasses : (get? "classes" (dataOf package imports functions methods classes)).getD
      (.arr []) = .arr (classes.getD []) := by
    rw [get?_dataOf (by decide) (by decide)]
    cases classes <;> rfl
  obtain ⟨hi, hicount⟩ :=
    listed_of_get? (get?_dataOf_imports package imports functions methods classes)
  obtain ⟨hf, hfcount⟩ := listed_of_get? hfunctions
  obtain ⟨hm, hmcount⟩ := listed_of_get? hmethods
  refine ⟨?_, hicount, hfcount, hmcount⟩
  rw [Lists.of, hi, ok_bind, hf, ok_bind, (listed_of_get? hclasses).1, ok_bind, hm]
  rfl

theorem ofRecord_of_parsedData {record : Fields} {data : Fields} {n : Nat}
    (herror : get? "error" record = none) (hparsed : parsedData (.obj record) = .ok (data, n)) :
    ∃ metadata, ofRecord (.obj record) = .ok (.obj [("metadata", metadata),
      ("parsed_data", .obj data), ("statistics", .obj [("total_imports", countOf data "imports"),
        ("total_classes", .nat n), ("total_functions", countOf data "functions"),
        ("total_methods", countOf data "methods")])]) := by
  have hholds : (Json.obj record).holds "error" = .ok false := by
    rw [Json.holds, has, herror]
    rfl
  refine ⟨.obj [("filename", (get? "filename" record).getD (.str "")),
    ("language", (get? "language" record).getD (.str ""))], ?_⟩
  rw [ofRecord, Json.getD, ok_bind, Json.getD, ok_bind]
  dsimp only
  rw [hholds, ok_bind, if_neg Bool.false_ne_true, hparsed]
  rfl

theorem lossless_of_parsedData {record : Fields} {a : Lists}
    (herror : get? "error" record = none) (ha : Lists.of (.obj record) = .ok a)
    (hparsed : parsedData (.obj record) =
      .ok (dataOf package imports functions methods classes, (classes.getD []).length))
    (hsame : SameLists ((obj record).item "language" = .ok (.str Language.go.label)) a
      ⟨imports, functions, classes.getD [], methods⟩) :
    ∃ report, ofRecord (.obj record) = .ok report ∧ Lossless (.obj record) report := by
  obtain ⟨hlists, hi, hf, hm⟩ := lists_dataOf package imports functions methods classes
  obtain ⟨metadata, hreport⟩ := ofRecord_of_parsedData herror hparsed
  rw [hi, hf, hm] at hreport
  exact ⟨_, hreport, a, _, _, _, ha, rfl, hlists, rfl, hsame, rfl, rfl, rfl, rfl⟩

end

theorem imports_eq_ok (is : List Import) :
    ∃ js, (is.map toJson).mapM importInfo = .ok js ∧
      List.Forall₂ (Agree importLabels) (is.map toJson) js := by
  refine exists_mapM_eq_ok fun j hj => ?_
  obtain ⟨i, -, rfl⟩ := mem_map.1 hj
  exact agree_importInfo i

theorem importsOf_of_mapM {record : Json} {is : List Import} {js : List Json}
    (h : record.get "imports" = .ok (.arr (is.map toJson)))
    (hjs : (is.map toJson).mapM importInfo = .ok js) :
    importsOf record = .ok (fieldIfSet "imports" (.arr js)) := by
  rw [importsOf, h, ok_bind]
  cases is with
  | nil =>
    obtain rfl := Except.ok.inj hjs
    rfl
  | cons i is =>
    cases forall₂_of_mapM_eq_ok hjs
    show ((i :: is).map toJson).mapM importInfo >>= _ = _
    rw [hjs]
    rfl

theorem functions_eq_ok (fs : List Callable) :
    ∃ js, (fs.map Callable.toJson).mapM functionInfo = .ok js ∧
      List.Forall₂ (Agree callableLabels) (fs.map Callable.toJson) js := by
  refine exists_mapM_eq_ok fun j hj => ?_
  obtain ⟨f, -, rfl⟩ := mem_map.1 hj
  obtain ⟨fields, hfields, hdescribed⟩ := described_callable f
  rw [hfields]
  exact functionInfo_obj hdescribed

theorem goFunctions_eq_ok (fs : List Go.Function) :
    ∃ js, (fs.map Go.Function.toJson).mapM goFunctionInfo = .ok js ∧
      List.Forall₂ (Agree callableLabels) (fs.map Go.Function.toJson) js := by
  refine exists_mapM_eq_ok fun j hj => ?_
  obtain ⟨f, -, rfl⟩ := mem_map.1 hj
  obtain ⟨fields, hfields, hdescribed, -⟩ := described_goFunction f
  rw [hfields]
  exact goFunctionInfo_obj hdescribed

theorem goMethods_eq_ok {fs : List Go.Function} (h : ∀ f ∈ fs, f.receiver.isSome) :
    ∃ js, (fs.map Go.Function.toJson).mapM goMethodInfo = .ok js ∧
      List.Forall₂ (Agree callableLabels) (fs.map Go.Function.toJson) js := by
  refine exists_mapM_eq_ok fun j hj => ?_
  obtain ⟨f, hf, rfl⟩ := mem_map.1 hj
  obtain ⟨fields, hfields, hdescribed, hreceiver⟩ := described_goFunction f
  obtain ⟨r, hr⟩ := Option.isSome_iff_exists.1 (h f hf)
  rw [hr, Option.map_some] at hreceiver
  rw [hfields]
  exact goMethodInfo_obj hdescribed hreceiver

theorem classes_eq_ok (cs : List ClassEntry) :
    ∃ infos, (cs.map ClassEntry.toJson).mapM classInfo = .ok infos ∧
      List.Forall₂ AgreeOnClass (cs.map ClassEntry.toJson) (infos.map (·.1)) ∧
      List.Forall₂ (fun c ms => listed c "methods" = .ok ms) (infos.map (·.1))
        (infos.map (·.2)) := by
  have hclasses : ∀ c ∈ cs.map ClassEntry.toJson, ∃ info, classInfo c = .ok info ∧
      AgreeOnClass c info.1 ∧ listed info.1 "methods" = .ok info.2 := by
    intro c hc
    obtain ⟨c, -, rfl⟩ := mem_map.1 hc
    obtain ⟨d, ns, hinfo, hagree, hmethods⟩ := classInfo_toJson c
    exact ⟨(d, ns), hinfo, hagree, hmethods⟩
  obtain ⟨infos, hinfos, hall⟩ := exists_mapM_eq_ok hclasses
  refine ⟨infos, hinfos, ?_, ?_⟩
  · exact forall₂_map_right_iff.2 (hall.imp fun _ _ h => h.1)
  · rw [forall₂_map_left_iff, forall₂_map_right_iff, forall₂_same]
    intro info hinfo
    obtain ⟨c, hc, hok⟩ := mem_of_mapM_eq_ok hinfos hinfo
    obtain ⟨info', hok', -, hmethods⟩ := hclasses c hc
    obtain rfl := Except.ok.inj (hok.symm.trans hok')
    exact hmethods

theorem parsedData_eq_ok {record : Json} {package : Json} {imports lists : Fields} {n : Nat}
    (hpackage : record.get "package" = .ok package) (himports : importsOf record = .ok imports)
    (hlists : listsOf record = .ok (lists, n)) :
    parsedData record = .ok (fieldIfSet "package" package ++ (imports ++ lists), n) := by
  rw [parsedData, hpackage, ok_bind, himports, ok_bind, hlists]
  rfl

variable {l : Language}

theorem listsOf_entries (name : String) (hl : l ≠ .go) (e : Entries) :
    listsOf (e.toJson name l) = classLists (e.toJson name l) := by
  have hlanguage : (e.toJson name l).item "language" = .ok (.str l.label) := rfl
  rw [listsOf, hlanguage, ok_bind]
  cases l <;> first | rfl | exact absurd rfl hl

theorem parsedData_entries (name : String) (hl : l ≠ .go) {e : Entries}
    {imports functions : List Json} {classes : List (Json × List Json)}
    (himports : (e.imports.map toJson).mapM importInfo = .ok imports)
    (hfunctions : (e.functions.map Callable.toJson).mapM functionInfo = .ok functions)
    (hclasses : (e.classes.map ClassEntry.toJson).mapM classInfo = .ok classes) :
    parsedData (e.toJson name l) = .ok (dataOf .null imports functions
      (classes.flatMap (·.2)) (some (classes.map (·.1))), (classes.map (·.1)).length) := by
  have hlists : classLists (e.toJson name l) = .ok ([("functions", .arr functions),
      ("methods", .arr (classes.flatMap (·.2))), ("classes", .arr (classes.map (·.1)))],
      (classes.map (·.1)).length) := by
    show ((e.classes.map ClassEntry.toJson).mapM classInfo >>= _) = _
    rw [hclasses]
    show ((e.functions.map Callable.toJson).mapM functionInfo >>= _) = _
    rw [hfunctions, length_map]
    rfl
  exact parsedData_eq_ok rfl (importsOf_of_mapM rfl himports)
    ((listsOf_entries name hl e).trans hlists)

theorem report_entries (name : String) (hl : l ≠ .go) (e : Entries) :
    ∃ report, ofRecord (e.toJson name l) = .ok report ∧ Lossless (e.toJson name l) report := by
  obtain ⟨imports, himports, hi⟩ := imports_eq_ok e.imports
  obtain ⟨functions, hfunctions, hf⟩ := functions_eq_ok e.functions
  obtain ⟨classes, hclasses, hc, hm⟩ := classes_eq_ok e.classes
  have hnotGo : (e.toJson name l).item "language" ≠ .ok (.str Language.go.label) := by
    show Except.ok (str l.label) ≠ _
    cases l <;> first | exact absurd rfl hl | simp [Language.label]
  refine lossless_of_parsedData rfl rfl (parsedData_entries name hl himports hfunctions hclasses)
    ⟨hi, hf, hc, fun hgo => absurd hgo hnotGo, fun _ => ⟨_, hm, ?_⟩⟩
  exact flatMap_def

theorem parsedData_goFile (name : String) {f : Go.File} {imports functions methods : List Json}
    (himports : (f.imports.map toJson).mapM importInfo = .ok imports)
    (hfunctions : (f.functions.map Go.Function.toJson).mapM goFunctionInfo = .ok functions)
    (hmethods : (f.methods.map Go.Function.toJson).mapM goMethodInfo = .ok methods) :
    parsedData (f.toJson name) =
      .ok (dataOf (ofText? f.package) imports functions methods none, 0) := by
  have hlists : listsOf (f.toJson name) = .ok ([("functions", .arr functions),
      ("methods", .arr methods)], 0) := by
    show ((f.functions.map Go.Function.toJson).mapM goFunctionInfo >>= _) = _
    rw [hfunctions]
    show ((f.methods.map Go.Function.toJson).mapM goMethodInfo >>= _) = _
    rw [hmethods]
    rfl
  exact parsedData_eq_ok rfl (importsOf_of_mapM rfl himports) hlists

theorem report_goFile (name : String) {f : Go.File} (h : ∀ m ∈ f.methods, m.receiver.isSome) :
    ∃ report, ofRecord (f.toJson name) = .ok report ∧ Lossless (f.toJson name) report := by
  obtain ⟨imports, himports, hi⟩ := imports_eq_ok f.imports
  obtain ⟨functions, hfunctions, hf⟩ := goFunctions_eq_ok f.functions
  obtain ⟨methods, hmethods, hm⟩ := goMethods_eq_ok h
  exact lossless_of_parsedData rfl rfl (parsedData_goFile name himports hfunctions hmethods)
    ⟨hi, hf, .nil, fun _ => hm, fun hno => absurd rfl hno⟩

end Report

/-! ## Files -/

theorem Go.File.received_ofLines (lines : List String) :
    ∀ m ∈ (Go.File.ofLines lines).methods, m.receiver.isSome := by
  intro m hm
  obtain ⟨k, line, -, hfound⟩ := Go.File.method_origin lines m hm
  obtain ⟨x, -, rfl⟩ := Option.map_eq_some_iff.1 hfound
  rfl

theorem report_ofLines (path : String) (lines : List String) :
    ∃ report, Report.ofRecord (ofLines path lines) = .ok report ∧
      Report.Lossless (ofLines path lines) report := by
  unfold ofLines
  split
  · exact Report.report_goFile _ (Go.File.received_ofLines lines)
  · next hgo => exact Report.report_entries _ hgo _

theorem holds_error_ofLines (path : String) (lines : List String) :
    (ofLines path lines).holds "error" = .ok false := by
  unfold ofLines
  split <;> rfl

theorem recordOf_readLines {tree : FileTree} {path : String} {lines : List String}
    (hlines : tree.readLines path = .ok lines) :
    Project.recordOf tree (.str path) = ofLines path lines := by
  rw [Project.recordOf, asPath]
  dsimp only
  rw [hlines]

theorem readLines_of_decode {tree : FileTree} {path : String} {content : Content} {cs : List Char}
    (hopen : tree.open? path = .ok content) (hdecode : Text.Utf8.decode content.bytes = .ok cs) :
    ∃ lines, tree.readLines path = .ok lines := by
  have hlines : ∃ lines, content.readLines = .ok lines := by
    unfold Content.readLines
    split
    · exact ⟨_, rfl⟩
    · rw [Text.Utf8.decodeInBlocks_of_decode hdecode]
      exact ⟨_, rfl⟩
  obtain ⟨lines, hlines⟩ := hlines
  refine ⟨lines, ?_⟩
  rw [FileTree.readLines, hopen, ok_bind, hlines]
  rfl

/-- Every file that holds a text has a record, and the record has a report that keeps all of it and
is given back once it is printed. -/
theorem report_lossless {tree : FileTree} {path : String} {content : Content} {cs : List Char}
    (hopen : tree.open? path = .ok content) (hdecode : Text.Utf8.decode content.bytes = .ok cs) :
    (Project.recordOf tree (.str path)).holds "error" = .ok false ∧
      ∃ report, Report.ofRecord (Project.recordOf tree (.str path)) = .ok report ∧
        Report.Lossless (Project.recordOf tree (.str path)) report ∧
        ∀ h : Host, h.tree = tree → h.console.check (Report.text report) = .ok () →
          (Project.report path).on h =
            (.ok report, { h with printed := h.printed ++ Report.text report ++ "\n" }) := by
  obtain ⟨lines, hlines⟩ := readLines_of_decode hopen hdecode
  have hrecord := recordOf_readLines hlines
  obtain ⟨report, hreport, hlossless⟩ := report_ofLines path lines
  rw [hrecord]
  refine ⟨holds_error_ofLines path lines, report, hreport, hlossless, ?_⟩
  intro h htree hcheck
  subst htree
  rw [Project.report, Run.on_bind_ok (Run.on_tree h), hrecord, hreport,
    Run.on_lift_bind, Run.next_ok,
    Run.on_bind_ok (Run.on_print_ok hcheck), Run.on_pure]

def shelfOctets : List Nat :=
  [100, 101, 102, 32, 102, 40, 41, 58, 10]

def shelf : FileTree :=
  { cwd := "/", entries := [(["a.py"], .file (.octets shelfOctets) none)] }

theorem report_lossless_shelf :
    (Project.recordOf shelf (.str "/a.py")).holds "error" = .ok false ∧
      ∃ report, Report.ofRecord (Project.recordOf shelf (.str "/a.py")) = .ok report ∧
        Report.Lossless (Project.recordOf shelf (.str "/a.py")) report ∧
        (Project.report "/a.py").on { tree := shelf } =
          (.ok report, { tree := shelf, printed := Report.text report ++ "\n" }) := by
  have hopen : shelf.open? "/a.py" = .ok (.octets shelfOctets) := by
    rw [FileTree.open?, show shelf.resolve "/a.py" = .ok ["a.py"] by decide +kernel]
    rfl
  have hdecode : Text.Utf8.decode (Content.octets shelfOctets).bytes = .ok "def f():\n".toList := by
    decide +kernel
  obtain ⟨hno, report, hreport, hlossless, hprinted⟩ := report_lossless hopen hdecode
  refine ⟨hno, report, hreport, hlossless, ?_⟩
  rw [hprinted { tree := shelf } rfl (Charset.check_unicode _), String.empty_append]

end Outline
end RepoWiki
