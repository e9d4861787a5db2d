import RepoWiki.Proofs.Outline.Report
import RepoWiki.Proofs.Pattern
/-
Each line of a file belongs to one entry of its outline at most.

Only the numbers of the lines matter here, and `Listing` holds them. A line puts its number at the
end of one of the lists, or nowhere (`Adds`), and as the numbers that are there belong to earlier
lines, the lists stay in order and apart from each other (`Placed.adds`).
-/

namespace RepoWiki.Outline

open Fields List Text

variable {l : Language} {line : String} {number : Int}

/-- The line numbers of the entries of a file. A class has those of its methods beside its own; the
methods of a Go file have a list to themselves. -/
structure Listing where
  imports : List Int := []
  functions : List Int := []
  classes : List (Int × List Int) := []
  methods : List Int := []

namespace Listing

variable {n : Int}

def all (p : Listing) : List Int :=
  p.imports ++ (p.functions ++ (p.classes.flatMap (fun c => c.1 :: c.2) ++ p.methods))

/-- A number is put at the end of one of the lists. -/
inductive Adds (n : Int) (p : Listing) : Listing → Prop where
  | toImports : Adds n p { p with imports := p.imports ++ [n] }
  | toFunctions : Adds n p { p with functions := p.functions ++ [n] }
  | toMethods : Adds n p { p with methods := p.methods ++ [n] }
  | newClass : Adds n p { p with classes := p.classes ++ [(n, [])] }
  | toClass {cs : List (Int × List Int)} {c : Int} {ms : List Int}
      (h : p.classes = cs ++ [(c, ms)]) :
      Adds n p { p with classes := cs ++ [(c, ms ++ [n])] }

theorem Adds.perm {p q : Listing} (h : Adds n p q) : q.all.Perm (n :: p.all) := by
  rw [perm_iff_count]
  intro m
  cases h with
  | toImports =>
    simp only [all, count_append, count_cons, count_nil]
    omega
  | toFunctions =>
    simp only [all, count_append, count_cons, count_nil]
    omega
  | toMethods =>
    simp only [all, count_append, count_cons, count_nil]
    omega
  | newClass =>
    simp only [all, flatMap_append, flatMap_cons, flatMap_nil, count_append, count_cons, count_nil]
    omega
  | toClass hclasses =>
    simp only [all, hclasses, flatMap_append, flatMap_cons, flatMap_nil,
      count_append, count_cons, count_nil]
    omega

/-- The lists are in order, and the methods of a class stand between it and the next one. -/
structure Ordered (p : Listing) : Prop where
  imports : p.imports.Pairwise (· < ·)
  functions : p.functions.Pairwise (· < ·)
  methods : p.methods.Pairwise (· < ·)
  classes : (p.classes.map (·.1)).Pairwise (· < ·)
  methodsOfClass : ∀ c ∈ p.classes, c.2.Pairwise (· < ·) ∧ ∀ n ∈ c.2, c.1 < n
  nextClass : p.classes.Pairwise fun c d => ∀ n ∈ c.2, n < d.1

theorem pairwise_concat {ns : List Int} (h : ns.Pairwise (· < ·)) (hbelow : ∀ m ∈ ns, m < n) :
    (ns ++ [n]).Pairwise (· < ·) := by
  rw [pairwise_append]
  refine ⟨h, pairwise_singleton _ n, fun m hm k hk => ?_⟩
  rw [mem_singleton.1 hk]
  exact hbelow m hm

theorem mem_all_of_class {p : Listing} {c : Int × List Int} (hc : c ∈ p.classes)
    (hn : n ∈ c.1 :: c.2) : n ∈ p.all := by
  refine mem_append_right _ (mem_append_right _ (mem_append_left _ ?_))
  exact mem_flatMap.2 ⟨c, hc, hn⟩

theorem Ordered.adds {p q : Listing} (h : p.Ordered) (hbelow : ∀ m ∈ p.all, m < n)
    (hadds : Adds n p q) : q.Ordered := by
  cases hadds with
  | toImports =>
    refine { h with imports := pairwise_concat h.imports fun m hm => hbelow m ?_ }
    exact mem_append_left _ hm
  | toFunctions =>
    refine { h with functions := pairwise_concat h.functions fun m hm => hbelow m ?_ }
    exact mem_append_right _ (mem_append_left _ hm)
  | toMethods =>
    refine { h with methods := pairwise_concat h.methods fun m hm => hbelow m ?_ }
    exact mem_append_right _ (mem_append_right _ (mem_append_right _ hm))
  | newClass =>
    refine { h with classes := ?_, methodsOfClass := ?_, nextClass := ?_ }
    · rw [map_append]
      refine pairwise_concat h.classes fun m hm => ?_
      obtain ⟨c, hc, rfl⟩ := mem_map.1 hm
      exact hbelow c.1 (mem_all_of_class hc mem_cons_self)
    · intro c hc
      rcases mem_append.1 hc with hc | hc
      · exact h.methodsOfClass c hc
      · rw [mem_singleton.1 hc]
        exact ⟨.nil, forall_mem_nil _⟩
    · rw [pairwise_append]
      refine ⟨h.nextClass, pairwise_singleton _ _, fun c hc d hd m hm => ?_⟩
      rw [mem_singleton.1 hd]
      exact hbelow m (mem_all_of_class hc (mem_cons_of_mem c.1 hm))
  | @toClass cs c ms hclasses =>
    have hlast : (c, ms) ∈ p.classes := hclasses ▸ mem_append_right cs (mem_singleton_self _)
    have hms : ∀ m ∈ ms, m < n := fun m hm =>
      hbelow m (mem_all_of_class hlast (mem_cons_of_mem c hm))
    obtain ⟨hsorted, habove⟩ := h.methodsOfClass _ hlast
    have hnext := h.nextClass
    rw [hclasses, pairwise_append] at hnext
    refine { h with classes := ?_, methodsOfClass := ?_, nextClass := ?_ }
    · have hfirst := h.classes
      rw [hclasses, map_append] at hfirst
      rwa [map_append]
    · intro d hd
      rcases mem_append.1 hd with hd | hd
      · exact h.methodsOfClass d (hclasses ▸ mem_append_left _ hd)
      · rw [mem_singleton.1 hd]
        refine ⟨pairwise_concat hsorted hms, fun m hm => ?_⟩
        rcases mem_append.1 hm with hm | hm
        · exact habove m hm
        · rw [mem_singleton.1 hm]
          exact hbelow c (mem_all_of_class hlast mem_cons_self)
    · -- The class that gets the method is the last one, and its own number stays the same.
      rw [pairwise_append]
      refine ⟨hnext.1, pairwise_singleton _ _, fun d hd e he m hm => ?_⟩
      rw [mem_singleton.1 he]
      exact hnext.2.2 d hd (c, ms) (mem_singleton_self _) m hm

end Listing

/-- The numbers are those of different lines of the file, all of them lines of code, and they stand
in order. -/
structure Placed (l : Language) (lines : List String) (p : Listing) : Prop where
  range : ∀ n ∈ p.all, 1 ≤ n ∧ n ≤ lines.length
  code : ∀ n ∈ p.all, ∃ line, lines[n.toNat - 1]? = some line ∧ isCode l (Text.strip line) = true
  distinct : p.all.Nodup
  ordered : p.Ordered

theorem placed_nil (l : Language) : Placed l [] {} :=
  ⟨forall_mem_nil _, forall_mem_nil _, .nil, .nil, .nil, .nil, .nil,
    forall_mem_nil _, .nil⟩

section

variable {l : Language} {lines : List String} {p q : Listing} (h : Placed l lines p) (line : String)
include h

theorem Placed.skip : Placed l (lines ++ [line]) p := by
  refine ⟨fun n hn => ?_, fun n hn => ?_, h.distinct, h.ordered⟩
  · have hrange := h.range n hn
    rw [length_append, length_singleton]
    omega
  · obtain ⟨other, hother, hcode⟩ := h.code n hn
    refine ⟨other, ?_, hcode⟩
    rw [getElem?_append_left (List.getElem?_eq_some_iff.1 hother).1, hother]

theorem Placed.adds (hline : isCode l (strip line) = true)
    (hadds : Listing.Adds (lines.length + 1) p q) : Placed l (lines ++ [line]) q := by
  have hperm := hadds.perm
  have hbelow : ∀ m ∈ p.all, m < lines.length + 1 := fun m hm => by
    have hrange := h.range m hm
    omega
  have hmore := h.skip line
  refine ⟨fun n hn => ?_, fun n hn => ?_, ?_, h.ordered.adds hbelow hadds⟩
  · rcases mem_cons.1 (hperm.mem_iff.1 hn) with rfl | hn
    · rw [length_append, length_singleton]
      omega
    · exact hmore.range n hn
  · rcases mem_cons.1 (hperm.mem_iff.1 hn) with rfl | hn
    · have hplace : ((lines.length : Int) + 1).toNat - 1 = lines.length := by omega
      refine ⟨line, ?_, hline⟩
      rw [hplace, getElem?_concat_length]
    · exact hmore.code n hn
  · rw [hperm.nodup_iff, nodup_cons]
    refine ⟨fun hmem => ?_, h.distinct⟩
    have := hbelow _ hmem
    omega

end

/-! ## Imports are no comments -/

def commentStarts : Language → List Char
  | .python => ['#']
  | .html => ['<']
  | .unknown => []
  | _ => ['/', '*']

theorem commentStart_of_isComment (h : l.isComment line = true) :
    ∃ c ∈ commentStarts l, ∃ rest, line.toList = c :: rest := by
  have hstart : ∀ {s : String} {c : Char} {more : List Char}, s.toList = c :: more →
      startsWith s line = true → ∃ rest, line.toList = c :: rest := by
    intro s c more hs hstarts
    rw [startsWith, hs, isPrefixOf_iff_prefix] at hstarts
    obtain ⟨rest, hrest⟩ := hstarts
    exact ⟨more ++ rest, hrest.symm⟩
  have hslashes : startsWith "//" line = true ∨ startsWith "/*" line = true ∨
      startsWith "*" line = true → ∃ c ∈ ['/', '*'], ∃ rest, line.toList = c :: rest := by
    rintro (hline | hline | hline)
    · exact ⟨'/', by simp, hstart rfl hline⟩
    · exact ⟨'/', by simp, hstart rfl hline⟩
    · exact ⟨'*', by simp, hstart rfl hline⟩
  cases l with
  | python => exact ⟨'#', by simp [commentStarts], hstart rfl h⟩
  | html => exact ⟨'<', by simp [commentStarts], hstart rfl h⟩
  | css => exact ⟨'/', by simp [commentStarts], hstart rfl h⟩
  | unknown => cases h
  | _ =>
    refine hslashes ?_
    simpa [Language.isComment, Language.hasSlashComments, or_assoc] using h

/-- No form of a line that brings something in may start like a comment. -/
theorem forms_start (l : Language) :
    ((Import.forms l).all fun form => !form.pattern.mayBeEmpty &&
      (commentStarts l).all fun c => !form.pattern.mayStart c) = true := by
  cases l <;> rfl

theorem not_isComment_of_match? {form : Import.Form} (hform : form ∈ Import.forms l)
    {m : Pattern.Found} (h : form.pattern.match? line = some m) :
    l.isComment line = false := by
  have hforms := all_eq_true.1 (forms_start l) form hform
  rw [Bool.and_eq_true, Bool.not_eq_true', all_eq_true] at hforms
  cases hcomment : l.isComment line with
  | false => rfl
  | true =>
    obtain ⟨c, hc, rest, hline⟩ := commentStart_of_isComment hcomment
    rcases (Pattern.takes_of_match? h).starts with ⟨-, hempty⟩ | ⟨d, more, hstart, hmay⟩
    · rw [hforms.1] at hempty
      cases hempty
    · obtain rfl : c = d := (List.cons.inj (hline.symm.trans hstart)).1
      have hnot := hforms.2 c hc
      rw [hmay] at hnot
      cases hnot

/-! ## Entries and their lines -/

def Entries.listing (e : Entries) : Listing where
  imports := e.imports.map Import.line
  functions := e.functions.map Callable.line
  classes := e.classes.map fun c => (c.line, c.methods.map Callable.line)

def Go.File.listing (f : Go.File) : Listing where
  imports := f.imports.map Import.line
  functions := f.functions.map Go.Function.line
  methods := f.methods.map Go.Function.line

theorem line_of_callable {inClass : Bool} {f : Callable}
    (h : Callable.ofLine? l inClass line number = some f) :
    f.line = number + 1 := by
  obtain ⟨form, hform, m, -, rfl⟩ := Callable.ofLine?_eq_some h
  have hmake : ∀ form ∈ callableForms l inClass, (form.make m (number + 1)).line = number + 1 := by
    cases l <;> cases inClass <;> simp [callableForms, CallableForm.plain, CallableForm.typed,
      CallableForm.typeFirst, CallableForm.implied]
  exact hmake form hform

theorem Added.listing (hl : l ≠ .go) {e e' : Entries} (h : Added l line number e e') :
    e'.listing = e.listing ∨
      isCode l line = true ∧ Listing.Adds (number + 1) e.listing e'.listing := by
  have hcode : line ≠ "" → l.isComment line = false → isCode l line = true := by
    intro hline hcomment
    rw [isCode, if_neg hl, hcomment]
    simpa using hline
  cases h with
  | nothing => exact .inl rfl
  | @imported i hline hi =>
    obtain ⟨form, hform, m, hm, hfound⟩ := Import.find?_eq_some hi
    have hlisting : Entries.listing { e with imports := e.imports ++ [i] } =
        { e.listing with imports := e.listing.imports ++ [number + 1] } := by
      simp [Entries.listing, hfound]
    rw [hlisting]
    exact .inr ⟨hcode hline (not_isComment_of_match? hform hm), .toImports⟩
  | @begun c hline hcomment hc =>
    obtain ⟨hnumber, hmethods⟩ := line_of_classEntry hc
    have hlisting : Entries.listing { e with classes := e.classes ++ [c] } =
        { e.listing with classes := e.listing.classes ++ [(number + 1, [])] } := by
      simp [Entries.listing, hnumber, hmethods]
    rw [hlisting]
    exact .inr ⟨hcode hline hcomment, .newClass⟩
  | @function f hline hcomment hf =>
    have hlisting : Entries.listing { e with functions := e.functions ++ [f] } =
        { e.listing with functions := e.listing.functions ++ [number + 1] } := by
      simp [Entries.listing, line_of_callable hf]
    rw [hlisting]
    exact .inr ⟨hcode hline hcomment, .toFunctions⟩
  | @method f cs c hline hcomment hf hclasses =>
    have hbefore : e.listing.classes = (cs.map fun d => (d.line, d.methods.map Callable.line)) ++
        [(c.line, c.methods.map Callable.line)] := by
      simp [Entries.listing, hclasses]
    have hlisting : Entries.listing
          { e with classes := cs ++ [{ c with methods := c.methods ++ [f] }] } =
        { e.listing with
          classes := (cs.map fun d => (d.line, d.methods.map Callable.line)) ++
            [(c.line, c.methods.map Callable.line ++ [number + 1])] } := by
      simp [Entries.listing, line_of_callable hf]
    rw [hlisting]
    exact .inr ⟨hcode hline hcomment, .toClass hbefore⟩

theorem Go.Added.listing {f f' : Go.File} (h : Go.Added line number f f') :
    f'.listing = f.listing ∨
      isCode .go line = true ∧ Listing.Adds (number + 1) f.listing f'.listing := by
  cases h with
  | nothing => exact .inl rfl
  | packaged => exact .inl rfl
  | imported path hline =>
    have hlisting : (f.addImport path number).listing =
        { f.listing with imports := f.listing.imports ++ [number + 1] } := by
      simp [Go.File.listing, Go.File.addImport]
    rw [hlisting]
    exact .inr ⟨hline, .toImports⟩
  | @function fn hline hfn =>
    obtain ⟨m, -, hfound⟩ := Option.map_eq_some_iff.1 hfn
    have hlisting : Go.File.listing { f with functions := f.functions ++ [fn] } =
        { f.listing with functions := f.listing.functions ++ [number + 1] } := by
      simp [Go.File.listing, ← hfound]
    rw [hlisting]
    exact .inr ⟨hline, .toFunctions⟩
  | @method fn hline hfn =>
    obtain ⟨m, -, hfound⟩ := Option.map_eq_some_iff.1 hfn
    have hlisting : Go.File.listing { f with methods := f.methods ++ [fn] } =
        { f.listing with methods := f.listing.methods ++ [number + 1] } := by
      simp [Go.File.listing, ← hfound]
    rw [hlisting]
    exact .inr ⟨hline, .toMethods⟩

theorem placed_entries (hl : l ≠ .go) (lines : List String) :
    Placed l lines (Entries.ofLines l lines).listing := by
  refine Entries.ofLines_induct l (P := fun lines e => Placed l lines e.listing) (placed_nil l) ?_
    lines
  intro done line e e' hplaced hadded
  rcases hadded.listing hl with hsame | ⟨hline, hadds⟩
  · rw [hsame]
    exact hplaced.skip line
  · exact hplaced.adds line hline hadds

theorem placed_goFile (lines : List String) :
    Placed .go lines (Go.File.ofLines lines).listing := by
  refine Go.File.ofLines_induct (P := fun lines f => Placed .go lines f.listing)
    (placed_nil .go) ?_ lines
  intro done line f f' hplaced hadded
  rcases hadded.listing with hsame | ⟨hline, hadds⟩
  · rw [hsame]
    exact hplaced.skip line
  · exact hplaced.adds line hline hadds

/-! ## Records -/

def OnLine (v : Json) (n : Int) : Prop :=
  v.item "line_number" = .ok (.int n)

def Numbered (record : Json) (p : Listing) : Prop :=
  ∃ lists, Report.Lists.of record = .ok lists ∧ List.Forall₂ OnLine lists.imports p.imports ∧
    List.Forall₂ OnLine lists.functions p.functions ∧
    List.Forall₂ (fun c d => OnLine c d.1 ∧ ∃ ms, Report.listed c "methods" = .ok ms ∧
      List.Forall₂ OnLine ms d.2) lists.classes p.classes ∧
    List.Forall₂ OnLine lists.methods p.methods

theorem onLine_callable (f : Callable) : OnLine f.toJson f.line := by
  rw [OnLine, Callable.toJson]
  cases f.modifiers <;> rfl

theorem onLine_goFunction (f : Go.Function) : OnLine f.toJson f.line := by
  rw [OnLine, Go.Function.toJson]
  cases f.receiver <;> rfl

theorem onLine_import {i : Import} (h : "line_number" ∉ i.parts.map (·.1)) :
    OnLine i.toJson i.line := by
  have hget : ∀ parts : List (String × String), "line_number" ∉ parts.map (·.1) →
      get? "line_number" (parts.map (fun f => (f.1, Json.str f.2)) ++
        [("line_number", .int i.line)]) = some (.int i.line) := by
    intro parts hparts
    induction parts with
    | nil => rfl
    | cons part parts ih =>
      rw [map_cons, mem_cons, not_or] at hparts
      rw [map_cons, cons_append, get?, if_neg (Ne.symm hparts.1), ih hparts.2]
  have hobject : get? "line_number" (("type", Json.str i.kind) ::
      i.parts.map (fun f => (f.1, Json.str f.2)) ++ [("line_number", .int i.line)]) =
      some (.int i.line) := by
    rw [cons_append, get?, if_neg (by decide), hget i.parts h]
  exact Json.item_obj hobject

theorem forms_labels (l : Language) : ∀ form ∈ Import.forms l, ∀ m,
    "line_number" ∉ (form.parts m).map (·.1) := by
  cases l <;> simp [Import.forms, Import.scriptForms, Import.Form.single]

theorem forall₂_onLine {α : Type} {toJson : α → Json} {line : α → Int} {xs : List α}
    (h : ∀ x ∈ xs, OnLine (toJson x) (line x)) :
    List.Forall₂ OnLine (xs.map toJson) (xs.map line) := by
  rw [forall₂_map_left_iff, forall₂_map_right_iff, forall₂_same]
  exact h

theorem numbered_entries (name : String) (l : Language) (lines : List String) :
    Numbered ((Entries.ofLines l lines).toJson name l) (Entries.ofLines l lines).listing := by
  refine ⟨_, rfl, forall₂_onLine fun i hi => ?_, forall₂_onLine fun f _ => onLine_callable f, ?_,
    .nil⟩
  · obtain ⟨k, line, -, hfound⟩ := Entries.import_origin l lines i hi
    obtain ⟨form, hform, m, -, rfl⟩ := Import.find?_eq_some hfound
    exact onLine_import (forms_labels l form hform m)
  · rw [Entries.listing, forall₂_map_left_iff, forall₂_map_right_iff, forall₂_same]
    exact fun c _ => ⟨rfl, _, rfl, forall₂_onLine fun f _ => onLine_callable f⟩

theorem numbered_goFile (name : String) (lines : List String) :
    Numbered ((Go.File.ofLines lines).toJson name) (Go.File.ofLines lines).listing := by
  refine ⟨_, rfl, forall₂_onLine fun i hi => ?_, forall₂_onLine fun f _ => onLine_goFunction f,
    .nil, forall₂_onLine fun f _ => onLine_goFunction f⟩
  obtain ⟨path, line, rfl⟩ := Go.File.import_origin lines i hi
  exact onLine_import (by simp)

/-- The entries in the record of a file that can be read stand on different lines of code. -/
theorem record_placed {tree : FileTree} {path : String} {lines : List String}
    (hlines : tree.readLines path = .ok lines) :
    ∃ p, Numbered (Project.recordOf tree (.str path)) p ∧
      Placed (Language.ofFileName path) lines p := by
  rw [recordOf_readLines hlines]
  by_cases hgo : Language.ofFileName path = .go
  · rw [ofLines_goFile hgo, hgo]
    exact ⟨_, numbered_goFile _ lines, placed_goFile lines⟩
  · rw [ofLines_entries hgo]
    exact ⟨_, numbered_entries _ _ lines, placed_entries hgo lines⟩

def sketchLines : List String :=
  ["import os", "", "# note", "class A(B):", "    def f(self):", "        # note", "class C:"]

def sketch : FileTree :=
  { cwd := "/"
    entries := [(["a.py"], .file (.text (String.intercalate "\n" sketchLines)) none)] }

theorem record_placed_sketch :
    sketch.readLines "/a.py" = .ok sketchLines ∧
      ∃ p, Numbered (Project.recordOf sketch (.str "/a.py")) p ∧
        Placed .python sketchLines p := by
  have hlines : sketch.readLines "/a.py" = .ok sketchLines := by
    rw [FileTree.readLines, FileTree.open?,
      show sketch.resolve "/a.py" = .ok ["a.py"] by decide +kernel]
    rfl
  have hpython : Language.ofFileName "/a.py" = .python := by decide +kernel
  exact ⟨hlines, hpython ▸ record_placed hlines⟩

end RepoWiki.Outline
