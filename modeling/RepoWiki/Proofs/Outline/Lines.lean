import RepoWiki.Outline.Basic
import RepoWiki.Proofs.Pattern
/-
What one line adds to the outline of a file.

`Added` lists all that can happen on a line, with the reading of the line that led to it. An outline
is made of such steps only, so that what holds of no lines and is kept by each step holds of the
lines of every file (`Entries.ofLines_induct`, `Go.File.ofLines_induct`).
-/

namespace RepoWiki.Outline

open Callable Entries Import List Text

/-- A line that can add something, already without blanks at its ends: it is not empty and does not
start like a comment. Only a comment of two slashes hides a line in a Go file. -/
def isCode (l : Language) (line : String) : Bool :=
  line ≠ "" && !(if l = .go then Text.startsWith "//" line else l.isComment line)

theorem addMethod_concat (f : Callable) (cs : List ClassEntry) (c : ClassEntry) :
    addMethod f (cs ++ [c]) = cs ++ [{ c with methods := c.methods ++ [f] }] := by
  induction cs with
  | nil => rfl
  | cons d cs ih =>
    rw [cons_append, addMethod, ih]
    · rfl
    · simp

/-- What a line adds to the entries of a file that is no Go file. -/
inductive Added (l : Language) (line : String) (number : Int) (e : Entries) : Entries → Prop where
  | nothing : Added l line number e e
  | imported {i : Import} (hline : line ≠ "")
      (h : find? (forms l) line number = some i) :
      Added l line number e { e with imports := e.imports ++ [i] }
  | begun {c : ClassEntry} (hline : line ≠ "") (hcomment : l.isComment line = false)
      (h : ClassEntry.ofLine? l line number = some c) :
      Added l line number e { e with classes := e.classes ++ [c] }
  | function {f : Callable} (hline : line ≠ "") (hcomment : l.isComment line = false)
      (h : ofLine? l (!e.classes.isEmpty) line number = some f) :
      Added l line number e { e with functions := e.functions ++ [f] }
  | method {f : Callable} {cs : List ClassEntry} {c : ClassEntry} (hline : line ≠ "")
      (hcomment : l.isComment line = false)
      (h : ofLine? l (!e.classes.isEmpty) line number = some f)
      (hclasses : e.classes = cs ++ [c]) :
      Added l line number e
        { e with classes := cs ++ [{ c with methods := c.methods ++ [f] }] }

theorem added_step (l : Language) (e : Entries) (line : String) (number : Int) :
    Added l line number e (step l e line number) := by
  unfold step
  split
  · exact .nothing
  next hline =>
  split
  · next i hi => exact .imported hline hi
  split
  · exact .nothing
  next hcomment =>
  rw [Bool.not_eq_true] at hcomment
  split
  · next c hc => exact .begun hline hcomment hc
  split
  · next f hf =>
    unfold addCallable
    split
    · next hmethod =>
      rw [Bool.and_eq_true, Bool.not_eq_true', isEmpty_eq_false_iff] at hmethod
      have hclasses := (dropLast_concat_getLast hmethod.2).symm
      rw [hclasses, addMethod_concat]
      exact .method hline hcomment hf hclasses
    · exact .function hline hcomment hf
  · exact .nothing

theorem Entries.ofLines_induct (l : Language) {P : List String → Entries → Prop} (hnone : P [] {})
    (hstep : ∀ done line e e', P done e → Added l (strip line) done.length e e' →
      P (done ++ [line]) e')
    (lines : List String) : P lines (ofLines l lines) := by
  have hall : ∀ rest done e, P done e → P (done ++ rest) (readLines l e done.length rest) := by
    intro rest
    induction rest with
    | nil =>
      intro done e h
      rwa [append_nil]
    | cons line rest ih =>
      intro done e h
      have hnext := ih (done ++ [line]) _ (hstep done line e _ h (added_step l e _ _))
      rw [append_assoc, singleton_append, length_append, length_singleton,
        Int.natCast_succ] at hnext
      rwa [readLines]
  have hlines := hall lines [] {} hnone
  rwa [nil_append, length_nil, Int.natCast_zero] at hlines

/-! ## Where entries come from -/

variable {l : Language} {line : String}

theorem Import.find?_eq_some {number : Int} {i : Import}
    (h : find? (forms l) line number = some i) :
    ∃ form ∈ forms l, ∃ m, form.pattern.match? line = some m ∧
      i = ⟨form.kind, form.parts m, number + 1⟩ := by
  obtain ⟨form, hform, hfound⟩ := exists_of_findSome?_eq_some h
  obtain ⟨m, hm, rfl⟩ := Option.map_eq_some_iff.1 hfound
  exact ⟨form, hform, m, hm, rfl⟩

theorem Callable.ofLine?_eq_some {inClass : Bool} {number : Int} {f : Callable}
    (h : ofLine? l inClass line number = some f) :
    ∃ form ∈ callableForms l inClass, ∃ m, form.pattern.match? line = some m ∧
      f = form.make m (number + 1) := by
  obtain ⟨form, hform, hfound⟩ := exists_of_findSome?_eq_some h
  obtain ⟨m, hm, rfl⟩ := Option.map_eq_some_iff.1 hfound
  exact ⟨form, hform, m, hm, rfl⟩

/-- The groups that are read of a function take part in every match; a result may be absent. -/
theorem certain_callableForms (l : Language) (inClass : Bool) :
    ∀ form ∈ callableForms l inClass,
      ∀ n ∈ (match l with
        | .java | .csharp => [1, 2, 3, 4]
        | .cFamily => [1, 2, 3]
        | _ => [1, 2]), n ∈ form.pattern.certain := by
  cases l <;> cases inClass <;> decide

/-- So do those of an import, but for the ones that another group or a star stands in for. -/
theorem Import.certain_forms (l : Language) :
    ∀ form ∈ forms l, form.kind = "include" ∨
      1 ∈ form.pattern.certain ∧ (form.kind = "from_import" → 2 ∈ form.pattern.certain) ∨
      (l = .javascript ∨ l = .typescript) ∧ 2 ∈ form.pattern.certain := by
  cases l <;> decide

theorem certain_classPattern? {p : Pattern} (h : classPattern? l = some p) : 1 ∈ p.certain := by
  cases l <;> simp only [classPattern?, Option.some.injEq, reduceCtorEq] at h <;> subst h <;> decide

theorem certain_markers : 1 ∈ htmlTag.certain ∧ 1 ∈ cssSelector.certain := by decide

theorem line_of_classEntry {number : Int} {c : ClassEntry}
    (h : ClassEntry.ofLine? l line number = some c) : c.line = number + 1 ∧ c.methods = [] := by
  obtain ⟨p, -, hp⟩ := Option.bind_eq_some_iff.1 h
  obtain ⟨m, -, rfl⟩ := Option.map_eq_some_iff.1 hp
  exact ⟨rfl, rfl⟩

def Entries.callables (e : Entries) : List Callable :=
  e.functions ++ e.classes.flatMap (·.methods)

section

variable {l : Language} {line : String} {number : Int} {e e' : Entries}

theorem Added.import_new (h : Added l line number e e') {i : Import} (hi : i ∈ e'.imports) :
    i ∈ e.imports ∨ find? (forms l) line number = some i := by
  cases h with
  | imported _ hfound =>
    rcases mem_append.1 hi with hi | hi
    · exact .inl hi
    · rw [mem_singleton.1 hi]
      exact .inr hfound
  | nothing | begun | function | method => exact .inl hi

theorem Added.callable_new (h : Added l line number e e') {f : Callable} (hf : f ∈ e'.callables) :
    f ∈ e.callables ∨ ofLine? l (!e.classes.isEmpty) line number = some f := by
  cases h with
  | nothing | imported => exact .inl hf
  | begun _ _ hc =>
    left
    simpa [callables, line_of_classEntry hc] using hf
  | @function g _ _ hfound =>
    have hcases : f ∈ e.callables ∨ f = g := by
      simp only [callables, mem_append, mem_singleton] at hf ⊢
      exact or_right_comm.1 hf
    rcases hcases with hold | rfl
    · exact .inl hold
    · exact .inr hfound
  | @method g cs c _ _ hfound hclasses =>
    have hcases : f ∈ e.callables ∨ f = g := by
      simp only [callables, hclasses, flatMap_append, flatMap_singleton,
        mem_append, mem_singleton, ← or_assoc] at hf ⊢
      exact hf
    rcases hcases with hold | rfl
    · exact .inl hold
    · exact .inr hfound

end

theorem exists_line_concat {P : Nat → String → Prop} {lines : List String} {last : String}
    (h : (∃ k line, lines[k]? = some line ∧ P k line) ∨ P lines.length last) :
    ∃ k line, (lines ++ [last])[k]? = some line ∧ P k line := by
  rcases h with ⟨k, line, hline, hP⟩ | hP
  · refine ⟨k, line, ?_, hP⟩
    rw [getElem?_append_left (List.getElem?_eq_some_iff.1 hline).1, hline]
  · exact ⟨lines.length, last, getElem?_concat_length, hP⟩

theorem Entries.import_origin (l : Language) (lines : List String) :
    ∀ i ∈ (ofLines l lines).imports, ∃ (k : Nat) (line : String), lines[k]? = some line ∧
      find? (forms l) (strip line) k = some i := by
  refine ofLines_induct l (P := fun lines e => ∀ i ∈ e.imports,
    ∃ (k : Nat) (line : String), lines[k]? = some line ∧
      find? (forms l) (strip line) k = some i) (forall_mem_nil _) ?_ lines
  intro done line e e' ih hadded i hi
  exact exists_line_concat ((hadded.import_new hi).imp_left (ih i))

theorem Entries.callable_origin (l : Language) (lines : List String) :
    ∀ f ∈ (ofLines l lines).callables, ∃ (k : Nat) (line : String), lines[k]? = some line ∧
      ∃ inClass, ofLine? l inClass (strip line) k = some f := by
  refine ofLines_induct l (P := fun lines e => ∀ f ∈ e.callables,
    ∃ (k : Nat) (line : String), lines[k]? = some line ∧
      ∃ inClass, ofLine? l inClass (strip line) k = some f)
    (forall_mem_nil _) ?_ lines
  intro done line e e' ih hadded f hf
  exact exists_line_concat ((hadded.callable_new hf).imp (ih f) fun hfound => ⟨_, hfound⟩)

namespace Go

theorem certain_lines (tail : Pattern) :
    (∀ n ∈ [1, 2], n ∈ (functionLine tail).certain) ∧
      (∀ n ∈ [1, 2, 3], n ∈ (methodLine tail).certain) ∧ 1 ∈ packageLine.certain ∧
      1 ∈ quotedPath.certain := by
  simp [functionLine, methodLine, packageLine, quotedPath, parameterList, Pattern.chain,
    Pattern.certain]

/-- What a line adds to a Go file. -/
inductive Added (line : String) (number : Int) (f : File) : File → Prop where
  | nothing : Added line number f f
  | packaged (name : String) : Added line number f { f with package := some name }
  | imported (path : String) (hline : isCode .go line = true) :
      Added line number f (f.addImport path number)
  | function {fn : Function} (hline : isCode .go line = true)
      (h : Function.ofLine? bodyStart line number = some fn) :
      Added line number f { f with functions := f.functions ++ [fn] }
  | method {fn : Function} (hline : isCode .go line = true)
      (h : Function.ofMethodLine? bodyStart line number = some fn) :
      Added line number f { f with methods := f.methods ++ [fn] }

theorem File.added_addLine (hline : isCode .go line = true) (f : File) (number : Int) :
    Added line number f (f.addLine line number) := by
  unfold File.addLine
  split
  · exact .imported _ hline
  split
  · next fn hfn => exact .function hline hfn
  split
  · next fn hfn => exact .method hline hfn
  · exact .nothing

theorem added_step (state : Context × File) (line : String) (number : Int) :
    Added line number state.2 (step state line number).2 := by
  unfold step
  dsimp only
  split
  · exact .nothing
  split
  · exact .nothing
  split
  · exact .nothing
  next hskip =>
  have hline : isCode .go line = true := by
    simpa [isCode] using hskip
  split
  · exact .packaged _
  split
  · exact .nothing
  split
  · split
    · exact .nothing
    split
    · exact .imported _ hline
    · exact .nothing
  · exact File.added_addLine hline state.2 number

theorem File.ofLines_induct {P : List String → File → Prop} (hnone : P [] {})
    (hstep : ∀ done line f f', P done f → Added (strip line) done.length f f' →
      P (done ++ [line]) f')
    (lines : List String) : P lines (File.ofLines lines) := by
  have hall : ∀ rest done state, P done state.2 →
      P (done ++ rest) (readLines state done.length rest) := by
    intro rest
    induction rest with
    | nil =>
      intro done state h
      rwa [append_nil]
    | cons line rest ih =>
      intro done state h
      have hnext := ih (done ++ [line]) _ (hstep done line state.2 _ h (added_step state _ _))
      rw [append_assoc, singleton_append, length_append, length_singleton,
        Int.natCast_succ] at hnext
      rwa [readLines]
  have hlines := hall lines [] ({}, {}) hnone
  rwa [nil_append, length_nil, Int.natCast_zero] at hlines

section

variable {line : String} {number : Int} {f f' : File}

theorem Added.import_new (h : Added line number f f') {i : Import} (hi : i ∈ f'.imports) :
    i ∈ f.imports ∨ ∃ path, i = ⟨"import", [("path", path)], number + 1⟩ := by
  cases h with
  | imported path _ =>
    rcases mem_append.1 hi with hi | hi
    · exact .inl hi
    · exact .inr ⟨path, mem_singleton.1 hi⟩
  | nothing | packaged | function | method => exact .inl hi

theorem Added.function_new (h : Added line number f f') {fn : Function}
    (hfn : fn ∈ f'.functions) :
    fn ∈ f.functions ∨ Function.ofLine? bodyStart line number = some fn := by
  cases h with
  | function _ hfound =>
    rcases mem_append.1 hfn with hfn | hfn
    · exact .inl hfn
    · rw [mem_singleton.1 hfn]
      exact .inr hfound
  | nothing | packaged | imported | method => exact .inl hfn

theorem Added.method_new (h : Added line number f f') {fn : Function} (hfn : fn ∈ f'.methods) :
    fn ∈ f.methods ∨ Function.ofMethodLine? bodyStart line number = some fn := by
  cases h with
  | method _ hfound =>
    rcases mem_append.1 hfn with hfn | hfn
    · exact .inl hfn
    · rw [mem_singleton.1 hfn]
      exact .inr hfound
  | nothing | packaged | imported | function => exact .inl hfn

end

theorem File.import_origin (lines : List String) :
    ∀ i ∈ (File.ofLines lines).imports, ∃ path line, i = ⟨"import", [("path", path)], line⟩ := by
  refine File.ofLines_induct (P := fun _ f => ∀ i ∈ f.imports,
    ∃ path line, i = ⟨"import", [("path", path)], line⟩) (forall_mem_nil _) ?_ lines
  intro done line f f' ih hadded i hi
  rcases hadded.import_new hi with hold | ⟨path, hnew⟩
  · exact ih i hold
  · exact ⟨path, _, hnew⟩

theorem File.function_origin (lines : List String) :
    ∀ fn ∈ (File.ofLines lines).functions, ∃ (k : Nat) (line : String), lines[k]? = some line ∧
      Function.ofLine? bodyStart (strip line) k = some fn := by
  refine File.ofLines_induct (P := fun lines f => ∀ fn ∈ f.functions,
    ∃ (k : Nat) (line : String), lines[k]? = some line ∧
      Function.ofLine? bodyStart (strip line) k = some fn) (forall_mem_nil _) ?_ lines
  intro done line f f' ih hadded fn hfn
  exact exists_line_concat ((hadded.function_new hfn).imp_left (ih fn))

theorem File.method_origin (lines : List String) :
    ∀ fn ∈ (File.ofLines lines).methods, ∃ (k : Nat) (line : String), lines[k]? = some line ∧
      Function.ofMethodLine? bodyStart (strip line) k = some fn := by
  refine File.ofLines_induct (P := fun lines f => ∀ fn ∈ f.methods,
    ∃ (k : Nat) (line : String), lines[k]? = some line ∧
      Function.ofMethodLine? bodyStart (strip line) k = some fn) (forall_mem_nil _) ?_ lines
  intro done line f f' ih hadded fn hfn
  exact exists_line_concat ((hadded.method_new hfn).imp_left (ih fn))

end Go

/-! ## Records -/

theorem ofLines_goFile {path : String} (hl : Language.ofFileName path = .go)
    (lines : List String) :
    ofLines path lines = (Go.File.ofLines lines).toJson (Path.base path) := by
  unfold ofLines
  rw [hl]

theorem ofLines_entries {path : String} (hl : Language.ofFileName path ≠ .go)
    (lines : List String) :
    ofLines path lines = (Entries.ofLines (Language.ofFileName path) lines).toJson
      (Path.base path) (Language.ofFileName path) := by
  unfold ofLines
  generalize Language.ofFileName path = l at hl ⊢
  cases l with
  | go => exact absurd rfl hl
  | _ => rfl

end RepoWiki.Outline
