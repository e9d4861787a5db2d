import RepoWiki.Proofs.Outline.Heading
import RepoWiki.Proofs.Outline.Lines
import RepoWiki.Proofs.Text.Trim
/-
A Python file is read piece by piece.

Lines are stripped before they are read, so what a line gives is the same at every depth. The lines
before it only decide where a definition goes: to the latest class, if one has begun, and otherwise
to the functions of the file (`readLines_join`). So a definition at the left margin is a method as
soon as a class stands anywhere above it (`Entries.ofLines_definition`).
-/

namespace RepoWiki.Outline

open Callable Entries List Pattern Text

/-! ## Pieces of an outline -/

def Callable.asMethod (f : Callable) : Callable :=
  { f with isMethod := true }

def addMethods (fs : List Callable) : List ClassEntry → List ClassEntry
  | [] => []
  | [c] => [{ c with methods := c.methods ++ fs }]
  | c :: rest => c :: addMethods fs rest

theorem addMethods_append (fs : List Callable) (cs ds : List ClassEntry) (h : ds ≠ []) :
    addMethods fs (cs ++ ds) = cs ++ addMethods fs ds := by
  induction cs with
  | nil => rfl
  | cons c cs ih =>
    rw [cons_append, addMethods, ih]
    · rfl
    · simp [h]

theorem addMethods_concat (fs : List Callable) (cs : List ClassEntry) (c : ClassEntry) :
    addMethods fs (cs ++ [c]) = cs ++ [{ c with methods := c.methods ++ fs }] :=
  addMethods_append fs cs [c] (cons_ne_nil _ _)

/-- The entries of some lines behind those of the lines before them. What stands before the first
class of the new lines belongs to the latest class, if there is one. -/
def Entries.join (e piece : Entries) : Entries where
  imports := e.imports ++ piece.imports
  classes := addMethods (piece.functions.map asMethod) e.classes ++ piece.classes
  functions := if e.classes = [] then e.functions ++ piece.functions else e.functions

theorem Entries.join_outside {e : Entries} (h : e.classes = []) (piece : Entries) :
    e.join piece = ⟨e.imports ++ piece.imports, piece.classes, e.functions ++ piece.functions⟩ := by
  rw [join, h, if_pos rfl]
  rfl

theorem Entries.join_inside {e : Entries} {cs : List ClassEntry} {c : ClassEntry}
    (h : e.classes = cs ++ [c]) (piece : Entries) :
    e.join piece = ⟨e.imports ++ piece.imports,
      cs ++ { c with methods := c.methods ++ piece.functions.map asMethod } ::
        piece.classes,
      e.functions⟩ := by
  rw [join, h, addMethods_concat, if_neg (by simp), append_assoc]
  rfl

theorem Entries.classes_cases (e : Entries) :
    e.classes = [] ∨ ∃ cs c, e.classes = cs ++ [c] := by
  rcases eq_nil_or_concat e.classes with h | ⟨cs, c, h⟩
  · exact .inl h
  · exact .inr ⟨cs, c, by rw [h, concat_eq_append]⟩

theorem Entries.join_empty (e : Entries) : e.join {} = e := by
  rcases e.classes_cases with h | ⟨cs, c, h⟩
  · rw [join_outside h, ← h]
    simp
  · rw [join_inside h]
    simp [← h]

theorem Entries.empty_join (e : Entries) : ({} : Entries).join e = e := by
  rw [join_outside rfl]
  simp

theorem Entries.join_assoc (a b c : Entries) : (a.join b).join c = a.join (b.join c) := by
  rcases a.classes_cases with ha | ⟨as, last, ha⟩
  · rw [join_outside ha b, join_outside ha]
    rcases b.classes_cases with hb | ⟨bs, d, hb⟩
    · rw [join_outside hb, hb, join_outside rfl]
      simp
    · rw [join_inside hb, hb, join_inside rfl]
      simp
  · rw [join_inside ha b, join_inside ha]
    rcases b.classes_cases with hb | ⟨bs, d, hb⟩
    · rw [join_outside hb, hb, join_inside rfl]
      simp
    · -- The latest class is one of the second piece.
      have hclasses :
          as ++ { last with methods := last.methods ++ b.functions.map asMethod } ::
          b.classes = as ++ { last with
            methods := last.methods ++ b.functions.map asMethod } :: bs ++ [d] := by
        rw [hb]
        simp
      rw [join_inside hb, hclasses, join_inside rfl]
      simp

variable {f : Callable}

section

variable (e : Entries)

theorem Entries.join_import (i : Import) :
    e.join { imports := [i] } = { e with imports := e.imports ++ [i] } := by
  rcases e.classes_cases with h | ⟨cs, c, h⟩
  · simp [join_outside h, h]
  · simp [join_inside h, h]

theorem Entries.join_class (c : ClassEntry) :
    e.join { classes := [c] } = { e with classes := e.classes ++ [c] } := by
  rcases e.classes_cases with h | ⟨cs, d, h⟩
  · simp [join_outside h, h]
  · simp [join_inside h, h]

theorem Entries.join_callable (hf : f.isMethod = false) :
    e.join { functions := [f] } = e.addCallable { f with isMethod := !e.classes.isEmpty } := by
  rcases e.classes_cases with h | ⟨cs, c, h⟩
  · simp [join_outside h, h, addCallable, ← hf]
  · simp [join_inside h, h, addCallable, addMethod_concat, asMethod]

end

theorem Entries.empty_addCallable (hf : f.isMethod = false) :
    ({} : Entries).addCallable f = { functions := [f] } := by
  rw [addCallable, hf]
  rfl

/-! ## Lines -/

/-- The form of a method asks for blanks in front, and there are none left. -/
theorem pythonMethod_strip (line : String) : pythonMethod.match? (strip line) = none := by
  cases hline : (strip line).toList with
  | nil =>
    refine match?_eq_none fun cs gs h => ?_
    rw [hline] at h
    exact absurd (h.length_lt rfl) (Nat.not_lt_zero _)
  | cons c cs =>
    have hc : isBlank c = false := trimBy_start hline
    refine match?_eq_none_of_start rfl ?_ hline
    show (isBlank c || (false && _)) = false
    rw [hc]
    rfl

theorem Callable.ofLine?_python (inClass : Bool) (line : String) (number : Int) :
    ofLine? .python inClass (strip line) number =
      (ofLine? .python false (strip line) number).map
        fun f => { f with isMethod := inClass } := by
  unfold ofLine?
  cases inClass <;>
    simp [callableForms, CallableForm.plain, pythonMethod_strip, Function.comp_def]

theorem Callable.isMethod_ofLine?_python {line : String} {number : Int}
    (h : ofLine? .python false line number = some f) : f.isMethod = false := by
  obtain ⟨form, hform, m, -, rfl⟩ := ofLine?_eq_some h
  rw [mem_singleton.1 hform]
  rfl

theorem step_join (e : Entries) (line : String) (number : Int) :
    step .python e (strip line) number =
      e.join (step .python {} (strip line) number) := by
  unfold step
  split
  · exact e.join_empty.symm
  split
  · exact (e.join_import _).symm
  split
  · exact e.join_empty.symm
  split
  · exact (e.join_class _).symm
  rw [ofLine?_python (!e.classes.isEmpty), isEmpty_nil, Bool.not_true]
  cases hfound : ofLine? .python false (strip line) number with
  | none => exact e.join_empty.symm
  | some f =>
    have hf := isMethod_ofLine?_python hfound
    exact (e.join_callable hf).symm.trans (congrArg e.join (empty_addCallable hf).symm)

theorem readLines_join (e : Entries) (number : Int) (lines : List String) :
    readLines .python e number lines = e.join (readLines .python {} number lines) := by
  induction lines generalizing e number with
  | nil => exact e.join_empty.symm
  | cons line lines ih =>
    rw [readLines, readLines, ih, ih (step .python {} _ _), step_join, join_assoc]

theorem readLines_append (l : Language) (e : Entries) (number : Int) (lines more : List String) :
    readLines l e number (lines ++ more) =
      readLines l (readLines l e number lines) (number + lines.length) more := by
  induction lines generalizing e number with
  | nil => simp [readLines]
  | cons line lines ih =>
    have hnumber : number + (line :: lines).length = number + 1 + lines.length := by
      rw [length_cons]
      omega
    rw [cons_append, readLines, readLines, ih, hnumber]

theorem Entries.ofLines_cons (before after : List String) (line : String) :
    ofLines .python (before ++ line :: after) =
      (ofLines .python before).join
        ((step .python {} (strip line) before.length).join
          (readLines .python {} (before.length + 1) after)) := by
  rw [ofLines, ofLines, readLines_append, Int.zero_add,
    readLines_join _ _ (line :: after), readLines, readLines_join (step _ _ _ _)]

/-! ## Definitions -/

/-- A line that begins a definition, up to the first character after its parameters. Parameters end
at the first closing bracket. -/
structure Definition where
  name : String
  parameters : String
  next : Char

structure Defines (d : Definition) (line : String) : Prop where
  name_ne : d.name.toList ≠ []
  word : ∀ c ∈ d.name.toList, Text.isWord c = true
  closed : ')' ∉ d.parameters.toList
  next : Text.isBlank d.next = false
  written : ∃ gap gap₁ gap₂ rest, gap ≠ [] ∧ AllBlank gap ∧ AllBlank gap₁ ∧ AllBlank gap₂ ∧
    line.toList = "def".toList ++ (gap ++ (d.name.toList ++ (gap₁ ++ '(' ::
      (d.parameters.toList ++ ')' :: (gap₂ ++ d.next :: rest)))))

/-- What is told of a definition: nothing, unless a colon comes after the parameters. -/
def Definition.callables (d : Definition) (number : Int) (isMethod : Bool) : List Callable :=
  if d.next = ':' then [⟨d.name, d.parameters, none, none, number + 1, isMethod⟩] else []

def arrowResult : Pattern :=
  maybe (chain [word "->", blanks, .group 3 (.run (fun c => wordOr "[]," c || Text.isBlank c) 1)])

theorem takes_colon {gap rest : List Char} {c : Char} {gs gs' : Groups} (hgap : AllBlank gap)
    (hc : isBlank c = false) (harrow : c ≠ '-') :
    (∃ cs, Takes (chain [blanks, arrowResult, blanks, word ":"]) (gap ++ c :: rest) gs cs gs') ↔
      c = ':' ∧ gs' = gs := by
  constructor
  · rintro ⟨cs, h⟩
    obtain ⟨cs₁, gs₁, hblanks, htail⟩ := takes_chain_cons.1 h
    obtain ⟨rfl, left, hleft, rfl⟩ := takes_run_cut hc hblanks
    have hblank : AllBlank left := fun d hd => hgap d (hleft.subset hd)
    obtain ⟨cs₂, gs₂, hresult, hend⟩ := takes_chain_cons.1 htail
    rcases takes_maybe.1 hresult with hresult | ⟨rfl, rfl⟩
    · obtain ⟨cs₃, gs₃, hword, -⟩ := takes_chain_cons.1 hresult
      exact absurd (hblank.start (by decide) ((takes_word "->").1 hword).1) harrow
    · obtain ⟨cs₃, gs₃, hblanks, hcolon⟩ := takes_chain_cons.1 hend
      obtain ⟨rfl, left', hleft', rfl⟩ := takes_run_cut hc hblanks
      have hblank' : AllBlank left' := fun d hd => hblank d (hleft'.subset hd)
      obtain ⟨hcs, rfl⟩ := (takes_word ":").1 hcolon
      exact ⟨hblank'.start (by decide) hcs, rfl⟩
  · rintro ⟨rfl, rfl⟩
    have hcolon : Takes (word ":") (':' :: rest) gs' rest gs' := (takes_word ":").2 ⟨rfl, rfl⟩
    exact ⟨rest, .seq (.run hgap (Nat.zero_le _) _ _) (.seq (.right _ (.nothing _ _))
      (.seq (.run (forall_mem_nil _) (Nat.le_refl 0) _ _) hcolon))⟩

namespace Defines

variable {d : Definition} {line : String} (hd : Defines d line)
include hd

theorem takes_function (harrow : d.next ≠ '-') :
    ∃ x y, ∀ gs', (∃ cs, Takes pythonFunction line.toList [] cs gs') ↔ d.next = ':' ∧
      gs' = [(2, d.parameters.toList ++ y, y), (1, d.name.toList ++ x, x)] := by
  obtain ⟨gap, gap₁, gap₂, rest, hne, hgap, hgap₁, hgap₂, hline⟩ := hd.written
  have hstart : ∀ tail, ∃ c cs, d.name.toList ++ tail = c :: cs ∧ isBlank c = false := by
    intro tail
    obtain ⟨c, cs, hcs, hc⟩ := word_start hd.name_ne hd.word tail
    exact ⟨c, cs, hcs, isBlank_of_isWord hc⟩
  rw [hline]
  exact ⟨_, _, fun gs' => (exists_congr fun cs =>
    (takes_keyword "def" hne hgap (hstart _) rfl
      fun c hc => mayStart_name (isWord_of_isBlank hc)).trans
        (takes_heading hd.name_ne hd.word hgap₁ hd.closed 1 2)).trans
          (takes_colon hgap₂ hd.next harrow)⟩

theorem start : ∃ rest, line.toList = 'd' :: rest := by
  obtain ⟨gap, gap₁, gap₂, rest, -, -, -, -, hline⟩ := hd.written
  exact ⟨_, hline⟩

theorem ofLine?_eq (harrow : d.next ≠ '-') (number : Int) :
    (ofLine? .python false line number).toList = d.callables number false := by
  obtain ⟨x, y, hways⟩ := hd.takes_function harrow
  have hfound : ofLine? .python false line number =
      (pythonFunction.match? line).map fun m =>
        ⟨m.group 1, m.group 2, m.group? 3, none, number + 1, false⟩ := by
    simp [ofLine?, callableForms, CallableForm.plain]
  rw [hfound, Definition.callables]
  by_cases hcolon : d.next = ':'
  · obtain ⟨cs, htakes⟩ := (hways _).2 ⟨hcolon, rfl⟩
    obtain ⟨m, hm, hgroups⟩ := exists_match?_groups rfl htakes
      fun cs' gs' htakes' => ((hways gs').1 ⟨cs', htakes'⟩).2
    have hname : m.group 1 = d.name := by
      rw [@group_of_groups m 1 [_] [] _ _ hgroups (by simp), String.ofList_toList]
    have hparameters : m.group 2 = d.parameters := by
      rw [@group_of_groups m 2 [] _ _ _ hgroups (forall_mem_nil _), String.ofList_toList]
    have hresult : m.group? 3 = none := by
      rw [Found.group?, hgroups]
      rfl
    rw [hm, if_pos hcolon, ← hname, ← hparameters, ← hresult]
    rfl
  · have hnone : pythonFunction.match? line = none :=
      match?_eq_none fun cs gs htakes => hcolon ((hways gs).1 ⟨cs, htakes⟩).1
    rw [hnone, if_neg hcolon]
    rfl

theorem step_definition (harrow : d.next ≠ '-') (number : Int) :
    step .python {} line number = { functions := d.callables number false } := by
  obtain ⟨rest, hstart⟩ := hd.start
  have hline : line ≠ "" := by
    rintro rfl
    cases hstart
  have himport : Import.find? (Import.forms .python) line number = none := by
    refine findSome?_eq_none_iff.2 fun form hform => ?_
    rcases mem_cons.1 hform with rfl | hform
    · rw [match?_eq_none_of_start rfl rfl hstart]
      rfl
    · rw [mem_singleton.1 hform, match?_eq_none_of_start rfl rfl hstart]
      rfl
  have hcomment : Language.isComment .python line = false := by
    show "#".toList.isPrefixOf line.toList = false
    rw [hstart]
    rfl
  have hclass : ClassEntry.ofLine? .python line number = none := by
    show (pythonClass.match? line).map _ = none
    rw [match?_eq_none_of_start rfl rfl hstart]
    rfl
  rw [← hd.ofLine?_eq harrow, step, if_neg hline, himport]
  dsimp only
  rw [if_neg (by rw [hcomment]; decide), hclass, isEmpty_nil, Bool.not_true]
  cases hfound : ofLine? .python false line number with
  | none => rfl
  | some f => exact empty_addCallable (isMethod_ofLine?_python hfound)

end Defines

theorem Definition.map_asMethod (d : Definition) (number : Int) :
    (d.callables number false).map asMethod = d.callables number true := by
  rw [callables, callables]
  split <;> rfl

/-- A definition on a line of any depth goes to the functions of the file if no class has begun
before it, and otherwise to the latest class, even from the left margin. If something else than a
colon comes after the first closing bracket, it is not told of at all. The rest of the outline is as
with an empty line instead. -/
theorem Entries.ofLines_definition {d : Definition} {line : String}
    (hd : Defines d (Text.strip line)) (harrow : d.next ≠ '-') (before after : List String) :
    ∃ imports loose more,
      ((ofLines .python before).classes = [] →
        ofLines .python (before ++ "" :: after) =
          ⟨imports, more, (ofLines .python before).functions ++ loose⟩ ∧
        ofLines .python (before ++ line :: after) =
          ⟨imports, more, (ofLines .python before).functions ++
            (d.callables before.length false ++ loose)⟩) ∧
      ∀ cs c, (ofLines .python before).classes = cs ++ [c] →
        ofLines .python (before ++ "" :: after) =
          ⟨imports, cs ++ { c with methods := c.methods ++ loose.map asMethod } :: more,
            (ofLines .python before).functions⟩ ∧
        ofLines .python (before ++ line :: after) =
          ⟨imports, cs ++ { c with methods := c.methods ++ (d.callables before.length true ++
            loose.map asMethod) } :: more,
              (ofLines .python before).functions⟩ := by
  have hempty : ofLines .python (before ++ "" :: after) =
      (ofLines .python before).join (readLines .python {} (before.length + 1) after) := by
    rw [ofLines_cons, show step .python {} (Text.strip "") before.length = {} from rfl, empty_join]
  have hline : ofLines .python (before ++ line :: after) =
      (ofLines .python before).join (join { functions := d.callables before.length false }
        (readLines .python {} (before.length + 1) after)) := by
    rw [ofLines_cons, hd.step_definition harrow]
  generalize readLines .python {} (before.length + 1) after = rest at hempty hline
  refine ⟨(ofLines .python before).imports ++ rest.imports, rest.functions, rest.classes,
    fun hnone => ?_, fun cs c hsome => ?_⟩
  · rw [hempty, hline, join_outside hnone, join_outside hnone, join_outside rfl]
    exact ⟨rfl, rfl⟩
  · rw [hempty, hline, join_inside hsome, join_inside hsome, join_outside rfl, List.map_append,
      d.map_asMethod]
    exact ⟨rfl, rfl⟩

theorem defines_plain : Defines ⟨"f", "a", ':'⟩ (strip "def f(a):") := by
  rw [show strip "def f(a):" = "def f(a):" by decide +kernel]
  refine ⟨by decide, all_eq_true.1 rfl, by decide, by decide, [' '], [], [], [], ?_⟩
  exact ⟨by decide, by decide, by decide, by decide, rfl⟩

theorem Entries.ofLines_definition_margin :
    Defines ⟨"f", "a", ':'⟩ (Text.strip "def f(a):") ∧
      (ofLines .python ["class A:"]).classes = [] ++ [⟨"A", none, [], 1⟩] ∧
      ∃ (imports : List Import) (loose : List Callable) (more : List ClassEntry),
        ofLines .python ["class A:", "def f(a):", "x = 1"] =
          ⟨imports, ⟨"A", none, [⟨"f", "a", none, none, 2, true⟩] ++
            loose.map asMethod, 1⟩ ::
            more, []⟩ := by
  have hclasses : (ofLines .python ["class A:"]).classes = [] ++ [⟨"A", none, [], 1⟩] := by
    decide +kernel
  have hfunctions : (ofLines .python ["class A:"]).functions = [] := by decide +kernel
  obtain ⟨imports, loose, more, -, hinside⟩ :=
    ofLines_definition defines_plain (by decide) ["class A:"] ["x = 1"]
  obtain ⟨-, houtline⟩ := hinside _ _ hclasses
  rw [hfunctions] at houtline
  exact ⟨defines_plain, hclasses, imports, loose, more, houtline⟩

/-- A function at the left margin is told of as a method of the class above it. One with a call
among its parameters is not told of, even where there is no class. -/
theorem Entries.margin_definition_misplaced :
    ofLines .python ["class A: pass", "def f(a):"] =
        { classes := [⟨"A", none, [⟨"f", "a", none, none, 2, true⟩], 1⟩] } ∧
      ofLines .python ["def f(a=g()):"] = {} := by
  constructor
  · have hclass : ofLines .python ["class A: pass"] =
        { classes := [⟨"A", none, [], 1⟩] } := by decide +kernel
    have hlines := ofLines_cons ["class A: pass"] [] "def f(a):"
    rw [defines_plain.step_definition (by decide), hclass] at hlines
    exact hlines.trans (by decide +kernel)
  · have hcall : Defines ⟨"f", "a=g(", ')'⟩ (Text.strip "def f(a=g()):") := by
      rw [show Text.strip "def f(a=g()):" = "def f(a=g()):" by decide +kernel]
      refine ⟨by decide, List.all_eq_true.1 rfl, by decide, by decide, [' '], [], [], [':'], ?_⟩
      exact ⟨by decide, by decide, by decide, by decide, rfl⟩
    have hlines := ofLines_cons [] [] "def f(a=g()):"
    rw [hcall.step_definition (by decide)] at hlines
    exact hlines.trans (by decide +kernel)

end RepoWiki.Outline
