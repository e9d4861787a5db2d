import RepoWiki.Proofs.Outline.LineNumbers
import RepoWiki.Proofs.Text.Trim
/-
Functions and methods are reported as their lines show them.

All forms of lines with a function have one layout: a name, a gap, and parameters in round brackets,
with other parts before and after (`Layout`). So the name and the parameters of a match stand side
by side in the line, whatever else the form has (`Layout.parts`).
-/

namespace RepoWiki

open List Text

namespace Text

theorem isInfix_strip (s : String) : (strip s).toList <:+: s.toList := by
  obtain ⟨before, after, -, -, hs⟩ := exists_around isBlank s
  exact ⟨before, after, by rw [hs, strip, append_assoc]⟩

end Text

namespace Outline

open Pattern

variable {line : String} {l : Language}

/-! ## Layouts -/

/-- A pattern with a name as group `i`, then a gap, then parameters as group `j`, and at its end
`last`. -/
def Layout (p : Pattern) (i j : Nat) (gap last : List Pattern) : Prop :=
  ∃ lead tail, p = chain (lead ++ .group i name :: (gap ++ parameterList j :: (tail ++ last))) ∧
    i ∉ j :: (gap ++ (tail ++ last)).flatMap numbers ∧ j ∉ (tail ++ last).flatMap numbers

variable {cs : List Char} {j : Nat} {gap : List Pattern}

theorem takes_parameterList {cs' : List Char} {gs gs' : Groups}
    (h : Takes (parameterList j) cs gs cs' gs') :
    ∃ inside, ')' ∉ inside ∧ cs = '(' :: (inside ++ ')' :: cs') ∧
      gs' = (j, inside ++ ')' :: cs', ')' :: cs') :: gs := by
  obtain ⟨cs₁, gs₁, hopen, h⟩ := takes_chain_cons.1 h
  obtain ⟨cs₂, gs₂, hgroup, h⟩ := takes_chain_cons.1 h
  obtain ⟨cs₃, gs₃, hclose, h⟩ := takes_chain_cons.1 h
  obtain ⟨rfl, rfl⟩ := (takes_word "(").1 hopen
  obtain ⟨inner, rfl, hrun⟩ := takes_group.1 hgroup
  obtain ⟨rfl, inside, rfl, hinside, -⟩ := takes_run.1 hrun
  obtain ⟨rfl, rfl⟩ := (takes_word ")").1 hclose
  cases h
  refine ⟨inside, fun hmem => ?_, rfl, rfl⟩
  have hout := hinside ')' hmem
  revert hout
  decide

theorem Layout.parts {p : Pattern} {i : Nat} {last : List Pattern} (h : Layout p i j gap last)
    {m : Found} (hm : p.match? line = some m) :
    m.group i ≠ "" ∧ (∀ c ∈ (m.group i).toList, isWord c = true) ∧
      ')' ∉ (m.group j).toList ∧ ∃ between rest,
        (∃ cs gs gs', Takes (chain gap) (between ++ cs) gs cs gs') ∧
        (∃ cs gs cs' gs', Takes (chain last) cs gs cs' gs' ∧ cs <:+ rest) ∧
        (m.group i).toList ++ (between ++ '(' :: ((m.group j).toList ++ ')' :: rest)) <:+
          line.toList := by
  obtain ⟨lead, tail, rfl, hi, hj⟩ := h
  obtain ⟨cs₁, gs₁, hlead, h⟩ := takes_chain_append.1 (takes_of_match? hm)
  obtain ⟨cs₂, gs₂, hname, h⟩ := takes_chain_cons.1 h
  obtain ⟨cs₃, gs₃, hgap, h⟩ := takes_chain_append.1 h
  obtain ⟨cs₄, gs₄, hparameters, htail⟩ := takes_chain_cons.1 h
  obtain ⟨inner, rfl, hrun⟩ := takes_group.1 hname
  obtain ⟨rfl, word, rfl, hword, hlength⟩ := takes_run.1 hrun
  obtain ⟨⟨between, rfl⟩, newGap, rfl, hnewGap⟩ := hgap.grows
  obtain ⟨inside, hinside, rfl, rfl⟩ := takes_parameterList hparameters
  obtain ⟨-, newTail, hgroups, hnewTail⟩ := htail.grows
  rw [News, numbers_chain] at hnewGap hnewTail
  rw [mem_cons, flatMap_append, mem_append, not_or, not_or] at hi
  obtain ⟨hij, higap, hitail⟩ := hi
  -- No later part of the pattern has a group of the same number.
  have hgroupJ : m.group j = String.ofList inside :=
    group_of_groups hgroups fun g hg heq => hj (heq ▸ (hnewTail g hg).1)
  have hgroupI : m.group i = String.ofList word := by
    rw [← cons_append, ← append_assoc] at hgroups
    refine group_of_groups hgroups fun g hg heq => ?_
    rcases mem_append.1 hg with hg | hg
    · exact hitail (heq ▸ (hnewTail g hg).1)
    · rcases mem_cons.1 hg with rfl | hg
      · exact hij heq.symm
      · exact higap (heq ▸ (hnewGap g hg).1)
  obtain ⟨cs₅, gs₅, hmiddle, hlast⟩ := takes_chain_append.1 htail
  obtain ⟨before, hline⟩ := hlead.grows.1
  rw [hgroupI, hgroupJ, String.toList_ofList, String.toList_ofList]
  refine ⟨fun hempty => ?_, hword, hinside, between, cs₄, ⟨_, _, _, hgap⟩,
    ⟨cs₅, _, _, _, hlast, hmiddle.grows.1⟩, before, hline⟩
  rw [String.ofList_eq_empty_iff] at hempty
  rw [hempty] at hlength
  cases hlength

/-! ## What a line shows -/

/-- What may stand between a name and its parameters: blanks, or among them the equals sign of an
arrow function, whose arrow is in the rest of the line. -/
def IsGap (l : Language) (gap rest : List Char) : Prop :=
  (∀ c ∈ gap, Text.isBlank c = true) ∨
    (l = .javascript ∨ l = .typescript) ∧ ['=', '>'] <:+: rest ∧
      ∃ before after, gap = before ++ '=' :: after ∧
        (∀ c ∈ before, Text.isBlank c = true) ∧ ∀ c ∈ after, Text.isBlank c = true

/-- A line in which a word stands before parameters in round brackets. In Go there may be blanks
around the parameters. -/
structure Shows (l : Language) (line name parameters : String) : Prop where
  name_ne : name ≠ ""
  word : ∀ c ∈ name.toList, Text.isWord c = true
  closed : ')' ∉ parameters.toList
  shown : ∃ gap before after rest, IsGap l gap rest ∧
    (∀ c ∈ before ++ after, Text.isBlank c = true) ∧ (l ≠ .go → before = [] ∧ after = []) ∧
    name.toList ++ (gap ++ '(' :: (before ++ (parameters.toList ++ (after ++ ')' :: rest)))) <:+
      line.toList

theorem blank_of_takes_blanks {between : List Char} {gs gs' : Groups}
    (h : Takes (chain [blanks]) (between ++ cs) gs cs gs') : ∀ c ∈ between, isBlank c = true := by
  obtain ⟨-, taken, htaken, hblank, -⟩ := takes_run.1 h
  rw [append_cancel_right htaken]
  exact hblank

theorem split_of_takes_equals {between : List Char} {gs gs' : Groups}
    (h : Takes (chain [blanks, word "=", blanks]) (between ++ cs) gs cs gs') :
    ∃ before after, between = before ++ '=' :: after ∧
      (∀ c ∈ before, isBlank c = true) ∧ ∀ c ∈ after, isBlank c = true := by
  obtain ⟨cs₁, gs₁, hleft, h⟩ := takes_chain_cons.1 h
  obtain ⟨cs₂, gs₂, hequals, hright⟩ := takes_chain_cons.1 h
  obtain ⟨-, before, hcs, hbefore, -⟩ := takes_run.1 hleft
  obtain ⟨rfl, -⟩ := (takes_word "=").1 hequals
  obtain ⟨-, after, rfl, hafter, -⟩ := takes_run.1 hright
  refine ⟨before, after, ?_, hbefore, hafter⟩
  refine append_cancel_right (hcs.trans ?_)
  simp only [append_assoc, cons_append]
  rfl

section

variable {p : Pattern} {i j : Nat} {line : String} {m : Found} (hm : p.match? line = some m)
include hm

theorem Layout.shows (h : Layout p i j [blanks] []) : Shows l line (m.group i) (m.group j) := by
  obtain ⟨hne, hword, hclosed, between, rest, ⟨cs, gs, gs', hbetween⟩, -, hline⟩ := h.parts hm
  exact ⟨hne, hword, hclosed, between, [], [], rest, .inl (blank_of_takes_blanks hbetween),
    forall_mem_nil _, fun _ => ⟨rfl, rfl⟩, hline⟩

theorem Layout.shows_arrow (hl : l = .javascript ∨ l = .typescript)
    (h : Layout p i j [blanks, word "=", blanks] [word "=>"]) :
    Shows l line (m.group i) (m.group j) := by
  obtain ⟨hne, hword, hclosed, between, rest, ⟨cs, gs, gs', hbetween⟩,
    ⟨cs₁, gs₁, cs₂, gs₂, harrow, hrest⟩, hline⟩ := h.parts hm
  obtain ⟨rfl, -⟩ := (takes_word "=>").1 harrow
  have hinside : ['=', '>'] <:+: rest :=
    (prefix_append ['=', '>'] cs₂).isInfix.trans hrest.isInfix
  exact ⟨hne, hword, hclosed, between, [], [], rest,
    .inr ⟨hl, hinside, split_of_takes_equals hbetween⟩, forall_mem_nil _,
    fun _ => ⟨rfl, rfl⟩, hline⟩

theorem Layout.shows_stripped (h : Layout p i j [blanks] []) :
    Shows .go line (m.group i) (strip (m.group j)) := by
  obtain ⟨hne, hword, hclosed, between, rest, ⟨cs, gs, gs', hbetween⟩, -, hline⟩ := h.parts hm
  obtain ⟨before, after, hbefore, hafter, hstrip⟩ :=
    exists_around isBlank (m.group j)
  refine ⟨hne, hword, fun hmem => hclosed ((isInfix_strip _).subset hmem), between, before, after,
    rest, .inl (blank_of_takes_blanks hbetween), fun c hc => ?_, fun hgo => absurd rfl hgo, ?_⟩
  · rcases mem_append.1 hc with hc | hc
    · exact hbefore c hc
    · exact hafter c hc
  · rw [hstrip] at hline
    simpa only [strip, append_assoc] using hline

end

/-! ## Forms -/

theorem Layout.of_drop {parts last : List Pattern} {i : Nat} (n : Nat) (tail : List Pattern)
    (h : parts.drop n = .group i name :: (gap ++ parameterList j :: (tail ++ last)))
    (hi : i ∉ j :: (gap ++ (tail ++ last)).flatMap numbers)
    (hj : j ∉ (tail ++ last).flatMap numbers) : Layout (chain parts) i j gap last :=
  ⟨parts.take n, tail, by rw [← h, take_append_drop], hi, hj⟩

theorem Layout.of_drop_nil {parts tail : List Pattern} {i : Nat} (n : Nat)
    (h : parts.drop n = .group i name :: (gap ++ parameterList j :: tail))
    (hi : i ∉ j :: (gap ++ tail).flatMap numbers) (hj : j ∉ tail.flatMap numbers) :
    Layout (chain parts) i j gap [] := by
  rw [← append_nil tail] at h hi hj
  exact .of_drop n tail h hi hj

theorem layout_pythonMethod : Layout pythonMethod 1 2 [blanks] [] :=
  .of_drop_nil 3 rfl (by decide) (by decide)

theorem layout_pythonFunction : Layout pythonFunction 1 2 [blanks] [] :=
  .of_drop_nil 2 rfl (by decide) (by decide)

theorem layout_typedFunction (modifiers : List String) :
    Layout (typedFunction modifiers) 3 4 [blanks] [] :=
  .of_drop_nil 4 rfl (by decide) (by decide)

theorem layout_cFunction : Layout cFunction 2 3 [blanks] [] :=
  .of_drop_nil 2 rfl (by decide) (by decide)

theorem layout_javascriptMethod : Layout javascriptMethod 1 2 [blanks] [] :=
  .of_drop_nil 1 rfl (by decide) (by decide)

theorem layout_javascriptFunction : Layout javascriptFunction 1 2 [blanks] [] :=
  .of_drop_nil 1 rfl (by decide) (by decide)

theorem layout_javascriptArrow :
    Layout javascriptArrow 1 2 [blanks, word "=", blanks] [word "=>"] :=
  .of_drop 3 [blanks] rfl (by decide) (by decide)

theorem layout_typescriptMethod : Layout typescriptMethod 1 2 [blanks] [] :=
  .of_drop_nil 2 rfl (by decide) (by decide)

theorem layout_typescriptFunction : Layout typescriptFunction 1 2 [blanks] [] :=
  .of_drop_nil 1 rfl (by decide) (by decide)

theorem layout_typescriptArrow :
    Layout typescriptArrow 1 2 [blanks, word "=", blanks] [word "=>"] :=
  .of_drop 3 [blanks, resultAfter ":" 3, blanks] rfl (by decide) (by decide)

theorem numbers_resultAfter (mark : String) (n : Nat) : (resultAfter mark n).numbers = [n] := by
  show (chain [word mark, blanks, .group n (.run (noneOf "\x7b") 1)]).numbers ++ [] = [n]
  rw [append_nil, numbers_chain, flatMap_cons, numbers_word, nil_append]
  rfl

theorem layout_keywordFunction (keyword mark : String) :
    Layout (keywordFunction keyword mark) 1 2 [blanks] [] := by
  have hnumbers :
      ([blanks, resultAfter mark 3, openBrace] : List Pattern).flatMap numbers = [3] := by
    rw [flatMap_cons, flatMap_cons, numbers_resultAfter]
    rfl
  refine .of_drop_nil 2 rfl ?_ ?_
  · rw [flatMap_append, hnumbers]
    decide
  · rw [hnumbers]
    decide

theorem layout_goFunction : Layout (Go.functionLine Go.bodyStart) 1 2 [blanks] [] :=
  .of_drop_nil 2 rfl (by decide) (by decide)

theorem layout_goMethod : Layout (Go.methodLine Go.bodyStart) 2 3 [blanks] [] :=
  .of_drop_nil 6 rfl (by decide) (by decide)

/-- A function or method as its line shows it. Where results are not written in the language, the
result is a matter of the name. -/
structure Declares (l : Language) (line : String) (f : Callable) : Prop where
  shows : Shows l line f.name f.parameters
  result : ∀ t, f.returnType = some t →
    if l = .javascript then t = impliedResult f.name else t.toList <:+: line.toList
  modifiers : ∀ t, f.modifiers = some t → t.toList <:+: line.toList

section

variable {l : Language} {p : Pattern} {line : String} {m : Found} (hm : p.match? line = some m)
  (isMethod : Bool) (n : Int)
include hm

theorem declares_plain (hl : l ≠ .javascript) (h : Shows l line (m.group 1) (m.group 2)) :
    Declares l line ((CallableForm.plain p isMethod).make m n) := by
  refine ⟨h, fun t ht => ?_, nofun⟩
  rw [if_neg hl]
  exact infix_of_group? hm ht

theorem declares_typed (hl : l ≠ .javascript) (h : Shows l line (m.group 3) (m.group 4)) :
    Declares l line ((CallableForm.typed p isMethod).make m n) := by
  refine ⟨h, fun t ht => ?_, fun t ht => ?_⟩
  · rw [if_neg hl, ← Option.some.inj ht]
    exact (isInfix_strip _).trans (infix_of_group hm 2)
  · rw [← Option.some.inj ht]
    exact (isInfix_strip _).trans (infix_of_group hm 1)

theorem declares_typeFirst (hl : l ≠ .javascript) (h : Shows l line (m.group 2) (m.group 3)) :
    Declares l line ((CallableForm.typeFirst p isMethod).make m n) := by
  refine ⟨h, fun t ht => ?_, nofun⟩
  rw [if_neg hl, ← Option.some.inj ht]
  exact (isInfix_strip _).trans (infix_of_group hm 1)

end

theorem declares_implied {m : Found} (p : Pattern) (isMethod : Bool) (n : Int)
    (h : Shows .javascript line (m.group 1) (m.group 2)) :
    Declares .javascript line ((CallableForm.implied p isMethod).make m n) := by
  refine ⟨h, fun t ht => ?_, nofun⟩
  rw [if_pos rfl]
  exact (Option.some.inj ht).symm

theorem declares_of_form {inClass : Bool} {form : CallableForm}
    (hform : form ∈ callableForms l inClass) {m : Found} (hm : form.pattern.match? line = some m)
    (n : Int) : Declares l line (form.make m n) := by
  cases l with
  | python =>
    rcases mem_append.1 hform with hform | hform
    · split at hform
      · rw [mem_singleton.1 hform] at hm ⊢
        exact declares_plain hm _ n (by decide) (layout_pythonMethod.shows hm)
      · cases hform
    · rw [mem_singleton.1 hform] at hm ⊢
      exact declares_plain hm _ n (by decide) (layout_pythonFunction.shows hm)
  | java | csharp =>
    rw [mem_singleton.1 hform] at hm ⊢
    exact declares_typed hm _ n (by decide) ((layout_typedFunction _).shows hm)
  | cFamily =>
    rw [mem_singleton.1 hform] at hm ⊢
    exact declares_typeFirst hm _ n (by decide) (layout_cFunction.shows hm)
  | javascript =>
    rcases mem_append.1 hform with hform | hform
    · split at hform
      · rw [mem_singleton.1 hform] at hm ⊢
        exact declares_implied _ _ n (layout_javascriptMethod.shows hm)
      · cases hform
    · rcases mem_cons.1 hform with rfl | hform
      · exact declares_implied _ _ n (layout_javascriptFunction.shows hm)
      · rw [mem_singleton.1 hform] at hm ⊢
        exact declares_implied _ _ n (layout_javascriptArrow.shows_arrow hm (.inl rfl))
  | typescript =>
    rcases mem_append.1 hform with hform | hform
    · split at hform
      · rw [mem_singleton.1 hform] at hm ⊢
        exact declares_plain hm _ n (by decide) (layout_typescriptMethod.shows hm)
      · cases hform
    · rcases mem_cons.1 hform with rfl | hform
      · exact declares_plain hm _ n (by decide) (layout_typescriptFunction.shows hm)
      · rw [mem_singleton.1 hform] at hm ⊢
        exact declares_plain hm _ n (by decide)
          (layout_typescriptArrow.shows_arrow hm (.inr rfl))
  | rust | php | swift =>
    rw [mem_singleton.1 hform] at hm ⊢
    exact declares_plain hm _ n (by decide) ((layout_keywordFunction _ _).shows hm)
  | go | html | css | unknown => cases hform

theorem declares_callable {lines : List String} {f : Callable}
    (hf : f ∈ (Entries.ofLines l lines).callables) :
    ∃ (k : Nat) (line : String), f.line = k + 1 ∧ lines[k]? = some line ∧
      Declares l (strip line) f := by
  obtain ⟨k, line, hline, inClass, hfound⟩ := Entries.callable_origin l lines f hf
  refine ⟨k, line, line_of_callable hfound, hline, ?_⟩
  obtain ⟨form, hform, m, hm, rfl⟩ := Callable.ofLine?_eq_some hfound
  exact declares_of_form hform hm _

def Go.Function.toCallable (fn : Go.Function) : Callable :=
  ⟨fn.name, fn.parameters, some fn.returnTypes, none, fn.line, fn.receiver.isSome⟩

theorem declares_goFunction {lines : List String} {fn : Go.Function}
    (hfn : fn ∈ (Go.File.ofLines lines).functions ∨ fn ∈ (Go.File.ofLines lines).methods) :
    ∃ (k : Nat) (line : String), fn.line = k + 1 ∧ lines[k]? = some line ∧
      Declares .go (strip line) fn.toCallable := by
  have hresult : ∀ {p : Pattern} {line : String} {m : Found} (n : Nat), p.match? line = some m →
      ∀ t, some (strip (m.group n)) = some t → t.toList <:+: line.toList := by
    intro p line m n hm t ht
    rw [← Option.some.inj ht]
    exact (isInfix_strip _).trans (infix_of_group hm n)
  rcases hfn with hfn | hfn
  · obtain ⟨k, line, hline, hfound⟩ := Go.File.function_origin lines fn hfn
    obtain ⟨m, hm, rfl⟩ := Option.map_eq_some_iff.1 hfound
    exact ⟨k, line, rfl, hline, layout_goFunction.shows_stripped hm, hresult 3 hm, nofun⟩
  · obtain ⟨k, line, hline, hfound⟩ := Go.File.method_origin lines fn hfn
    obtain ⟨m, hm, rfl⟩ := Option.map_eq_some_iff.1 hfound
    exact ⟨k, line, rfl, hline, layout_goMethod.shows_stripped hm, hresult 4 hm, nofun⟩

/-! ## Records -/

def resultLabel (l : Language) : String :=
  if l = .go then "return_types" else "return_type"

/-- An object that tells of a function or method. A result or modifiers it does not know are null or
left out. -/
structure Tells (l : Language) (r : Json) (f : Callable) : Prop where
  name : r.item "name" = .ok (.str f.name)
  parameters : r.item "parameters" = .ok (.str f.parameters)
  result : r.get (resultLabel l) = .ok (Json.ofText? f.returnType)
  modifiers : r.get "modifiers" = .ok (Json.ofText? f.modifiers)
  onLine : OnLine r f.line

/-- The functions and methods in a record, those of its classes among them. -/
def Reported (record r : Json) : Prop :=
  ∃ lists, Report.Lists.of record = .ok lists ∧ (r ∈ lists.functions ∨ r ∈ lists.methods ∨
    ∃ c ∈ lists.classes, ∃ ms, Report.listed c "methods" = .ok ms ∧ r ∈ ms)

theorem tells_callable (hl : l ≠ .go) (f : Callable) : Tells l f.toJson f := by
  have hlabel : resultLabel l = "return_type" := if_neg hl
  refine ⟨rfl, rfl, ?_, ?_, onLine_callable f⟩
  · rw [hlabel]
    rfl
  · rw [Callable.toJson]
    cases f.modifiers <;> rfl

theorem tells_goFunction (fn : Go.Function) : Tells .go fn.toJson fn.toCallable := by
  refine ⟨?_, ?_, ?_, ?_, onLine_goFunction fn⟩ <;> rw [Go.Function.toJson] <;>
    cases fn.receiver <;> rfl

theorem reported_entries {name : String} {e : Entries} {r : Json} :
    Reported (e.toJson name l) r ↔ ∃ f ∈ e.callables, r = f.toJson := by
  rw [Entries.callables]
  constructor
  · rintro ⟨lists, hlists, hr⟩
    obtain rfl := Except.ok.inj hlists
    rcases hr with hr | hr | ⟨c, hc, ms, hms, hr⟩
    · obtain ⟨f, hf, rfl⟩ := mem_map.1 hr
      exact ⟨f, mem_append_left _ hf, rfl⟩
    · cases hr
    · obtain ⟨d, hd, rfl⟩ := mem_map.1 hc
      obtain rfl := Except.ok.inj hms
      obtain ⟨f, hf, rfl⟩ := mem_map.1 hr
      exact ⟨f, mem_append_right _ (mem_flatMap.2 ⟨d, hd, hf⟩), rfl⟩
  · rintro ⟨f, hf, rfl⟩
    refine ⟨_, rfl, ?_⟩
    rcases mem_append.1 hf with hf | hf
    · exact .inl (mem_map_of_mem hf)
    · obtain ⟨d, hd, hf⟩ := mem_flatMap.1 hf
      exact .inr (.inr ⟨_, mem_map_of_mem hd, _, rfl, mem_map_of_mem hf⟩)

theorem reported_goFile {name : String} {file : Go.File} {r : Json} :
    Reported (file.toJson name) r ↔
      ∃ fn, (fn ∈ file.functions ∨ fn ∈ file.methods) ∧ r = fn.toJson := by
  constructor
  · rintro ⟨lists, hlists, hr⟩
    obtain rfl := Except.ok.inj hlists
    rcases hr with hr | hr | ⟨c, hc, -⟩
    · obtain ⟨fn, hfn, rfl⟩ := mem_map.1 hr
      exact ⟨fn, .inl hfn, rfl⟩
    · obtain ⟨fn, hfn, rfl⟩ := mem_map.1 hr
      exact ⟨fn, .inr hfn, rfl⟩
    · cases hc
  · rintro ⟨fn, hfn | hfn, rfl⟩
    · exact ⟨_, rfl, .inl (mem_map_of_mem hfn)⟩
    · exact ⟨_, rfl, .inr (.inl (mem_map_of_mem hfn))⟩

/-- Every function or method in the record of a file is written on the line it is said to stand on,
with its name, its parameters, its result and its modifiers. -/
theorem record_declared {tree : FileTree} {path : String} {lines : List String}
    (hlines : tree.readLines path = .ok lines) {r : Json}
    (hr : Reported (Project.recordOf tree (.str path)) r) :
    ∃ (f : Callable) (k : Nat) (line : String), Tells (Language.ofFileName path) r f ∧
      f.line = k + 1 ∧ lines[k]? = some line ∧
      Declares (Language.ofFileName path) (Text.strip line) f := by
  rw [recordOf_readLines hlines] at hr
  by_cases hgo : Language.ofFileName path = .go
  · rw [ofLines_goFile hgo] at hr
    obtain ⟨fn, hfn, rfl⟩ := reported_goFile.1 hr
    obtain ⟨k, line, hk, hline, hdeclares⟩ := declares_goFunction hfn
    rw [hgo]
    exact ⟨fn.toCallable, k, line, tells_goFunction fn, hk, hline, hdeclares⟩
  · rw [ofLines_entries hgo] at hr
    obtain ⟨f, hf, rfl⟩ := reported_entries.1 hr
    obtain ⟨k, line, hk, hline, hdeclares⟩ := declares_callable hf
    exact ⟨f, k, line, tells_callable hgo f, hk, hline, hdeclares⟩

def boxLines : List String :=
  ["package box", "", "func (b *Box) Put( n int ) (int, error) \x7b"]

def boxFile : FileTree :=
  { cwd := "/"
    entries := [(["box.go"], .file (.text (String.intercalate "\n" boxLines)) none)] }

def putMethod : Go.Function :=
  ⟨"Put", some "b *Box", "n int", "int, error", 3⟩

theorem record_declared_method :
    boxFile.readLines "/box.go" = .ok boxLines ∧
      Reported (Project.recordOf boxFile (.str "/box.go")) putMethod.toJson ∧
      ∃ (f : Callable) (k : Nat) (line : String), Tells .go putMethod.toJson f ∧
        f.line = k + 1 ∧ boxLines[k]? = some line ∧ Declares .go (Text.strip line) f := by
  have hlines : boxFile.readLines "/box.go" = .ok boxLines := by
    rw [FileTree.readLines, FileTree.open?,
      show boxFile.resolve "/box.go" = .ok ["box.go"] by decide +kernel]
    rfl
  have hgo : Language.ofFileName "/box.go" = .go := by decide +kernel
  have hreported : Reported (Project.recordOf boxFile (.str "/box.go")) putMethod.toJson := by
    rw [recordOf_readLines hlines, ofLines_goFile hgo]
    exact reported_goFile.2 ⟨putMethod, .inr (by decide +kernel), rfl⟩
  exact ⟨hlines, hreported, hgo ▸ record_declared hlines hreported⟩

end Outline
end RepoWiki
