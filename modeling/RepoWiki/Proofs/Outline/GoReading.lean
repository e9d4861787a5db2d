import Mathlib.Data.List.Induction
import RepoWiki.Proofs.Outline.LineNumbers
/-
A Go file is read piece by piece.

What a line adds depends on the lines before it only through the context, and it is put behind what
is there already (`step_eq`). So the outline of some lines is that of the first of them, followed by
what the others give in the context that the first ones leave (`readLines_append`). The context is
described by the lines themselves: `InComment` and `InImports` tell where a block comment or a list
of imports has begun and has not ended yet.
-/

namespace RepoWiki.Outline.Go

open List Text

variable {line : String} {ctx : Context}

/-! ## Pieces of an outline -/

def File.append (f g : File) : File where
  package := g.package.or f.package
  imports := f.imports ++ g.imports
  functions := f.functions ++ g.functions
  methods := f.methods ++ g.methods

instance : Append File :=
  ⟨File.append⟩

theorem File.append_def (f g : File) :
    f ++ g = ⟨g.package.or f.package, f.imports ++ g.imports, f.functions ++ g.functions,
      f.methods ++ g.methods⟩ :=
  rfl

@[simp] theorem File.append_empty (f : File) : f ++ ({} : File) = f := by
  simp [File.append_def]

@[simp] theorem File.empty_append (f : File) : ({} : File) ++ f = f := by
  simp [File.append_def]

theorem File.append_assoc (f g h : File) : f ++ g ++ h = f ++ (g ++ h) := by
  simp [File.append_def, Option.or_assoc]

def Context.next (ctx : Context) (line : String) : Context :=
  (step (ctx, {}) line 0).1

def piece (ctx : Context) (line : String) (number : Int) : File :=
  (step (ctx, {}) line number).2

theorem File.addImport_eq (f : File) (path : String) (number : Int) :
    f.addImport path number = f ++ ({} : File).addImport path number := by
  simp [File.append_def, File.addImport]

theorem File.addLine_eq (f : File) (line : String) (number : Int) :
    f.addLine line number = f ++ ({} : File).addLine line number := by
  unfold File.addLine
  split
  · exact f.addImport_eq _ number
  split
  · simp [File.append_def]
  split
  · simp [File.append_def]
  · simp

theorem step_eq (ctx : Context) (f : File) (line : String) (number : Int) :
    step (ctx, f) line number = (ctx.next line, f ++ piece ctx line number) := by
  unfold Context.next piece step
  dsimp only
  split
  · simp
  split
  · simp
  split
  · simp
  split
  · simp [File.append_def]
  split
  · simp
  split
  · split
    · simp
    split
    · simp [← File.addImport_eq]
    · simp
  · simp [← File.addLine_eq]

def Context.after (ctx : Context) (lines : List String) : Context :=
  lines.foldl (fun ctx line => ctx.next (strip line)) ctx

theorem Context.after_cons (ctx : Context) (line : String) (lines : List String) :
    ctx.after (line :: lines) = (ctx.next (strip line)).after lines := by
  rw [after, after, foldl_cons]

theorem Context.after_append (ctx : Context) (lines more : List String) :
    ctx.after (lines ++ more) = (ctx.after lines).after more := by
  rw [after, after, after, foldl_append]

theorem Context.after_concat (ctx : Context) (lines : List String) (line : String) :
    ctx.after (lines ++ [line]) = (ctx.after lines).next (strip line) := by
  rw [after_append, after_cons]
  rfl

theorem readLines_eq (ctx : Context) (f : File) (number : Int) (lines : List String) :
    readLines (ctx, f) number lines = f ++ readLines (ctx, {}) number lines := by
  induction lines generalizing ctx f number with
  | nil => exact (File.append_empty f).symm
  | cons line lines ih =>
    rw [readLines, readLines, step_eq, step_eq, ih, ih _ ({} ++ _), File.empty_append,
      File.append_assoc]

theorem readLines_cons (ctx : Context) (number : Int) (line : String) (lines : List String) :
    readLines (ctx, {}) number (line :: lines) =
      piece ctx (strip line) number ++
        readLines (ctx.next (strip line), {}) (number + 1) lines := by
  rw [readLines, step_eq, readLines_eq, File.empty_append]

theorem readLines_append (ctx : Context) (number : Int) (lines more : List String) :
    readLines (ctx, {}) number (lines ++ more) =
      readLines (ctx, {}) number lines ++
        readLines (ctx.after lines, {}) (number + lines.length) more := by
  induction lines generalizing ctx number with
  | nil => simp [readLines, Context.after]
  | cons line lines ih =>
    have hnumber : number + (line :: lines).length = number + 1 + lines.length := by
      rw [length_cons]
      omega
    rw [cons_append, readLines_cons, readLines_cons, ih, File.append_assoc,
      Context.after_cons, hnumber]

theorem File.ofLines_append (lines more : List String) :
    File.ofLines (lines ++ more) =
      File.ofLines lines ++ readLines (Context.after {} lines, {}) lines.length more := by
  rw [File.ofLines, readLines_append, Int.zero_add]
  rfl

/-! ## Contexts -/

/-- A line on which a block comment begins and does not end. Marks count wherever they stand. -/
def opensComment (line : String) : Bool :=
  hasInfix "/*" line && !hasInfix "*/" line

def closesComment (line : String) : Bool :=
  hasInfix "*/" line

def isPassed (line : String) : Bool :=
  line = "" || startsWith "//" line

theorem step_opens (h : opensComment line = true) (ctx : Context) (f : File) (number : Int) :
    step (ctx, f) line number = ({ ctx with inComment := true }, f) :=
  if_pos h

theorem step_inComment (h : opensComment line = false) (hctx : ctx.inComment = true) (f : File)
    (number : Int) :
    step (ctx, f) line number = ({ ctx with inComment := !closesComment line }, f) := by
  rw [opensComment] at h
  simp only [step, h, hctx, Bool.false_eq_true, if_false, if_true, closesComment]
  cases hasInfix "*/" line
  · rw [if_neg Bool.false_ne_true, Bool.not_false, ← hctx]
  · rfl

theorem step_passed (h : opensComment line = false) (hctx : ctx.inComment = false)
    (hline : isPassed line = true) (f : File) (number : Int) :
    step (ctx, f) line number = (ctx, f) := by
  rw [opensComment] at h
  rw [isPassed] at hline
  simp only [step, h, hctx, hline, Bool.false_eq_true, if_false, if_true]

theorem isPassed_eq_false {c d : Char} {rest : List Char} (hline : line.toList = c :: d :: rest)
    (h : ¬(c = '/' ∧ d = '/')) : isPassed line = false := by
  rw [isPassed, startsWith, hline, Bool.or_eq_false_iff, decide_eq_false_iff_not,
    ← String.toList_eq_nil_iff, hline]
  refine ⟨cons_ne_nil _ _, ?_⟩
  rw [← Bool.not_eq_true, isPrefixOf_iff_prefix]
  rintro ⟨more, hmore⟩
  have hstrokes : '/' :: '/' :: more = c :: d :: rest := hmore
  obtain ⟨hc, htail⟩ := cons.inj hstrokes
  exact h ⟨hc.symm, (cons.inj htail).1.symm⟩

theorem step_code (h : opensComment line = false) (hctx : ctx.inComment = false)
    (himports : ctx.inImports = false) (hpassed : isPassed line = false)
    (hpackage : packageLine.match? line = none) (hline : line ≠ "import (") (f : File)
    (number : Int) :
    step (ctx, f) line number = (ctx, f.addLine line number) := by
  rw [opensComment] at h
  rw [isPassed] at hpassed
  simp only [step, h, hctx, himports, hpassed, hpackage, hline, Bool.false_eq_true, if_false]

theorem next_inComment (ctx : Context) (line : String) :
    (ctx.next line).inComment = (opensComment line || ctx.inComment && !closesComment line) := by
  rw [Context.next]
  cases hopen : opensComment line with
  | true => rw [step_opens hopen, Bool.true_or]
  | false =>
    rw [Bool.false_or]
    cases hctx : ctx.inComment with
    | true => rw [step_inComment hopen hctx, Bool.true_and]
    | false =>
      rw [opensComment] at hopen
      simp only [step, hopen, hctx, Bool.false_and, Bool.false_eq_true, if_false]
      repeat' split
      all_goals simp [hctx]

theorem next_inImports (ctx : Context) (line : String) :
    (ctx.next line).inImports =
      if opensComment line || ctx.inComment then ctx.inImports
      else (line = "import (" || ctx.inImports && line ≠ ")") := by
  rw [Context.next]
  cases hopen : opensComment line with
  | true => rw [step_opens hopen, Bool.true_or, if_pos rfl]
  | false =>
    rw [Bool.false_or]
    cases hctx : ctx.inComment with
    | true => rw [step_inComment hopen hctx, if_pos rfl]
    | false =>
      rw [opensComment] at hopen
      simp only [step, hopen, hctx, Bool.false_eq_true, if_false]
      split
      · next hpassed =>
        have hne : line ≠ "import (" ∧ line ≠ ")" := by
          constructor <;> rintro rfl <;> exact absurd hpassed (by decide)
        simp [hne]
      split
      · next m hm =>
        have hne : line ≠ "import (" ∧ line ≠ ")" := by
          constructor <;> rintro rfl <;> cases hm
        simp [hne]
      split
      · next hbegin => simp [hbegin]
      split
      · next hnot hin =>
        split
        · next hend => simp [hend]
        · next hnotEnd =>
          split <;> simp [hnot, hnotEnd]
      · next hnot hout =>
        simp [hnot, hout]

/-- The lines end inside a block comment: it has begun on one of them, and no later one ends it. -/
def InComment (lines : List String) : Prop :=
  ∃ before line rest, lines = before ++ line :: rest ∧ opensComment (strip line) = true ∧
    ∀ later ∈ rest, closesComment (strip later) = false

/-- The lines end inside a list of imports: it has begun on one of them outside comments, and the
lines that could end it are all inside comments. -/
def InImports (lines : List String) : Prop :=
  ∃ before line rest, lines = before ++ line :: rest ∧ strip line = "import (" ∧
    ¬InComment before ∧ ∀ part later more, rest = part ++ later :: more →
      strip later = ")" → InComment (before ++ line :: part)

theorem concat_eq_append_cons {α : Type} {xs before rest : List α} {x y : α} :
    xs ++ [x] = before ++ y :: rest ↔
      before = xs ∧ y = x ∧ rest = [] ∨ ∃ part, rest = part ++ [x] ∧ xs = before ++ y :: part := by
  constructor
  · intro h
    rcases eq_nil_or_concat rest with rfl | ⟨part, last, rfl⟩
    · obtain ⟨rfl, hlast⟩ := append_inj' h rfl
      exact .inl ⟨rfl, (cons.inj hlast).1.symm, rfl⟩
    · rw [concat_eq_append, ← cons_append, ← append_assoc] at h
      obtain ⟨rfl, hlast⟩ := append_inj' h rfl
      obtain rfl := (cons.inj hlast).1
      exact .inr ⟨part, concat_eq_append, rfl⟩
  · rintro (⟨rfl, rfl, rfl⟩ | ⟨part, rfl, rfl⟩)
    · rfl
    · simp

theorem inComment_concat {lines : List String} :
    InComment (lines ++ [line]) ↔ opensComment (strip line) = true ∨
      InComment lines ∧ closesComment (strip line) = false := by
  constructor
  · rintro ⟨before, opening, rest, hlines, hopen, hrest⟩
    rcases concat_eq_append_cons.1 hlines with ⟨-, rfl, -⟩ | ⟨part, rfl, rfl⟩
    · exact .inl hopen
    · rw [forall_mem_append] at hrest
      exact .inr ⟨⟨before, opening, part, rfl, hopen, hrest.1⟩, hrest.2 line (by simp)⟩
  · rintro (hopen | ⟨⟨before, opening, rest, rfl, hopen, hrest⟩, hclose⟩)
    · exact ⟨lines, line, [], rfl, hopen, forall_mem_nil _⟩
    · refine ⟨before, opening, rest ++ [line], by simp, hopen, ?_⟩
      rw [forall_mem_append]
      exact ⟨hrest, by simpa using hclose⟩

theorem inImports_concat {lines : List String} :
    InImports (lines ++ [line]) ↔
      (¬opensComment (strip line) = true ∧ ¬InComment lines ∧ strip line = "import (") ∨
        InImports lines ∧
          (opensComment (strip line) = true ∨ InComment lines ∨ strip line ≠ ")") := by
  constructor
  · rintro ⟨before, first, rest, hlines, hfirst, hout, hends⟩
    rcases concat_eq_append_cons.1 hlines with ⟨rfl, rfl, -⟩ | ⟨part, rfl, rfl⟩
    · exact .inl ⟨by rw [hfirst]; decide, hout, hfirst⟩
    · refine .inr
        ⟨⟨before, first, part, rfl, hfirst, hout, fun early later more hpart hlater => ?_⟩, ?_⟩
      · exact hends early later (more ++ [line]) (by simp [hpart]) hlater
      · by_cases hend : strip line = ")"
        · exact .inr (.inl (hends part line [] rfl hend))
        · exact .inr (.inr hend)
  · rintro (⟨-, hout, hfirst⟩ | ⟨⟨before, first, rest, rfl, hfirst, hout, hends⟩, hline⟩)
    · exact ⟨lines, line, [], rfl, hfirst, hout, fun part later more h => by simp at h⟩
    · refine ⟨before, first, rest ++ [line], by simp, hfirst, hout,
        fun part later more h hlater => ?_⟩
      rcases concat_eq_append_cons.1 h with ⟨rfl, rfl, -⟩ | ⟨early, rfl, rfl⟩
      · rw [hlater] at hline
        rcases hline with hopen | hin | hne
        · exact absurd hopen (by decide)
        · exact hin
        · exact absurd rfl hne
      · exact hends part later early rfl hlater

theorem after_inComment (lines : List String) :
    (Context.after {} lines).inComment = true ↔ InComment lines := by
  induction lines using reverseRecOn with
  | nil => simp [Context.after, InComment]
  | append_singleton lines line ih =>
    rw [Context.after_concat, next_inComment, inComment_concat, ← ih]
    simp

theorem after_inImports (lines : List String) :
    (Context.after {} lines).inImports = true ↔ InImports lines := by
  induction lines using reverseRecOn with
  | nil => simp [Context.after, InImports]
  | append_singleton lines line ih =>
    rw [Context.after_concat, next_inImports, inImports_concat, ← ih, ← after_inComment]
    cases opensComment (strip line) <;> cases (Context.after {} lines).inComment <;>
      cases (Context.after {} lines).inImports <;> simp

end RepoWiki.Outline.Go
