import RepoWiki.Proofs.Outline.GoReading
import RepoWiki.Proofs.Pattern.Finding
import RepoWiki.Proofs.Text.Occurrence
/-
Comments in Go files.

A comment on lines of its own that is put into a file leaves the outline as it is and moves what
comes after it down by as many lines (`File.ofLines_insert`). What counts as a comment is a matter
of marks, wherever they stand in a line. So a line comment in which a block comment seems to begin
hides the lines after it as well (`hidden`), and a block comment whose first line holds the mark of
an end too is not seen as one.
-/

namespace RepoWiki.Outline.Go

open File List Text

/-! ## Moved lines -/

def moved (d k n : Int) : Int :=
  if d < n then n + k else n

def File.shift (f : File) (d k : Int) : File where
  package := f.package
  imports := f.imports.map fun i => { i with line := moved d k i.line }
  functions := f.functions.map fun fn => { fn with line := moved d k fn.line }
  methods := f.methods.map fun fn => { fn with line := moved d k fn.line }

theorem File.shift_append (f g : File) (d k : Int) :
    (f ++ g).shift d k = f.shift d k ++ g.shift d k := by
  simp [shift, append_def]

theorem moved_succ {d n : Int} (hn : d ≤ n) (k : Int) : moved d k (n + 1) = n + k + 1 := by
  rw [moved, if_pos (by omega)]
  omega

section

variable {d n : Int} (hn : d ≤ n) (k : Int)
include hn

theorem addImport_shift (path : String) :
    ({} : File).addImport path (n + k) = (({} : File).addImport path n).shift d k := by
  simp [addImport, shift, moved_succ hn]

theorem Function.ofLine?_shift (tail : Pattern) (line : String) :
    Function.ofLine? tail line (n + k) =
      (Function.ofLine? tail line n).map fun fn => { fn with line := moved d k fn.line } := by
  rw [Function.ofLine?, Function.ofLine?, Option.map_map]
  congr 1
  funext m
  simp [moved_succ hn]

theorem Function.ofMethodLine?_shift (tail : Pattern) (line : String) :
    Function.ofMethodLine? tail line (n + k) =
      (Function.ofMethodLine? tail line n).map fun fn => { fn with line := moved d k fn.line } := by
  rw [Function.ofMethodLine?, Function.ofMethodLine?, Option.map_map]
  congr 1
  funext m
  simp [moved_succ hn]

theorem addLine_shift (line : String) :
    ({} : File).addLine line (n + k) = (({} : File).addLine line n).shift d k := by
  unfold addLine
  split
  · exact addImport_shift hn k _
  rw [Function.ofLine?_shift hn, Function.ofMethodLine?_shift hn]
  cases Function.ofLine? bodyStart line n with
  | some fn => rfl
  | none =>
    cases Function.ofMethodLine? bodyStart line n with
    | some fn => rfl
    | none => rfl

theorem piece_shift (ctx : Context) (line : String) :
    piece ctx line (n + k) = (piece ctx line n).shift d k := by
  unfold piece step
  dsimp only
  split
  · rfl
  split
  · rfl
  split
  · rfl
  split
  · rfl
  split
  · rfl
  split
  · split
    · rfl
    split
    · exact addImport_shift hn k _
    · rfl
  · exact addLine_shift hn k line

theorem readLines_shift (ctx : Context) (lines : List String) :
    readLines (ctx, {}) (n + k) lines = (readLines (ctx, {}) n lines).shift d k := by
  induction lines generalizing ctx n with
  | nil => rfl
  | cons line lines ih =>
    have hnext : n + k + 1 = n + 1 + k := by omega
    rw [readLines_cons, readLines_cons, shift_append, piece_shift hn, hnext, ih (Int.le_add_one hn)]

end

theorem File.shift_eq_self {f : File} {d : Int} (h : ∀ n ∈ f.listing.all, n ≤ d) (k : Int) :
    f.shift d k = f := by
  have hsame : ∀ n ∈ f.listing.all, moved d k n = n := fun n hn => if_neg (Int.not_lt.2 (h n hn))
  simp only [Listing.all, listing, mem_append] at hsame
  have himports : f.imports.map (fun i => { i with line := moved d k i.line }) = f.imports := by
    refine (map_congr_left fun i hi => ?_).trans (map_id _)
    rw [hsame i.line (.inl (mem_map_of_mem hi)), id]
  have hfunctions : f.functions.map (fun fn => { fn with line := moved d k fn.line }) =
      f.functions := by
    refine (map_congr_left fun fn hfn => ?_).trans (map_id _)
    rw [hsame fn.line (.inr (.inl (mem_map_of_mem hfn))), id]
  have hmethods : f.methods.map (fun fn => { fn with line := moved d k fn.line }) = f.methods := by
    refine (map_congr_left fun fn hfn => ?_).trans (map_id _)
    rw [hsame fn.line (.inr (.inr (.inr (mem_map_of_mem hfn)))), id]
  rw [shift, himports, hfunctions, hmethods]

theorem File.ofLines_shift (lines : List String) (k : Int) :
    (ofLines lines).shift lines.length k = ofLines lines :=
  shift_eq_self (fun n hn => ((placed_goFile lines).range n hn).2) k

/-! ## Lines that are put in -/

/-- Lines that add nothing to the outline and lead from one context to another. -/
structure Silent (ctx : Context) (lines : List String) (ctx' : Context) : Prop where
  after : ctx.after lines = ctx'
  nothing : ∀ n, readLines (ctx, {}) n lines = {}

variable {lines : List String} {line : String}

theorem Silent.append {ctx ctx' ctx'' : Context} {more : List String} (h : Silent ctx lines ctx')
    (h' : Silent ctx' more ctx'') : Silent ctx (lines ++ more) ctx'' := by
  refine ⟨?_, fun n => ?_⟩
  · rw [Context.after_append, h.after, h'.after]
  · rw [readLines_append, h.nothing, h.after, h'.nothing, append_empty]

theorem silent_line {ctx ctx' : Context} (h : ∀ n, step (ctx, {}) (strip line) n = (ctx', {})) :
    Silent ctx [line] ctx' := by
  refine ⟨congrArg Prod.fst (h 0), fun n => ?_⟩
  rw [readLines, h]
  rfl

theorem File.ofLines_insert {before : List String}
    (h : Silent (Context.after {} before) lines (Context.after {} before)) (after : List String) :
    ofLines (before ++ (lines ++ after)) =
      (ofLines (before ++ after)).shift before.length lines.length := by
  rw [ofLines_append, readLines_append, h.nothing, empty_append, h.after,
    readLines_shift (Int.le_refl _), ofLines_append, shift_append, ofLines_shift]

/-! ## Block comments -/

/-- A block comment: it begins on the first line and ends on the last one. -/
structure IsBlock (first : String) (middle : List String) (last : String) : Prop where
  begins : startsWith "/*" (strip first) = true
  inside : ∀ line ∈ middle, closesComment (strip line) = false
  ends : endsWith "*/" (strip last) = true

section

variable {ctx : Context}

theorem silent_opening {line : String} (h : opensComment (strip line) = true) :
    Silent ctx [line] { ctx with inComment := true } :=
  silent_line fun n => step_opens h ctx {} n

theorem silent_inside (h : ∀ line ∈ lines, closesComment (strip line) = false) :
    Silent { ctx with inComment := true } lines { ctx with inComment := true } := by
  induction lines with
  | nil => exact ⟨rfl, fun n => rfl⟩
  | cons line lines ih =>
    rw [forall_mem_cons] at h
    refine (silent_line fun n => ?_).append (ih h.2)
    cases hopen : opensComment (strip line) with
    | true => rw [step_opens hopen]
    | false => rw [step_inComment hopen rfl, h.1, Bool.not_false]

theorem silent_closing (hctx : ctx.inComment = false) (h : closesComment (strip line) = true) :
    Silent { ctx with inComment := true } [line] ctx := by
  refine silent_line fun n => ?_
  have hopen : opensComment (strip line) = false := by
    rw [closesComment] at h
    rw [opensComment, h, Bool.not_true, Bool.and_false]
  rw [step_inComment hopen rfl, h, Bool.not_true, ← hctx]

theorem silent_block (hctx : ctx.inComment = false) {first last : String} {middle : List String}
    (h : IsBlock first middle last) (hfirst : closesComment (strip first) = false) :
    Silent ctx (first :: (middle ++ [last])) ctx := by
  have hopen : opensComment (strip first) = true := by
    rw [closesComment] at hfirst
    rw [opensComment, hfirst, hasInfix_of_startsWith h.begins]
    rfl
  have hclose : closesComment (strip last) = true := hasInfix_of_endsWith h.ends
  exact (silent_opening hopen).append ((silent_inside h.inside).append (silent_closing hctx hclose))

/-! ## Comments with marks in them -/

theorem silent_lineComment (hctx : ctx.inComment = false)
    (h : startsWith "//" (strip line) = true) (hopen : opensComment (strip line) = false) :
    Silent ctx [line] ctx := by
  refine silent_line fun n => step_passed hopen hctx ?_ {} n
  rw [isPassed, h, Bool.or_true]

theorem silent_empty (hctx : ctx.inComment = false) : Silent ctx [""] ctx :=
  silent_line fun n => step_passed rfl hctx rfl {} n

/-- What a block comment without an end covers is hidden: the lines up to its end are as good as
empty. -/
def hidden : List String → List String
  | [] => []
  | line :: lines =>
      "" :: if closesComment (strip line) then lines else hidden lines

theorem readLines_hidden (hctx : ctx.inComment = false) (n : Int) (lines : List String) :
    readLines ({ ctx with inComment := true }, {}) n lines =
      readLines (ctx, {}) n (hidden lines) := by
  induction lines generalizing n with
  | nil => rfl
  | cons line lines ih =>
    have hempty := silent_empty hctx
    rw [hidden, ← singleton_append (x := ""), readLines_append, hempty.nothing, hempty.after,
      ← singleton_append (x := line), readLines_append]
    cases hclose : closesComment (strip line) with
    | true =>
      have hline := silent_closing hctx hclose
      rw [hline.nothing, hline.after, if_pos rfl]
      rfl
    | false =>
      have hline : Silent { ctx with inComment := true } [line] { ctx with inComment := true } :=
        silent_inside (by simpa using hclose)
      rw [hline.nothing, hline.after, if_neg Bool.false_ne_true, ih]
      rfl

theorem silent_unseen (hctx : ctx.inComment = false) (himports : ctx.inImports = false)
    (h : startsWith "/*" (strip line) = true) (hclose : closesComment (strip line) = true) :
    Silent ctx [line] ctx := by
  refine silent_line fun n => ?_
  obtain ⟨rest, hrest⟩ := isPrefixOf_iff_prefix.1 h
  have hstroke : (strip line).toList = '/' :: '*' :: rest := hrest.symm
  have hpassed : isPassed (strip line) = false := isPassed_eq_false hstroke (by decide)
  have hline : strip line ≠ "import (" := by
    intro heq
    rw [heq] at hstroke
    cases hstroke
  have hopen : opensComment (strip line) = false := by
    rw [closesComment] at hclose
    rw [opensComment, hclose, Bool.not_true, Bool.and_false]
  have hpackage : packageLine.match? (strip line) = none :=
    Pattern.match?_eq_none_of_start rfl rfl hstroke
  rw [step_code hopen hctx himports hpassed hpackage hline, addLine, Function.ofLine?,
    Function.ofMethodLine?, Pattern.match?_eq_none_of_start (p := importLine) rfl rfl hstroke,
    Pattern.match?_eq_none_of_start (p := functionLine bodyStart) rfl rfl hstroke,
    Pattern.match?_eq_none_of_start (p := methodLine bodyStart) rfl rfl hstroke]
  rfl

end

/-- A comment that is put in outside block comments moves the lines after it, and changes nothing
else. But a line comment in which a block comment seems to begin hides the lines after it up to the
next mark of an end, and a block comment with such a mark on its first line is not seen as one: the
lines after the first are read as code. -/
theorem File.ofLines_insert_comment {before : List String} (hout : ¬InComment before)
    (after : List String) :
    (∀ line, startsWith "//" (strip line) = true →
      ofLines (before ++ line :: after) =
        (ofLines
          (before ++ if opensComment (strip line) then hidden after else after)).shift
          before.length 1) ∧
    (∀ first middle last, IsBlock first middle last → closesComment (strip first) = false →
      ofLines (before ++ (first :: (middle ++ [last]) ++ after)) =
        (ofLines (before ++ after)).shift before.length (middle.length + 2)) ∧
    (¬InImports before → ∀ first, startsWith "/*" (strip first) = true →
      closesComment (strip first) = true →
      ofLines (before ++ first :: after) =
        (ofLines (before ++ after)).shift before.length 1) := by
  rw [← after_inComment, Bool.not_eq_true] at hout
  refine ⟨fun line hline => ?_, fun first middle last hblock hfirst => ?_,
    fun himports first hbegins hclose => ?_⟩
  · cases hopen : opensComment (strip line) with
    | false =>
      exact ofLines_insert (silent_lineComment hout hline hopen) after
    | true =>
      have hhidden := @silent_opening (Context.after {} before) line hopen
      rw [if_pos rfl, ofLines_append, ← List.singleton_append (x := line), readLines_append,
        hhidden.nothing, hhidden.after, empty_append, readLines_hidden hout,
        readLines_shift (Int.le_refl _), ofLines_append, shift_append,
        ofLines_shift]
      rfl
  · have hinsert := ofLines_insert (silent_block hout hblock hfirst) after
    rw [hinsert, List.length_cons, List.length_append, List.length_singleton]
    rfl
  · rw [← after_inImports, Bool.not_eq_true] at himports
    exact ofLines_insert (silent_unseen hout himports hbegins hclose) after

theorem File.ofLines_insert_comment_imports :
    ¬InComment ["import ("] ∧ IsBlock "/* off" ["\"net\""] "*/" ∧
      closesComment (strip "/* off") = false ∧
      ofLines ["import (", "/* off", "\"net\"", "*/", "\"os\"", ")"] =
        (ofLines ["import (", "\"os\"", ")"]).shift 1 3 ∧
      (ofLines ["import (", "\"os\"", ")"]).shift 1 3 =
        { imports := [⟨"import", [("path", "os")], 5⟩] } := by
  have hout : ¬InComment ["import ("] := by
    rw [← after_inComment]
    decide
  have hblock : IsBlock "/* off" ["\"net\""] "*/" := ⟨by decide, by decide, by decide⟩
  have hfirst : closesComment (strip "/* off") = false := by decide
  have hinsert := (ofLines_insert_comment hout ["\"os\"", ")"]).2.1 _ _ _ hblock hfirst
  exact ⟨hout, hblock, hfirst, by simpa using hinsert, by decide +kernel⟩

/-- A line comment that mentions the mark of a block comment hides the function after it, and a
stroke behind that mark lets the function inside the comment be seen. -/
theorem File.comment_not_transparent :
    ¬InComment [] ∧ startsWith "//" (strip "// see /* below") = true ∧
      ofLines ["// see /* below", "func f() \x7b"] ≠
        (ofLines ["func f() \x7b"]).shift 0 1 ∧
      IsBlock "/*/" ["func f() \x7b"] "*/" ∧
      ofLines ["/*/", "func f() \x7b", "*/"] ≠ (ofLines []).shift 0 3 := by
  have hout : ¬InComment [] := by
    rw [← after_inComment]
    decide
  exact ⟨hout, by decide, by decide +kernel, ⟨by decide, by decide, by decide⟩, by decide +kernel⟩

end RepoWiki.Outline.Go
