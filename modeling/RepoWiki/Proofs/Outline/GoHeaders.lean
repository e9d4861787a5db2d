import RepoWiki.Proofs.Outline.GoComments
import RepoWiki.Proofs.Outline.Heading
/-
Lines that begin a function or a method in a Go file.

Such a line is put together from the parts of a `Header`, with blanks between them. Where the
results are left out or stand in round brackets, the line adds one function or method with just
these parts. A single type without brackets is not understood: then the line adds nothing, as if it
were empty (`File.ofLines_header`).
-/

namespace RepoWiki.Outline.Go

open Pattern List Text

/-! ## Headers -/

/-- What a function gives back: nothing, a list in round brackets, or a single type. -/
inductive Results where
  | none
  | list (inside : String)
  | single (type : String)

def Results.text : Results → List Char
  | .none => []
  | .list inside => '(' :: (inside.toList ++ [')'])
  | .single type => type.toList

/-- A list ends at its first closing bracket. A type begins with neither a blank nor a bracket. -/
def Results.Proper : Results → Prop
  | .none => True
  | .list inside => ')' ∉ inside.toList
  | .single type => ∃ c rest, type.toList = c :: rest ∧ isBlank c = false ∧
      c ≠ '(' ∧ c ≠ '\x7b'

/-- What is told of the results. A single type is not understood. -/
def Results.told? : Results → Option String
  | .none => some ""
  | .list inside => some (strip inside)
  | .single _ => Option.none

/-- The parts of a line that begins a function, or a method if there is a receiver. -/
structure Header where
  receiver : Option String
  name : String
  parameters : String
  results : Results

/-- A receiver in round brackets and blanks after it, or nothing. -/
def IsLead : Option String → List Char → Prop
  | none, lead => lead = []
  | some receiver, lead => receiver ≠ "" ∧ ')' ∉ receiver.toList ∧
      ∃ gap, gap ≠ [] ∧ AllBlank gap ∧ lead = '(' :: (receiver.toList ++ ')' :: gap)

/-- What follows: the parts from the name up to the brace that opens the body, and any text. -/
def Header.IsBody (h : Header) (body : List Char) : Prop :=
  ∃ gap₁ gap₂ gap₃ tail, AllBlank gap₁ ∧ AllBlank gap₂ ∧ AllBlank gap₃ ∧
    body = h.name.toList ++ (gap₁ ++ '(' :: (h.parameters.toList ++ ')' ::
      (gap₂ ++ (h.results.text ++ (gap₃ ++ '\x7b' :: tail)))))

/-- A line in which the parts of a header are written. -/
structure Heads (h : Header) (line : String) : Prop where
  name_ne : h.name.toList ≠ []
  word : ∀ c ∈ h.name.toList, isWord c = true
  closed : ')' ∉ h.parameters.toList
  proper : h.results.Proper
  written : ∃ gap lead body, gap ≠ [] ∧ AllBlank gap ∧ IsLead h.receiver lead ∧ h.IsBody body ∧
    line.toList = "func".toList ++ (gap ++ (lead ++ body))

def Header.outline (h : Header) (number : Int) : File :=
  match h.results.told? with
  | none => {}
  | some results =>
      let fn : Function :=
        ⟨h.name, h.receiver.map strip, strip h.parameters, results, number + 1⟩
      if h.receiver.isSome then { methods := [fn] } else { functions := [fn] }

/-! ## Results -/

theorem takes_bodyStart {gap rest cs : List Char} {c : Char} {gs gs' : Groups} (hgap : AllBlank gap)
    (hc : isBlank c = false)
    (h : Takes (chain [blanks, bodyStart]) (gap ++ c :: rest) gs cs gs') : c = '\x7b' := by
  obtain ⟨cs₁, gs₁, hblanks, hstart⟩ := takes_chain_cons.1 h
  obtain ⟨rfl, left, hleft, rfl⟩ := takes_run_cut hc hblanks
  have hblank : AllBlank left := fun d hd => hgap d (hleft.subset hd)
  -- The pattern ends with a brace or at the end of the line, and there is more than blanks left.
  cases hstart with
  | left _ hbrace =>
    exact hblank.start (by decide) ((takes_word "\x7b").1 hbrace).1
  | right _ hend =>
    cases hend with
    | atEnd hend =>
      rcases hend with hend | hend
      · simp at hend
      · -- A line feed is blank, so it is not the last character here.
        rcases append_eq_singleton_iff.1 hend with ⟨-, hcons⟩ | ⟨-, hcons⟩
        · rw [(List.cons.inj hcons).1] at hc
          exact absurd hc (by decide)
        · cases hcons

theorem groups_of_takes_bodyStart {cs cs' : List Char} {gs gs' : Groups}
    (h : Takes (chain [blanks, bodyStart]) cs gs cs' gs') : gs' = gs := by
  obtain ⟨-, new, rfl, hnew⟩ := h.grows
  cases new with
  | nil => rfl
  | cons g new => exact absurd (hnew g mem_cons_self).1 not_mem_nil

variable {r : Results}

section

variable {gap cs : List Char} {gs gs' : Groups} {k : Nat}

theorem results_cases {rest : List Char} {c : Char} (hgap : AllBlank gap)
    (hc : isBlank c = false)
    (h : Takes (chain [blanks, results k, blanks, bodyStart]) (gap ++ c :: rest) gs cs gs') :
    (c = '\x7b' ∧ gs' = gs) ∨ ∃ cs', Takes (chain [parameterList k]) (c :: rest) gs cs' gs' := by
  obtain ⟨cs₁, gs₁, hblanks, hrest⟩ := takes_chain_cons.1 h
  obtain ⟨cs₂, gs₂, hresults, hbody⟩ := takes_chain_cons.1 hrest
  obtain rfl := groups_of_takes_bodyStart hbody
  rcases takes_maybe.1 hresults with hlist | ⟨rfl, rfl⟩
  · have hapart : ∀ d ∈ gap, (chain [parameterList k]).mayStart d = false :=
      fun d hd => mayStart_parameters (ne_bracket_of_isBlank (hgap d hd))
    obtain ⟨rfl, rfl⟩ := takes_run_all hc rfl hapart hblanks hlist
    exact .inr ⟨_, hlist⟩
  · obtain ⟨rfl, left, hleft, rfl⟩ := takes_run_cut hc hblanks
    exact .inl ⟨takes_bodyStart (fun d hd => hgap d (hleft.subset hd)) hc hbody, rfl⟩

def Results.groups (k : Nat) (after : List Char) : Results → Groups
  | .list inside => [(k, inside.toList ++ ')' :: after, ')' :: after)]
  | .none | .single _ => []

/-- Results that are understood are taken in one way as far as the groups go, a single type in
none. -/
theorem takes_results (hr : r.Proper) {gap' tail : List Char} (hgap : AllBlank gap)
    (hgap' : AllBlank gap') :
    (∃ cs, Takes (chain [blanks, results k, blanks, bodyStart])
        (gap ++ (r.text ++ (gap' ++ '\x7b' :: tail))) gs cs gs') ↔
      r.told?.isSome = true ∧ gs' = r.groups k (gap' ++ '\x7b' :: tail) ++ gs := by
  constructor
  · rintro ⟨cs, h⟩
    cases r with
    | none =>
      rw [Results.text, nil_append, ← append_assoc] at h
      rcases results_cases (hgap.append hgap') (by decide) h with ⟨-, rfl⟩ | ⟨cs', hlist⟩
      · exact ⟨rfl, rfl⟩
      · exact absurd hlist (not_takes_of_start rfl rfl)
    | list inside =>
      simp only [Results.text, cons_append, append_assoc, nil_append] at h
      rcases results_cases hgap (by decide) h with ⟨hbrace, -⟩ | ⟨cs', hlist⟩
      · exact absurd hbrace (by decide)
      · cases (takes_parameters hr k).1 hlist
        exact ⟨rfl, rfl⟩
    | single type =>
      obtain ⟨c, rest, htype, hc, hbracket, hbrace⟩ := hr
      rw [Results.text, htype, cons_append] at h
      rcases results_cases hgap hc h with ⟨rfl, -⟩ | ⟨cs', hlist⟩
      · exact absurd rfl hbrace
      · exact absurd hlist (not_takes_of_start rfl (mayStart_parameters hbracket))
  · rintro ⟨htold, rfl⟩
    have hresults : ∀ rest, Takes (results k) (r.text ++ rest) gs rest (r.groups k rest ++ gs) := by
      intro rest
      cases r with
      | none => exact .right _ (.nothing _ _)
      | list inside =>
        rw [Results.text, cons_append, append_assoc]
        have hlist : Takes (chain [parameterList k]) ('(' :: (inside.toList ++ ')' :: rest)) gs rest
            ((k, inside.toList ++ ')' :: rest, ')' :: rest) :: gs) :=
          (takes_parameters hr k).2 (.nothing _ _)
        exact .left _ hlist
      | single type => cases htold
    have hbrace : ∀ gs, Takes bodyStart ('\x7b' :: tail) gs tail gs :=
      fun gs => .left _ ((takes_word "\x7b").2 ⟨rfl, rfl⟩)
    exact ⟨tail, .seq (.run hgap (Nat.zero_le _) _ _) (.seq (hresults _)
      (.seq (.run hgap' (Nat.zero_le _) _ _) (hbrace _)))⟩

end

/-! ## Lines -/

def headingParts (i j k : Nat) : List Pattern :=
  [.group i name, blanks, parameterList j, blanks, results k, blanks, bodyStart]

theorem functionLine_eq :
    functionLine bodyStart = chain (word "func" :: blanks1 :: headingParts 1 2 3) :=
  rfl

theorem methodLine_eq :
    methodLine bodyStart = chain (word "func" :: blanks1 :: word "(" ::
      .group 1 (.run (noneOf ")") 1) :: word ")" :: blanks1 :: headingParts 2 3 4) :=
  rfl

/-- All ways in which a pattern takes a text end with the groups of the header in front of some
others, and there is none if the results are not understood. -/
structure Header.Ways (h : Header) (p : Pattern) (s : String) (i j k : Nat) (gs : Groups) :
    Prop where
  productive : p.productive = true
  distinct : i ≠ j ∧ i ≠ k ∧ j ≠ k
  others : ∀ g ∈ gs, g.1 ≠ k
  ways : ∃ x y z, ∀ gs', (∃ cs, Takes p s.toList [] cs gs') ↔ h.results.told?.isSome = true ∧
    gs' = h.results.groups k z ++ (j, h.parameters.toList ++ y, y) ::
      (i, h.name.toList ++ x, x) :: gs

section

variable {h : Header} {p : Pattern} {s : String} {i j k : Nat} {gs : Groups}

theorem Header.Ways.not_found (hw : h.Ways p s i j k gs) (hnone : h.results.told? = none) :
    p.match? s = none := by
  obtain ⟨x, y, z, hways⟩ := hw.ways
  refine match?_eq_none fun cs gs' htakes => ?_
  have htold := ((hways gs').1 ⟨cs, htakes⟩).1
  rw [hnone] at htold
  cases htold

theorem Results.mem_groups {after : List Char} {g : Nat × List Char × List Char}
    (hg : g ∈ r.groups k after) : g.1 = k := by
  cases r with
  | none | single _ => cases hg
  | list inside =>
    rw [mem_singleton.1 hg]

theorem Results.strip_group {m : Found} {after : List Char} {old : Groups}
    (hold : ∀ g ∈ old, g.1 ≠ k) (hgroups : m.groups = r.groups k after ++ old) {t : String}
    (ht : r.told? = some t) : strip (m.group k) = t := by
  cases r with
  | none =>
    have habsent : ∀ g ∈ m.groups, g.1 ≠ k := by
      rw [hgroups]
      exact hold
    rw [group_of_absent habsent, ← Option.some.inj ht]
    rfl
  | list inside =>
    rw [@group_of_groups m k [] _ _ _ hgroups (forall_mem_nil _), String.ofList_toList]
    exact Option.some.inj ht
  | single type => cases ht

theorem Header.Ways.found (hw : h.Ways p s i j k gs) {t : String}
    (ht : h.results.told? = some t) :
    ∃ m, p.match? s = some m ∧ m.group i = h.name ∧ m.group j = h.parameters ∧
      strip (m.group k) = t ∧
      ∃ new, m.groups = new ++ gs ∧ ∀ g ∈ new, g.1 = i ∨ g.1 = j ∨ g.1 = k := by
  obtain ⟨x, y, z, hways⟩ := hw.ways
  obtain ⟨hij, hik, hjk⟩ := hw.distinct
  have htold : h.results.told?.isSome = true := by
    rw [ht]
    rfl
  obtain ⟨cs, htakes⟩ := (hways _).2 ⟨htold, rfl⟩
  obtain ⟨m, hm, hgroups⟩ := exists_match?_groups hw.productive htakes
    fun cs' gs' htakes' => ((hways gs').1 ⟨cs', htakes'⟩).2
  refine ⟨m, hm, ?_, ?_, ?_, h.results.groups k z ++ [(j, h.parameters.toList ++ y, y),
    (i, h.name.toList ++ x, x)], by rw [hgroups, append_assoc]; rfl, fun g hg => ?_⟩
  · -- The groups of the parameters and the results come later and have other numbers.
    rw [append_cons] at hgroups
    rw [group_of_groups hgroups, String.ofList_toList]
    intro g hg
    rcases mem_append.1 hg with hg | hg
    · rw [Results.mem_groups hg]
      exact hik.symm
    · rw [mem_singleton.1 hg]
      exact hij.symm
  · rw [group_of_groups hgroups, String.ofList_toList]
    intro g hg
    rw [Results.mem_groups hg]
    exact hjk.symm
  · exact Results.strip_group
      (forall_mem_cons.2 ⟨hjk, forall_mem_cons.2 ⟨hik, hw.others⟩⟩) hgroups ht
  · rcases mem_append.1 hg with hg | hg
    · exact .inr (.inr (Results.mem_groups hg))
    · rcases mem_cons.1 hg with rfl | hg
      · exact .inr (.inl rfl)
      · rw [mem_singleton.1 hg]
        exact .inl rfl

end

theorem mayStart_bracket {d : Char} (hd : d ≠ '(') {ps : List Pattern} :
    (chain (word "(" :: ps)).mayStart d = false := by
  rw [mayStart_chain_cons]
  show ((d == '(') || (false && _)) = false
  rw [beq_eq_false_iff_ne.2 hd]
  rfl

namespace Heads

variable {h : Header} {line : String} (hh : Heads h line)
include hh

theorem body_start {body : List Char} (hbody : h.IsBody body) :
    ∃ c rest, body = c :: rest ∧ isWord c = true := by
  obtain ⟨gap₁, gap₂, gap₃, tail, -, -, -, rfl⟩ := hbody
  exact word_start hh.name_ne hh.word _

theorem takes_body {body : List Char} (hbody : h.IsBody body) (i j k : Nat) (gs : Groups) :
    ∃ x y z, ∀ gs', (∃ cs, Takes (chain (headingParts i j k)) body gs cs gs') ↔
      h.results.told?.isSome = true ∧ gs' = h.results.groups k z ++
        (j, h.parameters.toList ++ y, y) :: (i, h.name.toList ++ x, x) :: gs := by
  obtain ⟨gap₁, gap₂, gap₃, tail, hgap₁, hgap₂, hgap₃, rfl⟩ := hbody
  exact ⟨_, _, _, fun gs' => (exists_congr fun cs =>
    takes_heading hh.name_ne hh.word hgap₁ hh.closed i j).trans
      (takes_results hh.proper hgap₂ hgap₃)⟩

theorem ways_function (hnone : h.receiver = none) :
    h.Ways (functionLine bodyStart) line 1 2 3 [] := by
  obtain ⟨gap, lead, body, hne, hgap, hlead, hbody, hline⟩ := hh.written
  rw [hnone] at hlead
  obtain rfl : lead = [] := hlead
  obtain ⟨x, y, z, hways⟩ := hh.takes_body hbody 1 2 3 []
  obtain ⟨c, rest, rfl, hc⟩ := hh.body_start hbody
  refine ⟨rfl, by decide, forall_mem_nil _, x, y, z, fun gs' => ?_⟩
  rw [← hways, hline, functionLine_eq]
  exact exists_congr fun cs => takes_keyword "func" hne hgap ⟨c, rest, rfl, isBlank_of_isWord hc⟩
    rfl fun d hd => mayStart_name (isWord_of_isBlank hd)

theorem no_method (hnone : h.receiver = none) : (methodLine bodyStart).match? line = none := by
  obtain ⟨gap, lead, body, hne, hgap, hlead, hbody, hline⟩ := hh.written
  rw [hnone] at hlead
  obtain rfl : lead = [] := hlead
  obtain ⟨c, rest, rfl, hc⟩ := hh.body_start hbody
  refine match?_eq_none fun cs gs htakes => ?_
  rw [hline, methodLine_eq] at htakes
  have hbracket : c ≠ '(' := by
    rintro rfl
    exact absurd hc (by decide)
  have hrest := (takes_keyword "func" hne hgap ⟨c, rest, rfl, isBlank_of_isWord hc⟩ rfl
    fun d hd => mayStart_bracket (ne_bracket_of_isBlank hd)).1 htakes
  exact not_takes_of_start rfl (mayStart_bracket hbracket) hrest

section

variable {receiver : String} (hsome : h.receiver = some receiver)
include hsome

theorem no_function : (functionLine bodyStart).match? line = none := by
  obtain ⟨gap, lead, body, hne, hgap, hlead, hbody, hline⟩ := hh.written
  rw [hsome] at hlead
  obtain ⟨-, -, gap', -, -, rfl⟩ := hlead
  refine match?_eq_none fun cs gs htakes => ?_
  rw [hline, functionLine_eq] at htakes
  have hrest := (takes_keyword "func" hne hgap ⟨'(', _, rfl, by decide⟩ rfl
    fun d hd => mayStart_name (isWord_of_isBlank hd)).1 htakes
  exact not_takes_of_start rfl (mayStart_name (by decide)) hrest

theorem ways_method : ∃ rest, h.Ways (methodLine bodyStart) line 2 3 4
    [(1, receiver.toList ++ ')' :: rest, ')' :: rest)] := by
  obtain ⟨gap, lead, body, hne, hgap, hlead, hbody, hline⟩ := hh.written
  rw [hsome] at hlead
  obtain ⟨hreceiver, hclosed, gap', hne', hgap', rfl⟩ := hlead
  obtain ⟨x, y, z, hways⟩ := hh.takes_body hbody 2 3 4
    [(1, receiver.toList ++ ')' :: (gap' ++ body), ')' :: (gap' ++ body))]
  obtain ⟨c, rest, rfl, hc⟩ := hh.body_start hbody
  refine ⟨gap' ++ c :: rest, rfl, by decide, by simp, x, y, z, fun gs' => ?_⟩
  rw [← hways, hline, methodLine_eq]
  refine exists_congr fun cs => ?_
  have hleast : 1 ≤ receiver.toList.length :=
    length_pos_iff.2 fun heq => hreceiver (String.toList_eq_nil_iff.1 heq)
  have hcut : Cut isBlank gap' c (headingParts 2 3 4) :=
    cut_blanks hgap' (isBlank_of_isWord hc) rfl
      fun d hd => mayStart_name (isWord_of_isBlank hd)
  rw [cons_append, takes_keyword "func" hne hgap ⟨'(', _, rfl, by decide⟩ rfl
    fun d hd => mayStart_bracket (ne_bracket_of_isBlank hd), append_assoc]
  exact (takes_chain_word "(").trans (((cut_closed hclosed).takes_group hleast 1).trans
    ((takes_chain_word ")").trans (hcut.takes_run (length_pos_iff.2 hne'))))

end

theorem start : ∃ rest, line.toList = 'f' :: 'u' :: rest := by
  obtain ⟨gap, lead, body, -, -, -, -, hline⟩ := hh.written
  exact ⟨_, hline⟩

theorem addLine (number : Int) : ({} : File).addLine line number = h.outline number := by
  obtain ⟨rest, hstart⟩ := hh.start
  have himport : importLine.match? line = none := match?_eq_none_of_start rfl rfl hstart
  rw [File.addLine, himport, Function.ofLine?, Function.ofMethodLine?, Header.outline]
  cases hreceiver : h.receiver with
  | none =>
    rw [hh.no_method hreceiver]
    have hways := hh.ways_function hreceiver
    cases htold : h.results.told? with
    | none =>
      rw [hways.not_found htold]
      rfl
    | some t =>
      obtain ⟨m, hm, hname, hparameters, hresults, -⟩ := hways.found htold
      simp [hm, hname, hparameters, hresults]
  | some receiver =>
    rw [hh.no_function hreceiver]
    obtain ⟨rest, hways⟩ := hh.ways_method hreceiver
    cases htold : h.results.told? with
    | none =>
      rw [hways.not_found htold]
      rfl
    | some t =>
      obtain ⟨m, hm, hname, hparameters, hresults, new, hgroups, hnew⟩ := hways.found htold
      have hfirst : m.group 1 = receiver := by
        rw [group_of_groups hgroups, String.ofList_toList]
        intro g hg
        have hnumber := hnew g hg
        omega
      simp [hm, hfirst, hname, hparameters, hresults]

theorem step_header {ctx : Context} (hctx : ctx.inComment = false)
    (himports : ctx.inImports = false)
    (hopen : opensComment line = false) (number : Int) :
    step (ctx, {}) line number = (ctx, h.outline number) := by
  obtain ⟨rest, hstart⟩ := hh.start
  have hpassed : isPassed line = false := isPassed_eq_false hstart (by decide)
  have hpackage : packageLine.match? line = none := match?_eq_none_of_start rfl rfl hstart
  have hline : line ≠ "import (" := by
    rintro rfl
    cases hstart
  rw [step_code hopen hctx himports hpassed hpackage hline, hh.addLine]

end Heads

/-- A line that begins a function or a method, outside comments and lists of imports, adds just that
to the outline, with its name, its receiver, its parameters and its results. But if it gives back a
single type without brackets, it adds nothing: the outline is that with an empty line instead. -/
theorem File.ofLines_header {before : List String} (hcomment : ¬InComment before)
    (himports : ¬InImports before) {line : String} {h : Header} (hheads : Heads h (strip line))
    (hopen : opensComment (strip line) = false) (after : List String) :
    ∃ rest, File.ofLines (before ++ "" :: after) = File.ofLines before ++ rest ∧
      File.ofLines (before ++ line :: after) =
        File.ofLines before ++ (h.outline before.length ++ rest) := by
  rw [← after_inComment, Bool.not_eq_true] at hcomment
  rw [← after_inImports, Bool.not_eq_true] at himports
  have hstep := hheads.step_header hcomment himports hopen
  have hempty : ∀ n, step (Context.after {} before, {}) (strip "") n =
      (Context.after {} before, {}) :=
    fun n => step_passed rfl hcomment rfl {} n
  refine ⟨readLines (Context.after {} before, {}) (before.length + 1) after, ?_, ?_⟩
  · rw [File.ofLines_append, readLines, hempty]
  · rw [File.ofLines_append, readLines, hstep, readLines_eq]

def putHeader : Header :=
  ⟨some "b *Box", "Put", " n int ", .list "int, error"⟩

theorem File.ofLines_header_method :
    Heads putHeader (strip " func (b *Box) Put( n int ) (int, error) \x7b") ∧
      putHeader.outline 1 = { methods := [⟨"Put", some "b *Box", "n int", "int, error", 2⟩] } ∧
      ∃ rest, File.ofLines ["package box", "", "\x7d"] = File.ofLines ["package box"] ++ rest ∧
        File.ofLines ["package box", " func (b *Box) Put( n int ) (int, error) \x7b", "\x7d"] =
          File.ofLines ["package box"] ++ (putHeader.outline 1 ++ rest) := by
  have hstrip : strip " func (b *Box) Put( n int ) (int, error) \x7b" =
      "func (b *Box) Put( n int ) (int, error) \x7b" := by decide +kernel
  have hheads : Heads putHeader (strip " func (b *Box) Put( n int ) (int, error) \x7b") := by
    rw [hstrip]
    refine ⟨by decide, ?_, by decide, ?_, [' '], "(b *Box) ".toList,
      "Put( n int ) (int, error) \x7b".toList, by decide, by decide, ?_, ?_, rfl⟩
    · exact List.all_eq_true.1 rfl
    · show ')' ∉ "int, error".toList
      decide
    · exact ⟨by decide, by decide, [' '], by decide, by decide, rfl⟩
    · exact ⟨[], [' '], [' '], [], by decide, by decide, by decide, rfl⟩
  have hcomment : ¬InComment ["package box"] := by
    rw [← after_inComment]
    decide +kernel
  have himports : ¬InImports ["package box"] := by
    rw [← after_inImports]
    decide +kernel
  have hopen :
      opensComment (strip " func (b *Box) Put( n int ) (int, error) \x7b") = false := by
    decide +kernel
  exact ⟨hheads, by decide +kernel, File.ofLines_header hcomment himports hheads hopen ["\x7d"]⟩

/-- A function that gives back a single type is left out, and so is a method. -/
theorem File.single_result_lost :
    Heads ⟨none, "f", "", .single "error"⟩ "func f() error \x7b" ∧
      (File.ofLines ["func f() error \x7b"]).functions = [] ∧
      Heads ⟨some "t *T", "g", "a int", .single "*T"⟩ "func (t *T) g(a int) *T \x7b" ∧
      (File.ofLines ["func (t *T) g(a int) *T \x7b"]).methods = [] := by
  refine ⟨?_, by decide +kernel, ?_, by decide +kernel⟩
  · refine ⟨by decide, ?_, by decide, ?_, [' '], [], "f() error \x7b".toList, by decide, by decide,
      rfl, ?_, rfl⟩
    · exact List.all_eq_true.1 rfl
    · exact ⟨'e', "rror".toList, rfl, by decide, by decide, by decide⟩
    · exact ⟨[], [' '], [' '], [], by decide, by decide, by decide, rfl⟩
  · refine ⟨by decide, ?_, by decide, ?_, [' '], "(t *T) ".toList, "g(a int) *T \x7b".toList,
      by decide, by decide, ?_, ?_, rfl⟩
    · exact List.all_eq_true.1 rfl
    · exact ⟨'*', "T".toList, rfl, by decide, by decide, by decide⟩
    · exact ⟨by decide, by decide, [' '], by decide, by decide, rfl⟩
    · exact ⟨[], [' '], [' '], [], by decide, by decide, by decide, rfl⟩

end RepoWiki.Outline.Go
