import RepoWiki.Path
/-
Laws of paths. Splitting at a character is a map from concatenation to concatenation, so the steps
of a path that is put together are the steps of its parts. A path is firm if it ends in something
other than a stroke; names put below a firm path one after the other give a firm path whose steps
are those of the path and then the names (`steps_extend`), and whose parent and base undo the last
of them.
-/

namespace RepoWiki

open List Text

namespace Text

variable {xs : List Char} {d : Char} {sep : String}

/-! ## Splitting at one character -/

variable {c : Char}

theorem splitFrom_cons (piece : List Char) (d : Char) (rest : List Char) :
    splitFrom [c] 0 piece (d :: rest) =
      if d = c then piece.reverse :: splitFrom [c] 0 [] rest
      else splitFrom [c] 0 (d :: piece) rest := by
  by_cases h : d = c
  · simp [splitFrom, h]
  · simp [splitFrom, h, Ne.symm h]

theorem splitFrom_append (piece xs ys : List Char) :
    splitFrom [c] 0 piece (xs ++ c :: ys) =
      splitFrom [c] 0 piece xs ++ splitFrom [c] 0 [] ys := by
  induction xs generalizing piece with
  | nil => rw [nil_append, splitFrom_cons, if_pos rfl]; rfl
  | cons d xs ih =>
    rw [cons_append, splitFrom_cons, splitFrom_cons]
    split
    · rw [ih, cons_append]
    · exact ih _

theorem splitFrom_free (piece : List Char) (h : c ∉ xs) :
    splitFrom [c] 0 piece xs = [piece.reverse ++ xs] := by
  induction xs generalizing piece with
  | nil => simp [splitFrom]
  | cons d xs ih =>
    rw [mem_cons, not_or] at h
    rw [splitFrom_cons, if_neg (Ne.symm h.1), ih _ h.2]
    simp

variable {piece : List Char} {s : String}

theorem not_mem_of_mem_splitFrom {p : List Char} (h : c ∉ piece)
    (hp : p ∈ splitFrom [c] 0 piece xs) : c ∉ p := by
  induction xs generalizing piece with
  | nil =>
    rw [splitFrom, mem_singleton] at hp
    rwa [hp, mem_reverse]
  | cons d xs ih =>
    rw [splitFrom_cons] at hp
    split at hp
    · rcases mem_cons.1 hp with rfl | hp
      · rwa [mem_reverse]
      · exact ih not_mem_nil hp
    · next hd => exact ih (by simp [h, Ne.symm hd]) hp

theorem exists_mem_splitFrom (hd : d ∈ piece ∨ d ∈ xs) (hne : d ≠ c) :
    ∃ p ∈ splitFrom [c] 0 piece xs, d ∈ p := by
  induction xs generalizing piece with
  | nil =>
    rw [splitFrom]
    exact ⟨piece.reverse, mem_cons_self, mem_reverse.2 (by simpa using hd)⟩
  | cons x xs ih =>
    rw [splitFrom_cons]
    split
    · next hx =>
      rcases hd with hd | hd
      · exact ⟨piece.reverse, mem_cons_self, mem_reverse.2 hd⟩
      · have hxs : d ∈ xs := (mem_cons.1 hd).resolve_left (hx ▸ hne)
        obtain ⟨p, hp, hdp⟩ := @ih [] (.inr hxs)
        exact ⟨p, mem_cons_of_mem _ hp, hdp⟩
    · refine ih ?_
      rcases hd with hd | hd
      · exact .inl (mem_cons_of_mem x hd)
      · rcases mem_cons.1 hd with rfl | hd
        · exact .inl mem_cons_self
        · exact .inr hd

def Sole (c : Char) (sep : String) : Prop :=
  sep.toList = [c]

theorem splitOn_append (hs : Sole c sep) (s t : String) :
    splitOn sep (s ++ sep ++ t) = splitOn sep s ++ splitOn sep t := by
  rw [Sole] at hs
  simp only [splitOn, String.toList_append, hs, append_assoc, singleton_append,
    splitFrom_append, map_append]

theorem splitOn_free (hs : Sole c sep) (h : c ∉ s.toList) : splitOn sep s = [s] := by
  rw [Sole] at hs
  rw [splitOn, hs, splitFrom_free [] h]
  simp

theorem mem_of_mem_splitFrom {sep p : List Char} {skip : Nat}
    (hp : p ∈ splitFrom sep skip piece xs) (hd : d ∈ p) : d ∈ piece ∨ d ∈ xs := by
  induction xs generalizing skip piece with
  | nil =>
    rw [splitFrom, mem_singleton] at hp
    rw [hp, mem_reverse] at hd
    exact .inl hd
  | cons x xs ih =>
    cases skip with
    | succ skip => exact (ih (by simpa [splitFrom] using hp)).imp_right (mem_cons_of_mem x)
    | zero =>
      rw [splitFrom] at hp
      split at hp
      · rcases mem_cons.1 hp with rfl | hp
        · exact .inl (mem_reverse.1 hd)
        · exact .inr ((ih hp).elim (fun h => absurd h not_mem_nil) (mem_cons_of_mem x))
      · rcases ih hp with h | h
        · rcases mem_cons.1 h with rfl | h
          · exact .inr mem_cons_self
          · exact .inl h
        · exact .inr (mem_cons_of_mem x h)

theorem mem_of_mem_intercalate {sep : List Char} {pieces : List (List Char)}
    (hd : d ∈ sep.intercalate pieces) : d ∈ sep ∨ ∃ p ∈ pieces, d ∈ p := by
  induction pieces with
  | nil => simp at hd
  | cons p pieces ih =>
    cases pieces with
    | nil => exact .inr ⟨p, mem_cons_self, by simpa using hd⟩
    | cons q pieces =>
      rw [intercalate_cons_cons, mem_append, mem_append] at hd
      rcases hd with (hd | hd) | hd
      · exact .inr ⟨p, mem_cons_self, hd⟩
      · exact .inl hd
      · exact (ih hd).imp_right fun ⟨r, hr, hdr⟩ => ⟨r, mem_cons_of_mem p hr, hdr⟩

theorem mem_of_mem_replaceAll {old new : String} (hd : d ∈ (replaceAll old new s).toList) :
    d ∈ new.toList ∨ d ∈ s.toList := by
  rw [replaceAll, join, String.toList_intercalate] at hd
  refine (mem_of_mem_intercalate hd).imp_right ?_
  rintro ⟨p, hp, hdp⟩
  simp only [splitOn, map_map, mem_map, Function.comp_apply, String.toList_ofList] at hp
  obtain ⟨q, hq, rfl⟩ := hp
  exact (mem_of_mem_splitFrom hq hdp).resolve_left not_mem_nil

theorem not_mem_of_mem_splitOn {p : String} (hs : Sole c sep) (hp : p ∈ splitOn sep s) :
    c ∉ p.toList := by
  obtain ⟨q, hq, rfl⟩ := mem_map.1 hp
  rw [Sole] at hs
  rw [hs] at hq
  rw [String.toList_ofList]
  exact not_mem_of_mem_splitFrom not_mem_nil hq

/-! ## The last occurrence of a character -/

theorem cutList_append (ys : List Char) (h : c ∉ xs) :
    cutList [c] (xs ++ c :: ys) = some (xs, ys) := by
  induction xs with
  | nil => simp [cutList]
  | cons d xs ih =>
    rw [mem_cons, not_or] at h
    simp [cutList, h.1, ih h.2]

theorem cutLast?_append {t : String} (hs : Sole c sep) (s : String) (h : c ∉ t.toList) :
    cutLast? sep (s ++ sep ++ t) = some (s, t) := by
  rw [Sole] at hs
  simp only [cutLast?, String.toList_append, hs, reverse_append, reverse_singleton,
    singleton_append, cutList_append _ (mt mem_reverse.1 h), Option.map_some,
    reverse_reverse, String.ofList_toList]

theorem cutList_free (h : c ∉ xs) : cutList [c] xs = none := by
  induction xs with
  | nil => rfl
  | cons d xs ih =>
    rw [mem_cons, not_or] at h
    simp [cutList, h.1, ih h.2]

theorem cutLast?_free (hs : Sole c sep) (h : c ∉ s.toList) : cutLast? sep s = none := by
  rw [Sole] at hs
  rw [cutLast?, hs, reverse_singleton, cutList_free (by simpa using h)]
  rfl

theorem endsWith_sole (hs : Sole c sep) (s : String) :
    endsWith sep s = true ↔ s.toList.getLast? = some c := by
  rw [Sole] at hs
  rw [endsWith, hs, isSuffixOf_iff_suffix, singleton_suffix_iff_getLast?_eq_some]

theorem startsWith_sole (hs : Sole c sep) (s : String) :
    startsWith sep s = true ↔ s.toList.head? = some c := by
  rw [Sole] at hs
  rw [startsWith, hs]
  cases s.toList with
  | nil => simp
  | cons d ds => simp [@eq_comm Char c d]

end Text

namespace Path

variable {n p : String} {names : List String}

theorem stroke : Text.Sole '/' "/" :=
  rfl

/-! ## Names -/

theorem isName_iff :
    isName n = true ↔ stays n = false ∧ climbs n = false ∧ '/' ∉ n.toList := by
  simp [isName, and_assoc]

section

variable (h : isName n = true)
include h

theorem isName.stays : stays n = false :=
  (isName_iff.1 h).1

theorem isName.climbs : climbs n = false :=
  (isName_iff.1 h).2.1

theorem isName.free : '/' ∉ n.toList :=
  (isName_iff.1 h).2.2

theorem isName.ne_empty : n ≠ "" := by
  rintro rfl
  exact absurd (isName.stays h) (by decide)

theorem isName.relative_append (s : String) :
    isAbsolute (n ++ s) = false := by
  obtain ⟨c, cs, hc⟩ : ∃ c cs, n.toList = c :: cs :=
    exists_cons_of_ne_nil (mt String.toList_eq_nil_iff.1 (isName.ne_empty h))
  rw [Bool.eq_false_iff, isAbsolute, Ne, startsWith_sole stroke]
  have hfree := isName.free h
  rw [hc, mem_cons, not_or] at hfree
  simpa [hc, eq_comm] using hfree.1

theorem isName.relative : isAbsolute n = false := by
  simpa using isName.relative_append h ""

theorem isName.base : base n = n := by
  rw [Path.base, cutLast?_free stroke (isName.free h)]

end

theorem exists_last_stroke (h : '/' ∈ p.toList) :
    ∃ front last, p = front ++ "/" ++ last ∧ '/' ∉ last.toList := by
  obtain ⟨last, front, hp, hlast⟩ := eq_append_cons_of_mem (mem_reverse.2 h)
  refine ⟨String.ofList front.reverse, String.ofList last.reverse, ?_, ?_⟩
  · have hlist := congrArg List.reverse hp
    rw [reverse_reverse, reverse_append, reverse_cons] at hlist
    apply String.toList_inj.1
    simp [hlist]
  · rwa [String.toList_ofList, mem_reverse]

theorem not_mem_base (p : String) : '/' ∉ (base p).toList := by
  by_cases h : '/' ∈ p.toList
  · obtain ⟨front, last, rfl, hfree⟩ := exists_last_stroke h
    rwa [base, cutLast?_append stroke _ hfree]
  · rwa [base, cutLast?_free stroke h]

theorem isName_of_last {c : Char} (hc : n.toList.getLast? = some c) (hdot : c ≠ '.')
    (hfree : '/' ∉ n.toList) : isName n = true := by
  have hne : ∀ t : String, t.toList.getLast? ≠ some c → n ≠ t := by
    rintro t ht rfl
    exact ht hc
  have hdots : "".toList.getLast? ≠ some c ∧ ".".toList.getLast? ≠ some c ∧
      "..".toList.getLast? ≠ some c := by simpa [eq_comm] using hdot
  rw [isName_iff, stays, climbs]
  simp [hne _ hdots.1, hne _ hdots.2.1, hne _ hdots.2.2, hfree]

theorem isName_append {s t : String} {c : Char} (hs : '/' ∉ s.toList) (ht : '/' ∉ t.toList)
    (hc : t.toList.getLast? = some c) (hdot : c ≠ '.') : isName (s ++ t) = true := by
  refine isName_of_last ?_ hdot ?_
  · rw [String.toList_append, getLast?_append, hc, Option.some_or]
  · rw [String.toList_append, mem_append, not_or]
    exact ⟨hs, ht⟩

/-! ## Firm paths -/

def Firm (p : String) : Prop :=
  ∃ c, p.toList.getLast? = some c ∧ c ≠ '/'

theorem isName.firm (h : isName n = true) : Firm n := by
  cases hn : n.toList.getLast? with
  | none =>
    rw [getLast?_eq_none_iff, String.toList_eq_nil_iff] at hn
    exact absurd hn (isName.ne_empty h)
  | some c =>
    refine ⟨c, hn, ?_⟩
    rintro rfl
    exact isName.free h (mem_of_getLast? hn)

theorem Firm.append {t : String} (h : Firm t) (s : String) : Firm (s ++ t) := by
  obtain ⟨c, hc, hne⟩ := h
  exact ⟨c, by simp [hc], hne⟩

theorem Firm.ne_empty (h : Firm p) : p ≠ "" := by
  rintro rfl
  obtain ⟨c, hc, -⟩ := h
  simp at hc

theorem Firm.endsWith (h : Firm p) : endsWith "/" p = false := by
  obtain ⟨c, hc, hne⟩ := h
  rw [Bool.eq_false_iff, Ne, endsWith_sole stroke, hc]
  simpa using hne

theorem Firm.join_relative {q : String} (h : Firm p) (hq : isAbsolute q = false) :
    Path.join p q = p ++ "/" ++ q := by
  simp [Path.join, hq, h.ne_empty, h.endsWith]

theorem Firm.join (h : Firm p) (hn : isName n = true) :
    Path.join p n = p ++ "/" ++ n :=
  h.join_relative (isName.relative hn)

theorem firm_join (p : String) (hn : isName n = true) : Firm (join p n) := by
  rw [join, isName.relative hn, if_neg Bool.false_ne_true]
  split
  · exact (isName.firm hn).append p
  · exact (isName.firm hn).append (p ++ "/")

/-! ## Steps -/

def named (p : String) : List String :=
  (Text.splitOn "/" p).filter (· ≠ "")

theorem Firm.steps (h : Firm p) : steps p = named p := by
  simp [Path.steps, h.endsWith, named]

theorem named_append (p q : String) : named (p ++ "/" ++ q) = named p ++ named q := by
  rw [named, splitOn_append stroke, filter_append]
  rfl

theorem isName.named (h : isName n = true) : named n = [n] := by
  simp [Path.named, splitOn_free stroke (isName.free h), isName.ne_empty h]

theorem not_mem_of_mem_steps {s : String} (h : s ∈ steps p) : '/' ∉ s.toList := by
  have hnamed : ∀ s ∈ named p, '/' ∉ s.toList := fun s hs =>
    not_mem_of_mem_splitOn stroke (mem_filter.1 hs).1
  simp only [steps, ← named.eq_1] at h
  split at h
  · rcases mem_append.1 h with h | h
    · exact hnamed s h
    · simp [mem_singleton.1 h]
  · exact hnamed s h

theorem Firm.steps_join (h : Firm p) (hn : isName n = true) :
    Path.steps (Path.join p n) = Path.steps p ++ [n] := by
  rw [(firm_join p hn).steps, h.steps, h.join hn, named_append, isName.named hn]

theorem Firm.named_ne_nil (h : Firm p) : named p ≠ [] := by
  obtain ⟨c, hc, hne⟩ := h
  obtain ⟨piece, hpiece, hmem⟩ :=
    exists_mem_splitFrom (c := '/') (.inr (mem_of_getLast? hc)) hne
  refine ne_nil_of_mem (mem_filter.2 ⟨mem_map.2 ⟨piece, hpiece, rfl⟩, ?_⟩)
  have : piece ≠ [] := ne_nil_of_mem hmem
  simpa using this

theorem named_stroke (p : String) : named (p ++ "/") = named p := by
  simpa [named, Text.splitOn, Text.splitFrom] using named_append p ""

theorem steps_eq (p : String) : steps p = named p ∨ steps p = named p ++ [""] := by
  simp only [steps, ← named.eq_1]
  split
  · exact .inr rfl
  · exact .inl rfl

theorem steps_join (hp : p ≠ "") (hn : isName n = true) :
    steps (join p n) = named p ++ [n] := by
  rw [(firm_join p hn).steps, join, isName.relative hn, if_neg Bool.false_ne_true]
  cases hend : endsWith "/" p with
  | false =>
    have hcond : ¬((decide (p = "") || false) = true) := by simpa using hp
    rw [if_neg hcond, named_append, isName.named hn]
  | true =>
    obtain ⟨cs, hcs⟩ := getLast?_eq_some_iff.1 ((endsWith_sole stroke p).1 hend)
    have hp' : p = String.ofList cs ++ "/" := by
      rw [← String.toList_inj, hcs]
      simp
    rw [if_pos (by simp), hp', named_append, named_stroke, isName.named hn]

/-- A path whose last step is a name. -/
structure Ends (p : String) (front : List String) (name : String) : Prop where
  firm : Firm p
  steps : steps p = front ++ [name]
  name : isName name = true

theorem Ends.filter {name : String} {front : List String} (h : Ends p front name) :
    (Path.steps p).filter (· ≠ "") = front ++ [name] := by
  rw [← h.steps, h.firm.steps, named, filter_filter]
  simp

theorem exists_ends {c : Char} (hc : p.toList.getLast? = some c) (hstroke : c ≠ '/')
    (hdot : c ≠ '.') : ∃ front name, Ends p front name := by
  have hfirm : Firm p := ⟨c, hc, hstroke⟩
  by_cases h : '/' ∈ p.toList
  · obtain ⟨front, last, rfl, hfree⟩ := exists_last_stroke h
    have hlast : last.toList.getLast? = some c := by
      rw [String.toList_append, getLast?_append] at hc
      cases hl : last.toList.getLast? with
      | none => simp [hl, eq_comm, hstroke] at hc
      | some d => rwa [hl] at hc
    have hname := isName_of_last hlast hdot hfree
    exact ⟨named front, last, hfirm, by rw [hfirm.steps, named_append, isName.named hname], hname⟩
  · have hname := isName_of_last hc hdot h
    exact ⟨[], p, hfirm, by rw [hfirm.steps, isName.named hname]; rfl, hname⟩

theorem Firm.steps_stroke (h : Firm p) :
    Path.steps (p ++ "/") = Path.steps p ++ [""] := by
  have hend : Text.endsWith "/" (p ++ "/") = true := (Text.endsWith_sole stroke _).2 (by simp)
  simp only [Path.steps, ← named.eq_1, named_stroke, hend, h.endsWith]
  simp [h.named_ne_nil]

theorem isAbsolute_append (hp : p ≠ "") (s : String) :
    isAbsolute (p ++ s) = isAbsolute p := by
  obtain ⟨c, cs, hcs⟩ : ∃ c cs, p.toList = c :: cs :=
    exists_cons_of_ne_nil (mt String.toList_eq_nil_iff.1 hp)
  rw [Bool.eq_iff_iff, isAbsolute, isAbsolute, startsWith_sole stroke, startsWith_sole stroke]
  simp [hcs]

theorem isAbsolute_join (p : String) (hn : isName n = true) :
    isAbsolute (join p n) = isAbsolute p := by
  rw [join, isName.relative hn, if_neg Bool.false_ne_true]
  by_cases hp : p = ""
  · rw [if_pos (by simp [hp]), hp, String.empty_append, isName.relative hn]
    decide
  · split
    · exact isAbsolute_append hp n
    · rw [String.append_assoc, isAbsolute_append hp]

theorem Firm.trimEndBy (h : Firm p) : Text.trimEndBy (· == '/') p = p := by
  obtain ⟨c, hc, hne⟩ := h
  obtain ⟨cs, hp⟩ : ∃ cs, p.toList = cs ++ [c] := getLast?_eq_some_iff.1 hc
  have h' : p = String.ofList (cs ++ [c]) := by rw [← hp, String.ofList_toList]
  simp [Text.trimEndBy, Text.dropEndWhile, hne, h']

theorem Firm.parent_join (h : Firm p) (hn : isName n = true) :
    parent (Path.join p n) = p := by
  have htrim : Text.trimEndBy (· == '/') (p ++ "/") = p := by
    have hp := h.trimEndBy
    rw [Text.trimEndBy, Text.dropEndWhile] at hp ⊢
    simpa using hp
  rw [h.join hn, parent, Text.cutLast?_append stroke p (isName.free hn)]
  dsimp only
  rw [htrim, if_neg h.ne_empty]

/-! ## Several names -/

def extend (p : String) (names : List String) : String :=
  names.foldl join p

@[simp] theorem extend_nil (p : String) : extend p [] = p := rfl

theorem extend_cons (p n : String) (names : List String) :
    extend p (n :: names) = extend (join p n) names := rfl

theorem extend_append (p : String) (names more : List String) :
    extend p (names ++ more) = extend (extend p names) more :=
  foldl_append

theorem extend_concat (p : String) (names : List String) (n : String) :
    extend p (names ++ [n]) = join (extend p names) n :=
  extend_append p names [n]

theorem Firm.firm_extend (h : Firm p) (hn : names.all isName = true) : Firm (extend p names) := by
  induction names generalizing p with
  | nil => exact h
  | cons n names ih =>
    rw [all_cons, Bool.and_eq_true] at hn
    exact ih (firm_join p hn.1) hn.2

theorem Firm.steps_extend (h : Firm p) (hn : names.all isName = true) :
    Path.steps (extend p names) = Path.steps p ++ names := by
  induction names generalizing p with
  | nil => simp
  | cons n names ih =>
    rw [all_cons, Bool.and_eq_true] at hn
    rw [extend_cons, ih (firm_join p hn.1) hn.2, h.steps_join hn.1, append_assoc]
    rfl

theorem isAbsolute_extend (p : String) (hn : names.all isName = true) :
    isAbsolute (extend p names) = isAbsolute p := by
  induction names generalizing p with
  | nil => rfl
  | cons n names ih =>
    rw [all_cons, Bool.and_eq_true] at hn
    rw [extend_cons, ih (join p n) hn.2, isAbsolute_join p hn.1]

theorem relative_names (hne : names ≠ []) (hn : names.all isName = true) :
    isAbsolute (Text.join "/" names) = false := by
  match names with
  | [] => exact absurd rfl hne
  | [n] =>
    rw [Text.join, String.intercalate_singleton]
    exact isName.relative (by simpa using hn)
  | n :: m :: names =>
    rw [all_cons, Bool.and_eq_true] at hn
    rw [Text.join, String.intercalate_cons_cons, String.append_assoc]
    exact isName.relative_append hn.1 _

theorem join_names (p : String) (hne : names ≠ []) (hn : names.all isName = true) :
    join p (Text.join "/" names) = extend p names := by
  induction names generalizing p with
  | nil => exact absurd rfl hne
  | cons n names ih =>
    have hrel := relative_names hne hn
    rw [all_cons, Bool.and_eq_true] at hn
    cases names with
    | nil => rw [Text.join, String.intercalate_singleton]; rfl
    | cons m names =>
      rw [extend_cons, ← ih (join p n) (cons_ne_nil m names) hn.2,
        (firm_join p hn.1).join_relative (relative_names (cons_ne_nil m names) hn.2),
        join, hrel, join, isName.relative hn.1, Text.join, String.intercalate_cons_cons]
      split
      · rfl
      · split <;> simp only [Text.join, String.append_assoc]

end Path

/-! ## The data root -/

def rootOf (home : String) : String :=
  Text.trimEndBy (· == '/') home ++ "/.adalflow"

theorem rootOf_firm (home : String) : Path.Firm (rootOf home) := by
  have hend : Path.Firm "/.adalflow" := ⟨'w', by decide, by decide⟩
  exact hend.append _

end RepoWiki
