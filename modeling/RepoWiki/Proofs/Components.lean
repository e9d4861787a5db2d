import RepoWiki.Glob
import RepoWiki.Proofs.Path
/-
The components of paths. Where names are put below a path, they come after its components, and the
way back to them from the path is the names with strokes between them. That holds for every path
that is not empty, however many strokes are at its end.
-/

namespace RepoWiki

open List RepoWiki.Path Text

namespace Text

theorem endsWith_append {c : Char} {sep ending : String} (hs : Sole c sep)
    (he : c ∉ ending.toList) (s t : String) :
    endsWith ending (s ++ sep ++ t) = endsWith ending t := by
  rw [Sole] at hs
  rw [Bool.eq_iff_iff, endsWith, endsWith, isSuffixOf_iff_suffix, isSuffixOf_iff_suffix,
    String.toList_append, String.toList_append, hs, append_assoc, singleton_append]
  constructor
  · rintro ⟨before, hbefore⟩
    rcases append_eq_append_iff.1 hbefore with ⟨as, -, hend⟩ | ⟨as, -, hrest⟩
    · exact absurd (by simp [hend]) he
    · cases as with
      | nil =>
        rw [nil_append] at hrest
        rw [← hrest] at he
        exact absurd mem_cons_self he
      | cons a as => exact ⟨as, (cons.inj hrest).2.symm⟩
  · exact fun h => h.trans (suffix_append_of_suffix (suffix_cons c t.toList))

theorem splitOn_join {c : Char} {sep : String} (hs : Sole c sep) {pieces : List String}
    (hne : pieces ≠ []) (hfree : ∀ piece ∈ pieces, c ∉ piece.toList) :
    splitOn sep (join sep pieces) = pieces := by
  induction pieces with
  | nil => exact absurd rfl hne
  | cons piece pieces ih =>
    have hpiece := splitOn_free hs (hfree piece mem_cons_self)
    cases pieces with
    | nil => rw [join, String.intercalate_singleton, hpiece]
    | cons next pieces =>
      rw [join, String.intercalate_cons_cons, splitOn_append hs, hpiece, ← join,
        ih (cons_ne_nil next pieces) fun q hq => hfree q (mem_cons_of_mem piece hq)]
      rfl

end Text

namespace Path

variable {n p : String} {names : List String}

/-! ## Components -/

theorem pushComponent_name (hn : isName n = true) (rooted : Bool) (done : List String) :
    pushComponent rooted done n = n :: done := by
  have hstays := isName.stays hn
  have hclimbs := isName.climbs hn
  simp only [stays, climbs, Bool.or_eq_false_iff, decide_eq_false_iff_not] at hstays hclimbs
  simp [pushComponent, hstays.1, hstays.2, hclimbs]

theorem foldl_pushComponent (hn : names.all isName = true) (rooted : Bool) (done : List String) :
    names.foldl (pushComponent rooted) done = names.reverse ++ done := by
  induction names generalizing done with
  | nil => rfl
  | cons n names ih =>
    rw [all_cons, Bool.and_eq_true] at hn
    rw [foldl_cons, pushComponent_name hn.1, ih hn.2]
    simp

theorem components_all (hp : isAbsolute p = true) :
    (components p).all isName = true := by
  -- On an absolute path a step up takes a name away or does nothing, so `..` is never put down.
  have hfold : ∀ (pieces done : List String), (∀ s ∈ pieces, '/' ∉ s.toList) →
      done.all isName = true → (pieces.foldl (pushComponent true) done).all isName = true := by
    intro pieces
    induction pieces with
    | nil => exact fun done _ hdone => hdone
    | cons s pieces ih =>
      intro done hfree hdone
      refine ih _ (fun t ht => hfree t (mem_cons_of_mem s ht)) ?_
      unfold pushComponent
      split
      · exact hdone
      · split
        · cases done with
          | nil => rfl
          | cons d rest =>
            rw [all_cons, Bool.and_eq_true] at hdone
            have hd : d ≠ ".." := by
              rintro rfl
              exact absurd hdone.1 (by decide)
            simpa [hd] using hdone.2
        · next hstays hclimbs =>
          rw [all_cons, hdone, Bool.and_true, isName_iff, stays, climbs]
          exact ⟨by simpa using hstays, by simpa using hclimbs, hfree s mem_cons_self⟩
  rw [components, hp, all_reverse]
  exact hfold _ [] (fun s hs => not_mem_of_mem_splitOn stroke hs) rfl

theorem ne_empty_of_isAbsolute (hp : isAbsolute p = true) : p ≠ "" := by
  rintro rfl
  exact absurd hp (by decide)

theorem append_ne_empty {s t : String} (ht : t ≠ "") : s ++ t ≠ "" := by
  simp [ht]

theorem components_append (s t : String) :
    components (s ++ "/" ++ t) =
      ((Text.splitOn "/" t).foldl (pushComponent (isAbsolute (s ++ "/")))
        (components (s ++ "/")).reverse).reverse := by
  have hsplit : Text.splitOn "/" (s ++ "/") = Text.splitOn "/" s ++ [""] := by
    simpa [Text.splitOn, Text.splitFrom] using Text.splitOn_append stroke s ""
  have hstroke : ∀ done, pushComponent (isAbsolute (s ++ "/")) done "" = done := fun done => rfl
  rw [components, isAbsolute_append (append_ne_empty (by decide)), Text.splitOn_append stroke,
    foldl_append, components, hsplit, foldl_append, foldl_cons, foldl_nil,
    hstroke, reverse_reverse]

theorem components_name (s : String) (hn : isName n = true) :
    components (s ++ "/" ++ n) = components (s ++ "/") ++ [n] := by
  rw [components_append, splitOn_free stroke (isName.free hn), foldl_cons, foldl_nil,
    pushComponent_name hn, reverse_cons, reverse_reverse]

theorem components_stroke (hp : p ≠ "") : components (p ++ "/") = components p := by
  have hsplit : Text.splitOn "/" (p ++ "/") = Text.splitOn "/" p ++ [""] := by
    simpa [Text.splitOn, Text.splitFrom] using Text.splitOn_append stroke p ""
  rw [components, isAbsolute_append hp, hsplit, foldl_append, foldl_cons, foldl_nil, components]
  rfl

theorem join_eq (hp : p ≠ "") (hn : isName n = true) :
    ∃ s, join p n = s ++ "/" ++ n ∧ components (s ++ "/") = components p := by
  rw [join, isName.relative hn]
  cases hend : endsWith "/" p with
  | false => exact ⟨p, by simp [hp], components_stroke hp⟩
  | true =>
    obtain ⟨cs, hcs⟩ := getLast?_eq_some_iff.1 ((endsWith_sole stroke p).1 hend)
    have hp' : p = String.ofList cs ++ "/" := by
      rw [← String.toList_inj, hcs]
      simp
    exact ⟨String.ofList cs, by simp [← hp'], by rw [← hp']⟩

theorem firm_of_not_endsWith (hp : p ≠ "") (hend : endsWith "/" p = false) :
    Firm p := by
  cases hlast : p.toList.getLast? with
  | none => exact absurd (String.toList_eq_nil_iff.1 (getLast?_eq_none_iff.1 hlast)) hp
  | some c =>
    refine ⟨c, hlast, ?_⟩
    rintro rfl
    simp [(endsWith_sole stroke p).2 hlast] at hend

theorem join_join_empty (p : String) (hn : isName n = true) :
    join (join p "") n = join p n := by
  by_cases hp : p = ""
  · rw [hp]
    rfl
  cases hend : endsWith "/" p with
  | true => simp [join, hend, isAbsolute, startsWith]
  | false =>
    have hfirm := firm_of_not_endsWith hp hend
    have hstroke : endsWith "/" (p ++ "/") = true :=
      (endsWith_sole stroke _).2 (by simp)
    rw [hfirm.join_relative (by decide), hfirm.join hn, join, isName.relative hn]
    simp [hstroke]

theorem components_join (hp : p ≠ "") (hn : isName n = true) :
    components (join p n) = components p ++ [n] := by
  obtain ⟨s, hjoin, hcomponents⟩ := join_eq hp hn
  rw [hjoin, components_name s hn, hcomponents]

theorem base_join (hp : p ≠ "") (hn : isName n = true) : base (join p n) = n := by
  obtain ⟨s, hjoin, -⟩ := join_eq hp hn
  rw [base, hjoin, cutLast?_append stroke s (isName.free hn)]

theorem join_ne_empty (hp : p ≠ "") (q : String) : join p q ≠ "" := by
  rw [join]
  split
  · next hq =>
    rintro rfl
    exact absurd hq (by decide)
  · split <;> simp [hp]

theorem endsWith_stroke_append (s : String) (hp : p ≠ "") :
    endsWith "/" (s ++ p) = endsWith "/" p := by
  have hlast : (s ++ p).toList.getLast? = p.toList.getLast? := by
    rw [String.toList_append, getLast?_append, getLast?_eq_some_getLast (by simpa using hp),
      Option.some_or]
  rw [Bool.eq_iff_iff, endsWith_sole stroke, endsWith_sole stroke, hlast]

def seam (p : String) : String :=
  if p = "" || Text.endsWith "/" p then "" else "/"

theorem join_seam (p : String) {q : String} (hq : isAbsolute q = false) :
    join p q = p ++ seam p ++ q := by
  rw [join, seam, hq, if_neg Bool.false_ne_true]
  split <;> simp

theorem join_join (a : String) {q : String} (hp : p ≠ "") (hrel : isAbsolute p = false)
    (hq : isAbsolute q = false) : join a (join p q) = join (join a p) q := by
  have hdown : isAbsolute (join p q) = false := by
    rw [join_seam p hq, String.append_assoc, isAbsolute_append hp, hrel]
  have hseam : seam (a ++ seam a ++ p) = seam p := by
    simp [seam, endsWith_stroke_append _ hp, hp]
  rw [join_seam a hdown, join_seam p hq, join_seam a hrel, join_seam _ hq, hseam]
  simp only [String.append_assoc]

section Extend

variable {p : String} {names : List String}

theorem extend_ne_empty (hp : p ≠ "") (hn : names.all isName = true) : extend p names ≠ "" := by
  induction names generalizing p with
  | nil => exact hp
  | cons n names ih =>
    rw [all_cons, Bool.and_eq_true] at hn
    exact ih (join_ne_empty hp n) hn.2

theorem components_extend (hp : p ≠ "") (hn : names.all isName = true) :
    components (extend p names) = components p ++ names := by
  induction names generalizing p with
  | nil => simp
  | cons n names ih =>
    rw [all_cons, Bool.and_eq_true] at hn
    rw [extend_cons, ih (join_ne_empty hp n) hn.2, components_join hp hn.1, append_assoc]
    rfl

end Extend

theorem join_extend (a : String) (hp : p ≠ "") (hrel : isAbsolute p = false)
    (hn : names.all isName = true) :
    join a (extend p names) = extend (join a p) names := by
  induction names generalizing p with
  | nil => rfl
  | cons n names ih =>
    rw [all_cons, Bool.and_eq_true] at hn
    rw [extend_cons, extend_cons, ih (join_ne_empty hp n)
      ((isAbsolute_join p hn.1).trans hrel) hn.2,
      join_join a hp hrel (isName.relative hn.1)]

theorem isAbsolute_join_relative {a : String} (ha : isAbsolute a = true)
    (hp : isAbsolute p = false) : isAbsolute (join a p) = true := by
  rw [join_seam a hp, String.append_assoc, isAbsolute_append (ne_empty_of_isAbsolute ha), ha]

/-! ## Normal forms -/

theorem normalize_absolute (hp : isAbsolute p = true) :
    ∃ s, (s = "" ∨ s = "/") ∧ normalize p = s ++ "/" ++ Text.join "/" (components p) := by
  have hne : ∀ s t : String, s ++ "/" ++ t ≠ "" := by simp
  simp only [normalize, hp, if_true]
  split
  · exact ⟨"/", .inr rfl, if_neg (hne "/" _)⟩
  · exact ⟨"", .inl rfl, if_neg (hne "" _)⟩

theorem splitOn_normalize (hp : isAbsolute p = true) :
    ∃ strokes, (∀ s ∈ strokes, s = "") ∧ strokes ≠ [] ∧
      Text.splitOn "/" (normalize p) =
        strokes ++ Text.splitOn "/" (Text.join "/" (components p)) := by
  obtain ⟨s, hs, hnormal⟩ := normalize_absolute hp
  rw [hnormal, Text.splitOn_append stroke]
  refine ⟨Text.splitOn "/" s, ?_, ?_, rfl⟩
  · rcases hs with rfl | rfl <;> decide
  · rcases hs with rfl | rfl <;> decide

theorem components_normalize (hp : isAbsolute p = true) :
    components (normalize p) = components p := by
  obtain ⟨s, hs, hnormal⟩ := normalize_absolute hp
  obtain ⟨strokes, hstrokes, -, hsplit⟩ := splitOn_normalize hp
  have hall := components_all hp
  have hrooted : isAbsolute (normalize p) = true := by
    rw [hnormal, isAbsolute_append (append_ne_empty (by decide))]
    rcases hs with rfl | rfl <;> decide
  have hskip : ∀ (pieces : List String), (∀ t ∈ pieces, t = "") → ∀ done,
      pieces.foldl (pushComponent true) done = done := by
    intro pieces hpieces
    induction pieces with
    | nil => exact fun done => rfl
    | cons t pieces ih =>
      intro done
      obtain rfl := hpieces t mem_cons_self
      exact ih (fun u hu => hpieces u (mem_cons_of_mem _ hu)) done
  rw [components, hrooted, hsplit, foldl_append, hskip strokes hstrokes]
  cases hc : components p with
  | nil => rfl
  | cons c cs =>
    rw [hc] at hall
    rw [Text.splitOn_join stroke (cons_ne_nil c cs), foldl_pushComponent hall,
      append_nil, reverse_reverse]
    intro n hn
    exact isName.free (all_eq_true.1 hall n hn)

theorem dropCommon_append (names more : List String) :
    dropCommon names (names ++ more) = ([], more) := by
  induction names with
  | nil => cases more <;> rfl
  | cons n names ih => simp [dropCommon, ih]

theorem relative_extend {r : String} (hp : isAbsolute p = true) (hr : isAbsolute r = true)
    (hcomponents : components r = components p) (hne : names ≠ []) (hn : names.all isName = true)
    (cwd : String) :
    relative cwd (extend r names) p = Text.join "/" names := by
  have hrne := ne_empty_of_isAbsolute hr
  have habs : isAbsolute (extend r names) = true := (isAbsolute_extend r hn).trans hr
  have hdown : components (absolute cwd (extend r names)) = components p ++ names := by
    rw [absolute, if_pos habs, components_normalize habs, components_extend hrne hn, hcomponents]
  have hup : components (absolute cwd p) = components p := by
    rw [absolute, if_pos hp, components_normalize hp]
  rw [relative, hdown, hup, dropCommon_append]
  simp [hne]

theorem components_absolute_extend {cwd : String} (hcwd : isAbsolute cwd = true) (hp : p ≠ "")
    (hn : names.all isName = true) :
    components (absolute cwd (extend p names)) = components (absolute cwd p) ++ names := by
  have hbelow := isAbsolute_extend p hn
  cases hrel : isAbsolute p with
  | true =>
    rw [hrel] at hbelow
    rw [absolute, absolute, if_pos hbelow, if_pos hrel, components_normalize hbelow,
      components_normalize hrel, components_extend hp hn]
  | false =>
    have hjoin := isAbsolute_join_relative hcwd hrel
    rw [absolute, absolute, hbelow, hrel, if_neg Bool.false_ne_true, if_neg Bool.false_ne_true,
      join_extend cwd hp hrel hn, components_normalize ((isAbsolute_extend _ hn).trans hjoin),
      components_normalize hjoin, components_extend (ne_empty_of_isAbsolute hjoin) hn]

/-! ## Strokes at the end -/

theorem exists_strokes (p : String) :
    ∃ k, p = trimEndBy (· == '/') p ++ String.ofList (replicate k '/') := by
  have hcut : p.toList = dropEndWhile (· == '/') p.toList ++
      (p.toList.reverse.takeWhile (· == '/')).reverse := by
    rw [dropEndWhile, ← reverse_append, takeWhile_append_dropWhile, reverse_reverse]
  have hstrokes : ∀ c ∈ (p.toList.reverse.takeWhile (· == '/')).reverse, c = '/' := by
    intro c hc
    simpa using all_eq_true.1 all_takeWhile c (mem_reverse.1 hc)
  rw [eq_replicate_of_mem hstrokes] at hcut
  exact ⟨_, by rw [← String.toList_inj, String.toList_append, String.toList_ofList, trimEndBy,
    String.toList_ofList, ← hcut]⟩

theorem append_strokes (p : String) (k : Nat) :
    p ++ String.ofList (replicate (k + 1) '/') =
      p ++ String.ofList (replicate k '/') ++ "/" := by
  rw [← String.toList_inj]
  simp [replicate_succ']

theorem components_strokes (hp : p ≠ "") (k : Nat) :
    components (p ++ String.ofList (replicate k '/')) = components p := by
  induction k with
  | zero => simp
  | succ k ih => rw [append_strokes, components_stroke (by simp [hp]), ih]

theorem named_strokes (p : String) (k : Nat) :
    named (p ++ String.ofList (replicate k '/')) = named p := by
  induction k with
  | zero => simp
  | succ k ih => rw [append_strokes, named_stroke, ih]

end Path

namespace Glob

theorem trimmed_spec {p : String} (hp : p ≠ "") :
    trimmed p ≠ "" ∧ components (trimmed p) = components p ∧
      isAbsolute (trimmed p) = isAbsolute p := by
  rw [trimmed]
  split
  · exact ⟨hp, rfl, rfl⟩
  · next hne =>
    obtain ⟨k, hk⟩ := exists_strokes p
    exact ⟨hne, (components_strokes hne k).symm.trans (congrArg components hk).symm,
      (isAbsolute_append hne _).symm.trans (congrArg isAbsolute hk).symm⟩

theorem components_join_trimmed {cwd p : String} (hcwd : cwd ≠ "")
    (hrel : isAbsolute p = false) :
    components (join cwd (trimmed p)) = components (join cwd p) := by
  rw [trimmed]
  split
  · rfl
  · next hne =>
    obtain ⟨k, hk⟩ := exists_strokes p
    have hrel' : isAbsolute (trimEndBy (· == '/') p) = false := by
      rwa [← isAbsolute_append hne (String.ofList (replicate k '/')), ← hk]
    have hjoin : join cwd p = join cwd (trimEndBy (· == '/') p) ++
        String.ofList (replicate k '/') := by
      rw [join_seam cwd hrel, join_seam cwd hrel']
      exact (congrArg (cwd ++ seam cwd ++ ·) hk).trans String.append_assoc.symm
    rw [hjoin, components_strokes (join_ne_empty hcwd _)]

theorem relative_trimmed {cwd p : String} (hcwd : isAbsolute cwd = true) (hp : p ≠ "")
    {names : List String} (hne : names ≠ []) (hn : names.all isName = true) :
    relative cwd (extend (trimmed p) names) p = join "/" names := by
  obtain ⟨htne, hcomponents, habs⟩ := trimmed_spec hp
  have hsame : components (absolute cwd (trimmed p)) =
      components (absolute cwd p) := by
    rw [absolute, absolute, habs]
    cases hrel : isAbsolute p with
    | true =>
      rw [if_pos rfl, if_pos rfl, components_normalize (habs.trans hrel),
        components_normalize hrel, hcomponents]
    | false =>
      rw [if_neg Bool.false_ne_true, if_neg Bool.false_ne_true,
        components_normalize (isAbsolute_join_relative hcwd (habs.trans hrel)),
        components_normalize (isAbsolute_join_relative hcwd hrel),
        components_join_trimmed (ne_empty_of_isAbsolute hcwd) hrel]
  rw [relative, components_absolute_extend hcwd htne hn, hsame, dropCommon_append]
  simp [hne]

end Glob
end RepoWiki
