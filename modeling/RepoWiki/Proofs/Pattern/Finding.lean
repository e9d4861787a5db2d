import RepoWiki.Proofs.Pattern
/-
When a pattern matches.

Trying gives one of the ways in which a pattern takes a text; it also finds one whenever there is
any (`exists_match?`). So to know what a match holds, one shows that there is a way and that all
ways agree. For the second, a run is cut at the first character outside its class, if what comes
after it cannot begin inside (`takes_run_all`); where that is so for all runs, the parts of a
pattern can be taken off one after the other (`Cut.takes_run`, `Cut.takes_group`).
-/

namespace RepoWiki.Pattern

open List

variable {p : Pattern} {cs cs' rest : List Char} {gs gs' : Groups} {s : String} {c : Char}

/-! ## Ways are found -/

def productive : Pattern → Bool
  | .nothing | .one _ | .run _ _ | .lazy _ | .atEnd => true
  | .seq a b | .alt a b => a.productive && b.productive
  | .many a => !a.mayBeEmpty && a.productive
  | .group _ a => a.productive

theorem Takes.length_le (h : Takes p cs gs cs' gs') : cs'.length ≤ cs.length :=
  h.grows.1.length_le

theorem Takes.length_lt (h : Takes p cs gs cs' gs') (hp : p.mayBeEmpty = false) :
    cs'.length < cs.length := by
  induction h with
  | nothing | lazy | done | more | atEnd => cases hp
  | one _ cs gs => exact Nat.lt_succ_self cs.length
  | @run p least taken _ hleast cs gs =>
    have hne : least ≠ 0 := by simpa [mayBeEmpty] using hp
    rw [length_append]
    omega
  | seq ha hb iha ihb =>
    rcases Bool.and_eq_false_iff.1 hp with hp | hp
    · exact Nat.lt_of_le_of_lt hb.length_le (iha hp)
    · exact Nat.lt_of_lt_of_le (ihb hp) ha.length_le
  | left b _ ih => exact ih (Bool.or_eq_false_iff.1 hp).1
  | right a _ ih => exact ih (Bool.or_eq_false_iff.1 hp).2
  | group n _ ih => exact ih hp

variable {k : List Char → Option α} {taken : List Char}

section

variable {α : Type}

variable {cs : List Char}

theorem isSome_takeRun {p : Char → Bool} (htaken : ∀ c ∈ taken, p c = true) {least : Nat}
    (hleast : least ≤ taken.length) (hk : (k cs).isSome = true) :
    (takeRun p least (taken ++ cs) k).isSome = true := by
  induction taken generalizing least with
  | nil =>
    obtain rfl : least = 0 := Nat.le_zero.1 hleast
    cases cs with
    | nil => exact hk
    | cons c cs =>
      rw [nil_append, takeRun]
      split
      · rfl
      · exact hk
  | cons c taken ih =>
    rw [forall_mem_cons] at htaken
    have hfewer : least - 1 ≤ taken.length := by
      rw [length_cons] at hleast
      omega
    have hrest := ih htaken.2 hfewer
    rw [cons_append, takeRun, if_pos htaken.1]
    obtain ⟨found, hfound⟩ := Option.isSome_iff_exists.1 hrest
    rw [hfound]
    rfl

theorem isSome_takeLazy {p : Char → Bool} (htaken : ∀ c ∈ taken, p c = true)
    (hk : (k cs).isSome = true) : (takeLazy p (taken ++ cs) k).isSome = true := by
  induction taken with
  | nil =>
    cases cs with
    | nil => exact hk
    | cons c cs =>
      rw [nil_append, takeLazy]
      split
      · rfl
      · next hnone => rw [hnone] at hk; cases hk
  | cons c taken ih =>
    rw [forall_mem_cons] at htaken
    rw [cons_append, takeLazy]
    split
    · rfl
    · rw [if_pos htaken.1]
      exact ih htaken.2

/-- Each round takes something, so there are no more rounds than characters. -/
theorem isSome_repeatStep {a : Pattern} (ha : a.mayBeEmpty = false)
    {step : List Char → Groups → Next α → Option α}
    (hstep : ∀ {cs gs cs' gs' k}, Takes a cs gs cs' gs' → (k cs' gs').isSome = true →
      (step cs gs k).isSome = true) {fuel : Nat} (hfuel : cs.length ≤ fuel)
    (h : Takes (.many a) cs gs cs' gs') {k : Next α} (hk : (k cs' gs').isSome = true) :
    (repeatStep step fuel cs gs k).isSome = true := by
  induction fuel generalizing cs gs with
  | zero =>
    cases h with
    | done => exact hk
    | more hround =>
      have hlength := hround.length_lt ha
      omega
  | succ fuel ih =>
    rw [repeatStep]
    split
    · rfl
    next hnone =>
    cases h with
    | done => exact hk
    | more hround hmore =>
      have hlength := hround.length_lt ha
      have hrounds := ih (by omega) hmore
      have hfound := hstep (k := fun cs gs => repeatStep step fuel cs gs k) hround hrounds
      rw [hnone] at hfound
      cases hfound

theorem isSome_tryAt (hp : p.productive = true) (h : Takes p cs gs cs' gs') {k : Next α}
    (hk : (k cs' gs').isSome = true) : (p.tryAt cs gs k).isSome = true := by
  induction p generalizing cs cs' gs gs' k with
  | nothing => cases h; exact hk
  | one p =>
    cases h with
    | one hc => rw [tryAt, if_pos hc]; exact hk
  | run p least =>
    cases h with
    | run htaken hleast => exact isSome_takeRun htaken hleast hk
  | lazy p =>
    cases h with
    | lazy htaken => exact isSome_takeLazy htaken hk
  | seq a b iha ihb =>
    obtain ⟨hpa, hpb⟩ := Bool.and_eq_true_iff.1 hp
    cases h with
    | seq ha hb => exact iha hpa ha (ihb hpb hb hk)
  | alt a b iha ihb =>
    obtain ⟨hpa, hpb⟩ := Bool.and_eq_true_iff.1 hp
    rw [tryAt]
    split
    · rfl
    next hnone =>
    cases h with
    | left _ ha =>
      have hfound := iha hpa ha hk
      rw [hnone] at hfound
      cases hfound
    | right _ hb => exact ihb hpb hb hk
  | many a ih =>
    obtain ⟨hempty, hpa⟩ := Bool.and_eq_true_iff.1 hp
    rw [Bool.not_eq_true'] at hempty
    exact isSome_repeatStep hempty (fun hround hk => ih hpa hround hk) (Nat.le_refl _) h hk
  | group n a ih =>
    cases h with
    | group _ ha => exact ih hp ha hk
  | atEnd =>
    cases h with
    | atEnd hend =>
      rcases hend with rfl | rfl <;> exact hk

end

theorem exists_match? (hp : p.productive = true) (h : Takes p s.toList [] rest gs) :
    ∃ m, p.match? s = some m := by
  have hsome : (p.match? s).isSome = true :=
    isSome_tryAt hp h (k := fun rest groups => some (Found.mk s.toList rest groups)) rfl
  exact Option.isSome_iff_exists.1 hsome

theorem exists_match?_groups (hp : p.productive = true) {groups : Groups}
    (h : Takes p s.toList [] rest groups)
    (hall : ∀ cs gs, Takes p s.toList [] cs gs → gs = groups) :
    ∃ m, p.match? s = some m ∧ m.groups = groups := by
  obtain ⟨m, hm⟩ := exists_match? hp h
  exact ⟨m, hm, hall _ _ (takes_of_match? hm)⟩

theorem match?_eq_none (h : ∀ cs gs, ¬Takes p s.toList [] cs gs) :
    p.match? s = none := by
  cases hm : p.match? s with
  | none => rfl
  | some m => exact absurd (takes_of_match? hm) (h _ _)

/-! ## Starts that do not fit -/

theorem not_takes_of_start (hempty : p.mayBeEmpty = false) (hc : p.mayStart c = false) :
    ¬Takes p (c :: cs) gs cs' gs' := by
  intro h
  rcases h.starts with ⟨-, hmay⟩ | ⟨d, rest, hd, hmay⟩
  · rw [hempty] at hmay
    cases hmay
  · rw [← (cons.inj hd).1, hc] at hmay
    cases hmay

theorem match?_eq_none_of_start (hempty : p.mayBeEmpty = false) (hc : p.mayStart c = false)
    (hs : s.toList = c :: cs) :
    p.match? s = none := by
  refine match?_eq_none fun cs' gs' => ?_
  rw [hs]
  exact not_takes_of_start hempty hc

theorem takes_run_cut {p : Char → Bool} {least : Nat} (hc : p c = false)
    (h : Takes (.run p least) (taken ++ c :: rest) gs cs gs') :
    gs' = gs ∧ ∃ left, left <:+ taken ∧ cs = left ++ c :: rest := by
  obtain ⟨rfl, mine, hsplit, hmine, -⟩ := takes_run.1 h
  refine ⟨rfl, ?_⟩
  rcases append_eq_append_iff.1 hsplit with ⟨more, rfl, hrest⟩ | ⟨left, rfl, hcs⟩
  · cases more with
    | nil => exact ⟨[], nil_suffix, hrest.symm⟩
    | cons d more =>
      obtain ⟨rfl, -⟩ := cons.inj hrest
      have hd := hmine c (by simp)
      rw [hc] at hd
      cases hd
  · exact ⟨left, suffix_append _ _, hcs⟩

theorem takes_run_all {p : Char → Bool} {least : Nat} (hc : p c = false) {gs₁ gs₂ : Groups}
    {q : Pattern} (hempty : q.mayBeEmpty = false) (hstart : ∀ d ∈ taken, q.mayStart d = false)
    (h : Takes (.run p least) (taken ++ c :: rest) gs cs gs₁) (hnext : Takes q cs gs₂ cs' gs') :
    cs = c :: rest ∧ gs₁ = gs := by
  obtain ⟨rfl, left, hleft, rfl⟩ := takes_run_cut hc h
  cases left with
  | nil => exact ⟨rfl, rfl⟩
  | cons d left =>
    have hd := hstart d (hleft.subset mem_cons_self)
    exact absurd hnext (not_takes_of_start hempty hd)

theorem takes_maybe :
    Takes (maybe p) cs gs cs' gs' ↔ Takes p cs gs cs' gs' ∨ cs' = cs ∧ gs' = gs := by
  constructor
  · intro h
    cases h with
    | left _ hp => exact .inl hp
    | right _ hnothing => cases hnothing; exact .inr ⟨rfl, rfl⟩
  · rintro (h | ⟨rfl, rfl⟩)
    · exact .left _ h
    · exact .right _ (.nothing _ _)

/-! ## Parts that are taken in one way -/

theorem mayBeEmpty_chain_cons (p : Pattern) (ps : List Pattern) :
    (chain (p :: ps)).mayBeEmpty = (p.mayBeEmpty && (chain ps).mayBeEmpty) := by
  cases ps with
  | nil => exact (Bool.and_true _).symm
  | cons q ps => rfl

theorem mayStart_chain_cons (c : Char) (p : Pattern) (ps : List Pattern) :
    (chain (p :: ps)).mayStart c = (p.mayStart c || (p.mayBeEmpty && (chain ps).mayStart c)) := by
  cases ps with
  | nil => simp [chain, mayStart]
  | cons q ps => rfl

section

variable {ps : List Pattern} {cs rest : List Char} {gs gs' : Groups}

theorem takes_chain_flat {qs : List Pattern} :
    Takes (chain (chain ps :: qs)) cs gs rest gs' ↔ Takes (chain (ps ++ qs)) cs gs rest gs' := by
  rw [takes_chain_cons, takes_chain_append]

theorem takes_chain_word (s : String) :
    Takes (chain (word s :: ps)) (s.toList ++ rest) gs cs gs' ↔
      Takes (chain ps) rest gs cs gs' := by
  rw [takes_chain_cons]
  constructor
  · rintro ⟨cs₁, gs₁, hword, hrest⟩
    obtain ⟨hcs, rfl⟩ := (takes_word s).1 hword
    rwa [append_cancel_left hcs]
  · intro hrest
    exact ⟨_, _, (takes_word s).2 ⟨rfl, rfl⟩, hrest⟩

/-- The other parts after a run have to begin where it can go no further. -/
structure Cut (p : Char → Bool) (taken : List Char) (c : Char) (ps : List Pattern) : Prop where
  all : ∀ d ∈ taken, p d = true
  stop : p c = false
  needed : (chain ps).mayBeEmpty = false
  apart : ∀ d ∈ taken, (chain ps).mayStart d = false

variable {p : Char → Bool} {taken : List Char} {c : Char} (h : Cut p taken c ps) {least : Nat}
  (hleast : least ≤ taken.length)
include h hleast

theorem Cut.takes_run :
    Takes (chain (.run p least :: ps)) (taken ++ c :: rest) gs cs gs' ↔
      Takes (chain ps) (c :: rest) gs cs gs' := by
  rw [takes_chain_cons]
  constructor
  · rintro ⟨cs₁, gs₁, hrun, hrest⟩
    obtain ⟨rfl, rfl⟩ := takes_run_all h.stop h.needed h.apart hrun hrest
    exact hrest
  · intro hrest
    exact ⟨_, _, .run h.all hleast _ _, hrest⟩

theorem Cut.takes_group (n : Nat) :
    Takes (chain (.group n (.run p least) :: ps)) (taken ++ c :: rest) gs cs gs' ↔
      Takes (chain ps) (c :: rest) ((n, taken ++ c :: rest, c :: rest) :: gs) cs gs' := by
  rw [takes_chain_cons]
  constructor
  · rintro ⟨cs₁, gs₁, hgroup, hrest⟩
    obtain ⟨inner, rfl, hrun⟩ := Pattern.takes_group.1 hgroup
    obtain ⟨rfl, rfl⟩ := takes_run_all h.stop h.needed h.apart hrun hrest
    exact hrest
  · intro hrest
    exact ⟨_, _, .group n (.run h.all hleast _ _), hrest⟩

end

end RepoWiki.Pattern
