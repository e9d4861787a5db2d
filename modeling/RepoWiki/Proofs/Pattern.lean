import Mathlib.Data.List.Infix
import RepoWiki.Pattern
/-
What a pattern that matches has taken.

`Takes` says in which ways a pattern can take the start of a text, without regard to the order in
which they are tried. Whatever trying finds is one of them (`takes_of_match?`). From this follow the
facts that hold of all matches: groups hold parts of the text (`infix_of_group?`), and the text
starts with a character that the pattern can start with (`Takes.starts`).
-/

namespace RepoWiki.Pattern

open List

variable {p : Pattern} {m : Found} {cs cs' : List Char} {gs gs' : Groups} {n : Nat}

/-- The ways in which a pattern takes the start of a text: what follows, and the groups then. -/
inductive Takes : Pattern → List Char → Groups → List Char → Groups → Prop where
  | nothing (cs : List Char) (gs : Groups) : Takes .nothing cs gs cs gs
  | one {p : Char → Bool} {c : Char} (h : p c = true) (cs : List Char) (gs : Groups) :
      Takes (.one p) (c :: cs) gs cs gs
  | run {p : Char → Bool} {least : Nat} {taken : List Char} (h : ∀ c ∈ taken, p c = true)
      (hleast : least ≤ taken.length) (cs : List Char) (gs : Groups) :
      Takes (.run p least) (taken ++ cs) gs cs gs
  | lazy {p : Char → Bool} {taken : List Char} (h : ∀ c ∈ taken, p c = true) (cs : List Char)
      (gs : Groups) : Takes (.lazy p) (taken ++ cs) gs cs gs
  | seq {a b : Pattern} {cs cs' cs'' : List Char} {gs gs' gs'' : Groups}
      (ha : Takes a cs gs cs' gs') (hb : Takes b cs' gs' cs'' gs'') :
      Takes (.seq a b) cs gs cs'' gs''
  | left {a : Pattern} {cs cs' : List Char} {gs gs' : Groups} (b : Pattern)
      (ha : Takes a cs gs cs' gs') : Takes (.alt a b) cs gs cs' gs'
  | right {b : Pattern} {cs cs' : List Char} {gs gs' : Groups} (a : Pattern)
      (hb : Takes b cs gs cs' gs') : Takes (.alt a b) cs gs cs' gs'
  | done (a : Pattern) (cs : List Char) (gs : Groups) : Takes (.many a) cs gs cs gs
  | more {a : Pattern} {cs cs' cs'' : List Char} {gs gs' gs'' : Groups}
      (ha : Takes a cs gs cs' gs') (hmore : Takes (.many a) cs' gs' cs'' gs'') :
      Takes (.many a) cs gs cs'' gs''
  | group {a : Pattern} {cs cs' : List Char} {gs gs' : Groups} (n : Nat)
      (ha : Takes a cs gs cs' gs') : Takes (.group n a) cs gs cs' ((n, cs, cs') :: gs')
  | atEnd {cs : List Char} (h : cs = [] ∨ cs = ['\n']) (gs : Groups) : Takes .atEnd cs gs cs gs

/-! ## Trying -/

section

variable {α : Type} {r : α}

variable {cs : List Char}

theorem takeRun_eq_some {p : Char → Bool} {least : Nat} {k : List Char → Option α}
    (h : takeRun p least cs k = some r) :
    ∃ taken rest, cs = taken ++ rest ∧ (∀ c ∈ taken, p c = true) ∧ least ≤ taken.length ∧
      k rest = some r := by
  induction cs generalizing least with
  | nil =>
    cases least with
    | zero => exact ⟨[], [], rfl, forall_mem_nil _, Nat.le_refl 0, h⟩
    | succ least => cases h
  | cons c cs ih =>
    rw [takeRun] at h
    split at h
    · next found hfound =>
      obtain rfl := Option.some.inj h
      split at hfound
      · next hc =>
        obtain ⟨taken, rest, rfl, htaken, hleast, hk⟩ := ih hfound
        refine ⟨c :: taken, rest, rfl, ?_, by rw [length_cons]; omega, hk⟩
        exact forall_mem_cons.2 ⟨hc, htaken⟩
      · cases hfound
    · split at h
      · next hzero =>
        exact ⟨[], c :: cs, rfl, forall_mem_nil _, Nat.le_of_eq hzero, h⟩
      · cases h

theorem takeLazy_eq_some {p : Char → Bool} {k : List Char → Option α}
    (h : takeLazy p cs k = some r) :
    ∃ taken rest, cs = taken ++ rest ∧ (∀ c ∈ taken, p c = true) ∧ k rest = some r := by
  induction cs with
  | nil => exact ⟨[], [], rfl, forall_mem_nil _, h⟩
  | cons c cs ih =>
    rw [takeLazy] at h
    split at h
    · next found hfound =>
      exact ⟨[], c :: cs, rfl, forall_mem_nil _, hfound.trans h⟩
    · split at h
      · next hc =>
        obtain ⟨taken, rest, rfl, htaken, hk⟩ := ih h
        exact ⟨c :: taken, rest, rfl, forall_mem_cons.2 ⟨hc, htaken⟩, hk⟩
      · cases h

theorem repeatStep_eq_some {a : Pattern} {step : List Char → Groups → Next α → Option α}
    (hstep : ∀ {cs gs k}, step cs gs k = some r →
      ∃ cs' gs', Takes a cs gs cs' gs' ∧ k cs' gs' = some r) {fuel : Nat} {k : Next α}
    (h : repeatStep step fuel cs gs k = some r) :
    ∃ cs' gs', Takes (.many a) cs gs cs' gs' ∧ k cs' gs' = some r := by
  induction fuel generalizing cs gs with
  | zero => exact ⟨cs, gs, .done a cs gs, h⟩
  | succ fuel ih =>
    rw [repeatStep] at h
    split at h
    · next found hfound =>
      obtain rfl := Option.some.inj h
      obtain ⟨cs', gs', ha, hrest⟩ := hstep hfound
      obtain ⟨cs'', gs'', hmore, hk⟩ := ih hrest
      exact ⟨cs'', gs'', .more ha hmore, hk⟩
    · exact ⟨cs, gs, .done a cs gs, h⟩

/-- What trying a pattern gives is what its continuation gives after one of the ways in which the
pattern takes the text. -/
theorem tryAt_eq_some {k : Next α} (h : p.tryAt cs gs k = some r) :
    ∃ cs' gs', Takes p cs gs cs' gs' ∧ k cs' gs' = some r := by
  induction p generalizing cs gs k with
  | nothing => exact ⟨cs, gs, .nothing cs gs, h⟩
  | one p =>
    cases cs with
    | nil => cases h
    | cons c cs =>
      rw [tryAt] at h
      split at h
      · next hc => exact ⟨cs, gs, .one hc cs gs, h⟩
      · cases h
  | run p least =>
    obtain ⟨taken, rest, rfl, htaken, hleast, hk⟩ := takeRun_eq_some h
    exact ⟨rest, gs, .run htaken hleast rest gs, hk⟩
  | lazy p =>
    obtain ⟨taken, rest, rfl, htaken, hk⟩ := takeLazy_eq_some h
    exact ⟨rest, gs, .lazy htaken rest gs, hk⟩
  | seq a b iha ihb =>
    obtain ⟨cs', gs', ha, hrest⟩ := iha h
    obtain ⟨cs'', gs'', hb, hk⟩ := ihb hrest
    exact ⟨cs'', gs'', .seq ha hb, hk⟩
  | alt a b iha ihb =>
    rw [tryAt] at h
    split at h
    · next found hfound =>
      obtain ⟨cs', gs', ha, hk⟩ := iha (hfound.trans h)
      exact ⟨cs', gs', .left b ha, hk⟩
    · obtain ⟨cs', gs', hb, hk⟩ := ihb h
      exact ⟨cs', gs', .right a hb, hk⟩
  | many a ih => exact repeatStep_eq_some ih h
  | group n a ih =>
    obtain ⟨cs', gs', ha, hk⟩ := ih h
    exact ⟨cs', _, .group n ha, hk⟩
  | atEnd =>
    rw [tryAt.eq_def] at h
    dsimp only at h
    split at h
    · exact ⟨[], gs, .atEnd (.inl rfl) gs, h⟩
    · exact ⟨['\n'], gs, .atEnd (.inr rfl) gs, h⟩
    · cases h

end

theorem takes_of_match? {s : String} (h : p.match? s = some m) :
    Takes p s.toList [] m.rest m.groups := by
  obtain ⟨rest, groups, htakes, hfound⟩ := tryAt_eq_some h
  obtain rfl := Option.some.inj hfound
  exact htakes

/-! ## Groups -/

def numbers : Pattern → List Nat
  | .nothing | .one _ | .run _ _ | .lazy _ | .atEnd => []
  | .seq a b | .alt a b => a.numbers ++ b.numbers
  | .many a => a.numbers
  | .group n a => n :: a.numbers

def Within (cs : List Char) (g : Nat × List Char × List Char) : Prop :=
  g.2.1 <:+ cs ∧ g.2.2 <:+ g.2.1

theorem Within.mono {g : Nat × List Char × List Char} (h : Within cs' g) (hsuffix : cs' <:+ cs) :
    Within cs g :=
  ⟨h.1.trans hsuffix, h.2⟩

/-- Groups that are new after a pattern has taken the start of a text. -/
def News (p : Pattern) (cs : List Char) (new : Groups) : Prop :=
  ∀ g ∈ new, g.1 ∈ p.numbers ∧ Within cs g

/-- A pattern leaves an end of the text, and puts groups of its own in front of those that are
there. -/
theorem Takes.grows (h : Takes p cs gs cs' gs') :
    cs' <:+ cs ∧ ∃ new, gs' = new ++ gs ∧ News p cs new := by
  have hnone : ∀ (p : Pattern) (cs : List Char) (gs : Groups),
      ∃ new, gs = new ++ gs ∧ News p cs new :=
    fun p cs gs => ⟨[], rfl, forall_mem_nil _⟩
  induction h with
  | nothing cs gs => exact ⟨suffix_rfl, hnone _ _ _⟩
  | one _ cs gs => exact ⟨suffix_cons _ _, hnone _ _ _⟩
  | run _ _ cs gs => exact ⟨suffix_append _ _, hnone _ _ _⟩
  | lazy _ cs gs => exact ⟨suffix_append _ _, hnone _ _ _⟩
  | seq _ _ iha ihb =>
    obtain ⟨hleft, new, rfl, hnew⟩ := iha
    obtain ⟨hright, more, rfl, hmore⟩ := ihb
    refine ⟨hright.trans hleft, more ++ new, (append_assoc _ _ _).symm, fun g hg => ?_⟩
    rcases mem_append.1 hg with hg | hg
    · exact ⟨mem_append_right _ (hmore g hg).1, (hmore g hg).2.mono hleft⟩
    · exact ⟨mem_append_left _ (hnew g hg).1, (hnew g hg).2⟩
  | left b _ ih =>
    obtain ⟨hrest, new, rfl, hnew⟩ := ih
    exact ⟨hrest, new, rfl, fun g hg => ⟨mem_append_left _ (hnew g hg).1, (hnew g hg).2⟩⟩
  | right a _ ih =>
    obtain ⟨hrest, new, rfl, hnew⟩ := ih
    exact ⟨hrest, new, rfl, fun g hg => ⟨mem_append_right _ (hnew g hg).1, (hnew g hg).2⟩⟩
  | done a cs gs => exact ⟨suffix_rfl, hnone _ _ _⟩
  | more _ _ iha ihmore =>
    obtain ⟨hleft, new, rfl, hnew⟩ := iha
    obtain ⟨hright, more, rfl, hmore⟩ := ihmore
    refine ⟨hright.trans hleft, more ++ new, (append_assoc _ _ _).symm, fun g hg => ?_⟩
    rcases mem_append.1 hg with hg | hg
    · exact ⟨(hmore g hg).1, (hmore g hg).2.mono hleft⟩
    · exact hnew g hg
  | group n _ ih =>
    obtain ⟨hrest, new, rfl, hnew⟩ := ih
    refine ⟨hrest, (n, _, _) :: new, rfl, fun g hg => ?_⟩
    rcases mem_cons.1 hg with rfl | hg
    · exact ⟨mem_cons_self, suffix_rfl, hrest⟩
    · exact ⟨mem_cons_of_mem _ (hnew g hg).1, (hnew g hg).2⟩
  | atEnd _ gs => exact ⟨suffix_rfl, hnone _ _ _⟩

theorem between_append (taken rest : List Char) :
    between (taken ++ rest) rest = String.ofList taken := by
  rw [between, length_append, Nat.add_sub_cancel, take_left]

theorem infix_of_group? {s text : String} (h : p.match? s = some m)
    (htext : m.group? n = some text) : text.toList <:+: s.toList := by
  obtain ⟨-, new, hgroups, hnew⟩ := (takes_of_match? h).grows
  rw [append_nil] at hgroups
  obtain ⟨⟨number, start, rest⟩, hg, rfl⟩ := Option.map_eq_some_iff.1 htext
  obtain ⟨-, hstart, taken, hrest⟩ := hnew _ (hgroups ▸ mem_of_find?_eq_some hg)
  dsimp only at hstart hrest ⊢
  subst hrest
  rw [between_append, String.toList_ofList]
  exact (prefix_append taken rest).isInfix.trans hstart.isInfix

theorem infix_of_group {s : String} (h : p.match? s = some m) (n : Nat) :
    (m.group n).toList <:+: s.toList := by
  rw [Found.group]
  cases htext : m.group? n with
  | none => exact nil_infix
  | some text => exact infix_of_group? h htext

theorem group_of_groups {new old : Groups} {taken rest : List Char}
    (hgroups : m.groups = new ++ (n, taken ++ rest, rest) :: old) (hnew : ∀ g ∈ new, g.1 ≠ n) :
    m.group n = String.ofList taken := by
  have hnone : new.find? (fun g => g.1 == n) = none :=
    find?_eq_none.2 fun g hg => by simpa using hnew g hg
  rw [Found.group, Found.group?, hgroups, find?_append, hnone, Option.none_or,
    find?_cons_of_pos (by exact beq_self_eq_true n)]
  exact between_append taken rest

theorem group_of_absent (h : ∀ g ∈ m.groups, g.1 ≠ n) : m.group n = "" := by
  have hnone : m.groups.find? (fun g => g.1 == n) = none :=
    find?_eq_none.2 fun g hg => by simpa using h g hg
  rw [Found.group, Found.group?, hnone]
  rfl

/-- The groups that take part in every way in which a pattern takes a text. -/
def certain : Pattern → List Nat
  | .seq a b => a.certain ++ b.certain
  | .alt a b => a.certain.filter b.certain.contains
  | .group n a => n :: a.certain
  | _ => []

theorem Takes.certain (h : Takes p cs gs cs' gs') :
    p.certain ++ gs.map (·.1) ⊆ gs'.map (·.1) := by
  induction h with
  | nothing | one | run | lazy | done | atEnd => exact List.Subset.refl _
  | seq _ _ iha ihb =>
    rw [append_subset] at iha ihb
    rw [Pattern.certain, append_assoc, append_subset, append_subset]
    exact ⟨List.Subset.trans iha.1 ihb.2, ihb.1, List.Subset.trans iha.2 ihb.2⟩
  | left b _ ih =>
    rw [append_subset] at ih ⊢
    exact ⟨fun n hn => ih.1 (mem_filter.1 hn).1, ih.2⟩
  | right a _ ih =>
    rw [append_subset] at ih ⊢
    exact ⟨fun n hn => ih.1 (contains_iff_mem.1 (mem_filter.1 hn).2), ih.2⟩
  | more _ _ iha ihmore =>
    rw [append_subset] at iha ihmore
    exact List.Subset.trans iha.2 ihmore.2
  | group n _ ih => exact cons_subset_cons n ih

/-- A group that takes part in every way is there; the text for an absent one is not read. -/
theorem Takes.group? (h : Takes p cs gs m.rest m.groups) (hn : n ∈ p.certain) :
    m.group? n = some (m.group n) := by
  obtain ⟨g, hg, rfl⟩ := mem_map.1 (h.certain (mem_append_left _ hn))
  have hfound : (m.groups.find? fun g' => g'.1 == g.1).isSome = true :=
    find?_isSome.2 ⟨g, hg, beq_self_eq_true g.1⟩
  obtain ⟨first, hfirst⟩ := Option.isSome_iff_exists.1 hfound
  rw [Found.group, Found.group?, hfirst]
  rfl

/-! ## Parts in a row -/

theorem takes_chain_cons {ps : List Pattern} {cs'' : List Char} {gs'' : Groups} :
    Takes (chain (p :: ps)) cs gs cs'' gs'' ↔
      ∃ cs' gs', Takes p cs gs cs' gs' ∧ Takes (chain ps) cs' gs' cs'' gs'' := by
  cases ps with
  | nil =>
    refine ⟨fun h => ⟨cs'', gs'', h, .nothing cs'' gs''⟩, ?_⟩
    rintro ⟨cs', gs', h, hnothing⟩
    cases hnothing
    exact h
  | cons q ps =>
    constructor
    · rintro (h : Takes (.seq p (chain (q :: ps))) cs gs cs'' gs'')
      cases h with
      | seq hp hps => exact ⟨_, _, hp, hps⟩
    · rintro ⟨cs', gs', hp, hps⟩
      exact .seq hp hps

theorem takes_chain_append {ps qs : List Pattern} {cs'' : List Char} {gs'' : Groups} :
    Takes (chain (ps ++ qs)) cs gs cs'' gs'' ↔
      ∃ cs' gs', Takes (chain ps) cs gs cs' gs' ∧ Takes (chain qs) cs' gs' cs'' gs'' := by
  induction ps generalizing cs gs with
  | nil =>
    refine ⟨fun h => ⟨cs, gs, .nothing cs gs, h⟩, ?_⟩
    rintro ⟨cs', gs', hnothing, h⟩
    cases hnothing
    exact h
  | cons p ps ih =>
    rw [cons_append, takes_chain_cons]
    constructor
    · rintro ⟨cs', gs', hp, hrest⟩
      obtain ⟨cs₂, gs₂, hps, hqs⟩ := ih.1 hrest
      exact ⟨cs₂, gs₂, takes_chain_cons.2 ⟨cs', gs', hp, hps⟩, hqs⟩
    · rintro ⟨cs₂, gs₂, hps, hqs⟩
      obtain ⟨cs', gs', hp, hps⟩ := takes_chain_cons.1 hps
      exact ⟨cs', gs', hp, ih.2 ⟨cs₂, gs₂, hps, hqs⟩⟩

theorem numbers_chain (ps : List Pattern) : (chain ps).numbers = ps.flatMap numbers := by
  induction ps with
  | nil => rfl
  | cons p ps ih =>
    rw [flatMap_cons, ← ih]
    cases ps with
    | nil => exact (append_nil _).symm
    | cons q ps => rfl

theorem numbers_word (s : String) : (word s).numbers = [] := by
  rw [word, numbers_chain, flatMap_map, flatMap_eq_nil_iff]
  exact fun c _ => rfl

theorem takes_run {p : Char → Bool} {least : Nat} :
    Takes (.run p least) cs gs cs' gs' ↔
      gs' = gs ∧ ∃ taken, cs = taken ++ cs' ∧ (∀ c ∈ taken, p c = true) ∧ least ≤ taken.length := by
  constructor
  · intro h
    cases h with
    | run htaken hleast => exact ⟨rfl, _, rfl, htaken, hleast⟩
  · rintro ⟨rfl, taken, rfl, htaken, hleast⟩
    exact .run htaken hleast cs' gs'

theorem takes_group {a : Pattern} :
    Takes (.group n a) cs gs cs' gs' ↔
      ∃ inner, gs' = (n, cs, cs') :: inner ∧ Takes a cs gs cs' inner := by
  constructor
  · intro h
    cases h with
    | group _ ha => exact ⟨_, rfl, ha⟩
  · rintro ⟨inner, rfl, ha⟩
    exact .group n ha

theorem takes_letters (s : List Char) :
    Takes (chain (s.map fun c => .one (· == c))) cs gs cs' gs' ↔ cs = s ++ cs' ∧ gs' = gs := by
  induction s generalizing cs gs with
  | nil =>
    constructor
    · intro h
      cases h
      exact ⟨rfl, rfl⟩
    · rintro ⟨rfl, rfl⟩
      exact .nothing _ _
  | cons c s ih =>
    rw [map_cons, takes_chain_cons]
    constructor
    · rintro ⟨cs₁, gs₁, hone, hrest⟩
      cases hone with
      | one hc =>
        obtain ⟨rfl, rfl⟩ := ih.1 hrest
        exact ⟨by rw [eq_of_beq hc]; rfl, rfl⟩
    · rintro ⟨rfl, rfl⟩
      have hone : Takes (.one (· == c)) (c :: (s ++ cs')) gs' (s ++ cs') gs' :=
        .one (p := (· == c)) (beq_self_eq_true c) _ _
      exact ⟨_, _, hone, ih.2 ⟨rfl, rfl⟩⟩

theorem takes_word (s : String) :
    Takes (word s) cs gs cs' gs' ↔ cs = s.toList ++ cs' ∧ gs' = gs :=
  takes_letters s.toList

/-! ## Starts -/

def mayBeEmpty : Pattern → Bool
  | .nothing | .lazy _ | .many _ | .atEnd => true
  | .one _ => false
  | .run _ least => least == 0
  | .seq a b => a.mayBeEmpty && b.mayBeEmpty
  | .alt a b => a.mayBeEmpty || b.mayBeEmpty
  | .group _ a => a.mayBeEmpty

def mayStart (c : Char) : Pattern → Bool
  | .nothing | .atEnd => false
  | .one p | .run p _ | .lazy p => p c
  | .seq a b => a.mayStart c || (a.mayBeEmpty && b.mayStart c)
  | .alt a b => a.mayStart c || b.mayStart c
  | .many a | .group _ a => a.mayStart c

/-- A pattern takes nothing, if it may, or a text that starts as the pattern may start. -/
theorem Takes.starts (h : Takes p cs gs cs' gs') :
    (cs' = cs ∧ p.mayBeEmpty = true) ∨ ∃ c rest, cs = c :: rest ∧ p.mayStart c = true := by
  have hrun : ∀ {p : Char → Bool} {taken : List Char} (cs : List Char),
      (∀ c ∈ taken, p c = true) → taken = [] ∨ ∃ c rest, taken ++ cs = c :: rest ∧ p c = true := by
    intro p taken cs htaken
    cases taken with
    | nil => exact .inl rfl
    | cons c taken => exact .inr ⟨c, taken ++ cs, rfl, htaken c mem_cons_self⟩
  induction h with
  | nothing cs gs => exact .inl ⟨rfl, rfl⟩
  | one hc cs gs => exact .inr ⟨_, cs, rfl, hc⟩
  | @run p least taken htaken hleast cs gs =>
    rcases hrun cs htaken with rfl | hstart
    · exact .inl ⟨rfl, by simpa [mayBeEmpty] using hleast⟩
    · exact .inr hstart
  | lazy htaken cs gs =>
    rcases hrun cs htaken with rfl | hstart
    · exact .inl ⟨rfl, rfl⟩
    · exact .inr hstart
  | seq _ _ iha ihb =>
    rcases iha with ⟨rfl, ha⟩ | ⟨c, rest, rfl, ha⟩
    · rcases ihb with ⟨rfl, hb⟩ | ⟨c, rest, rfl, hb⟩
      · exact .inl ⟨rfl, by rw [mayBeEmpty, ha, hb]; rfl⟩
      · exact .inr ⟨c, rest, rfl, by rw [mayStart, ha, hb]; simp⟩
    · exact .inr ⟨c, rest, rfl, by rw [mayStart, ha]; rfl⟩
  | left b _ ih =>
    rcases ih with ⟨rfl, ha⟩ | ⟨c, rest, rfl, ha⟩
    · exact .inl ⟨rfl, by rw [mayBeEmpty, ha]; rfl⟩
    · exact .inr ⟨c, rest, rfl, by rw [mayStart, ha]; rfl⟩
  | right a _ ih =>
    rcases ih with ⟨rfl, hb⟩ | ⟨c, rest, rfl, hb⟩
    · exact .inl ⟨rfl, by rw [mayBeEmpty, hb, Bool.or_true]⟩
    · exact .inr ⟨c, rest, rfl, by rw [mayStart, hb, Bool.or_true]⟩
  | done a cs gs => exact .inl ⟨rfl, rfl⟩
  | more _ _ iha ihmore =>
    rcases iha with ⟨rfl, -⟩ | hstart
    · exact ihmore
    · exact .inr hstart
  | group n _ ih => exact ih
  | atEnd _ gs => exact .inl ⟨rfl, rfl⟩

end RepoWiki.Pattern
