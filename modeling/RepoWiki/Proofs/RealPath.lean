import Mathlib.Data.List.Induction
import RepoWiki.Proofs.Components
import RepoWiki.Proofs.Placement
/-
The place that a path really means.

`Reaches` follows every link on the way to its end and takes what is not there as it is written; a
path that leads through a link within that very link reaches nothing. Whatever is reached, the real
path is the path of that place, on which no link is left. A path that leads somewhere reaches the
same place.
-/

namespace RepoWiki

open List RepoWiki.Path

/-! ## Paths from the root -/

namespace Path

variable {names more : List String}

theorem extend_root (hne : names ≠ []) (hn : names.all isName = true) :
    extend "/" names = "/" ++ Text.join "/" names := by
  rw [← join_names "/" hne hn, join, relative_names hne hn]
  rfl

theorem named_extend (hn : names.all isName = true) : named (extend "/" names) = names := by
  induction names using reverseRecOn with
  | nil => rfl
  | append_singleton names n ih =>
    rw [all_append, all_cons, all_nil, Bool.and_true, Bool.and_eq_true] at hn
    rw [extend_concat, ← (firm_join _ hn.2).steps,
      steps_join (extend_ne_empty (by decide) hn.1) hn.2,
      ih hn.1]

theorem firm_extend (hne : names ≠ []) (hn : names.all isName = true) :
    Firm (extend "/" names) := by
  obtain ⟨front, n, rfl⟩ := (eq_nil_or_concat names).resolve_left hne
  rw [concat_eq_append, all_append, all_cons, all_nil, Bool.and_true, Bool.and_eq_true] at hn
  rw [concat_eq_append, extend_concat]
  exact firm_join _ hn.2

theorem startsWith_strokes (s : String) : Text.startsWith "//" ("/" ++ s) = isAbsolute s := by
  rw [isAbsolute, Text.startsWith, Text.startsWith, String.toList_append]
  rfl

theorem normalize_extend (hn : names.all isName = true) :
    normalize ("/" ++ Text.join "/" names) = extend "/" names := by
  by_cases hne : names = []
  · subst hne
    rfl
  · have hcomponents := @components_extend "/" names (by decide) hn
    have habsolute : isAbsolute ("/" ++ Text.join "/" names) = true :=
      isAbsolute_append (by decide) _
    rw [extend_root hne hn] at hcomponents ⊢
    rw [normalize, startsWith_strokes, relative_names hne hn, habsolute, hcomponents]
    exact if_neg (by simp)

theorem startsWith_extend (hn : names.all isName = true) (hm : more.all isName = true) :
    Text.startsWith (extend "/" names ++ "/") (extend "/" more) = true ↔
      names ≠ [] ∧ names <+: more ∧ names ≠ more := by
  have hstarts : ∀ s t : String, Text.startsWith s t = true ↔ ∃ rest, t = s ++ rest := by
    intro s t
    rw [Text.startsWith, isPrefixOf_iff_prefix]
    constructor
    · rintro ⟨cs, hcs⟩
      refine ⟨String.ofList cs, ?_⟩
      rw [← String.toList_inj, String.toList_append, String.toList_ofList, hcs]
    · rintro ⟨rest, hrest⟩
      refine ⟨rest.toList, ?_⟩
      rw [hrest, String.toList_append]
  constructor
  · intro hstart
    have hnames : names ≠ [] := by
      rintro rfl
      by_cases hmore : more = []
      · rw [hmore] at hstart
        exact absurd hstart (by decide)
      · rw [extend_root hmore hm] at hstart
        exact absurd ((startsWith_strokes _).symm.trans hstart) (by simp [relative_names hmore hm])
    obtain ⟨rest, hrest⟩ := (hstarts _ _).1 hstart
    have hnamed := congrArg named hrest
    rw [named_append, named_extend hn, named_extend hm] at hnamed
    refine ⟨hnames, ⟨_, hnamed.symm⟩, ?_⟩
    rintro rfl
    have hlength := congrArg String.length hrest
    rw [String.length_append, String.length_append, show "/".length = 1 from rfl] at hlength
    omega
  · rintro ⟨hne, ⟨tail, rfl⟩, hmore⟩
    have htail : tail ≠ [] := by
      rintro rfl
      exact hmore (append_nil names).symm
    rw [all_append, Bool.and_eq_true] at hm
    refine (hstarts _ _).2 ⟨Text.join "/" tail, ?_⟩
    rw [extend_append, ← join_names _ htail hm.2,
      (firm_extend hne hn).join_relative (relative_names htail hm.2)]

end Path

namespace FileTree

/-! ## What steps reach -/

/-- Where one step leads, and the steps of a link that are to be taken from there. -/
def turn (tree : FileTree) (place : List String) (step : String) : List String × List String :=
  if stays step then (place, [])
  else if climbs step then (place.dropLast, [])
  else
    match tree.lookup? (place ++ [step]) with
    | some (.link target) => (if isAbsolute target then [] else place, steps target)
    | _ => (place ++ [step], [])

/-- Where steps lead from a place, with the number of all that are taken on the way. -/
inductive Reaches (tree : FileTree) : Nat → List String → List String → List String → Prop
  | here (place : List String) : Reaches tree 0 place [] place
  | step {n : Nat} {place rest goal : List String} {s : String}
      (onward : Reaches tree n (tree.turn place s).1 ((tree.turn place s).2 ++ rest) goal) :
      Reaches tree (n + 1) place (s :: rest) goal

variable {tree after : FileTree} {n : Nat} {place steps goal : List String} {s : String}

theorem turn_stays (hs : stays s = true) : tree.turn place s = (place, []) :=
  if_pos hs

theorem turn_climbs (hs : stays s = false) (hc : climbs s = true) :
    tree.turn place s = (place.dropLast, []) := by
  simp [turn, hs, hc]

section

variable (hs : stays s = false) (hc : climbs s = false)
include hs hc

theorem turn_link {target : String} (h : tree.lookup? (place ++ [s]) = some (.link target)) :
    tree.turn place s = (if Path.isAbsolute target then [] else place, Path.steps target) := by
  simp [turn, hs, hc, h]

theorem turn_enters (h : ¬tree.IsLink (place ++ [s])) : tree.turn place s = (place ++ [s], []) := by
  rw [turn, hs, hc, if_neg (by simp), if_neg (by simp)]
  split
  · next target htarget => exact absurd ⟨target, htarget⟩ h
  · rfl

end

theorem Reaches.unique (h : tree.Reaches n place steps goal) {m : Nat} {other : List String}
    (h' : tree.Reaches m place steps other) : n = m ∧ goal = other := by
  induction h generalizing m other with
  | here => cases h'; exact ⟨rfl, rfl⟩
  | step _ ih =>
    cases h' with
    | step onward => exact (ih onward).imp_left (congrArg _)

theorem Reaches.split {first rest : List String} (h : tree.Reaches n place (first ++ rest) goal) :
    ∃ k m middle, tree.Reaches k place first middle ∧
      tree.Reaches m middle rest goal ∧ k + m = n := by
  generalize hsteps : first ++ rest = steps at h
  induction h generalizing first with
  | here place =>
    obtain ⟨rfl, rfl⟩ := append_eq_nil_iff.1 hsteps
    exact ⟨0, 0, place, .here place, .here place, rfl⟩
  | @step n place more goal s onward ih =>
    cases first with
    | nil =>
      obtain rfl : rest = s :: more := hsteps
      exact ⟨0, n + 1, place, .here place, .step onward, Nat.zero_add _⟩
    | cons a first =>
      obtain ⟨rfl, rfl⟩ : a = s ∧ first ++ rest = more := by simpa using hsteps
      obtain ⟨k, m, middle, hfirst, hrest, rfl⟩ := ih (append_assoc _ first rest)
      exact ⟨k + 1, m, middle, .step hfirst, hrest, Nat.add_right_comm k 1 m⟩

theorem Leads.reaches {links : Nat} (h : tree.Leads links place steps goal) :
    ∃ n, tree.Reaches n place steps goal := by
  have hstep : ∀ {place next more rest goal s}, tree.turn place s = (next, more) →
      (∃ n, tree.Reaches n next (more ++ rest) goal) → ∃ n, tree.Reaches n place (s :: rest) goal :=
    fun hturn ⟨n, hn⟩ => ⟨n + 1, .step (by rw [hturn]; exact hn)⟩
  induction h with
  | here links place => exact ⟨0, .here place⟩
  | stay _ stays _ ih => exact hstep (turn_stays stays) ih
  | climb _ leaves climbs _ ih => exact hstep (turn_climbs leaves climbs) ih
  | link enters found _ ih => exact hstep (turn_link enters.stays enters.climbs found) ih
  | enter enters _ plain _ ih => exact hstep (turn_enters enters.stays enters.climbs plain) ih
  | fresh enters missing =>
    exact hstep (turn_enters enters.stays enters.climbs
      (not_isLink_of_missing missing)) ⟨0, .here _⟩

def Straight (tree : FileTree) (place : List String) : Prop :=
  ∀ way, way <+: place → ¬tree.IsLink way

theorem straight_nil (tree : FileTree) : tree.Straight [] := by
  intro way hway
  rw [prefix_nil.1 hway]
  exact not_isLink_of_isDir (isDir_nil tree)

theorem Straight.of_isPrefix {way : List String} (h : tree.Straight place) (hway : way <+: place) :
    tree.Straight way :=
  fun q hq => h q (hq.trans hway)

theorem Sturdy.straight (hs : Sturdy tree after) (h : tree.Straight place) : after.Straight place :=
  fun way hway hlink => h way hway (hs.isLink.1 hlink)

theorem turn_real (h : tree.Straight place ∧ place.all isName = true) (hs : '/' ∉ s.toList) :
    tree.Straight (tree.turn place s).1 ∧ (tree.turn place s).1.all isName = true := by
  unfold turn
  split
  · exact h
  split
  · have hup := dropLast_prefix place
    refine ⟨h.1.of_isPrefix hup, ?_⟩
    rw [all_eq_true] at h ⊢
    exact fun t ht => h.2 t (List.dropLast_subset _ ht)
  split
  · split
    · exact ⟨straight_nil tree, rfl⟩
    · exact h
  · next hstays hclimbs _ hplain =>
    refine ⟨fun way hway => ?_, ?_⟩
    · rcases prefix_concat_iff.1 hway with rfl | hway
      · rintro ⟨target, htarget⟩
        exact hplain target htarget
      · exact h.1 way hway
    · have hname := isName_iff.2 ⟨Bool.eq_false_iff.2 hstays, Bool.eq_false_iff.2 hclimbs, hs⟩
      simp [h.2, hname]

theorem Reaches.real (h : tree.Reaches n place steps goal)
    (hplace : tree.Straight place ∧ place.all isName = true)
    (hsteps : ∀ s ∈ steps, '/' ∉ s.toList) :
    tree.Straight goal ∧ goal.all isName = true := by
  induction h with
  | here => exact hplace
  | @step n place rest goal s _ ih =>
    rw [forall_mem_cons] at hsteps
    refine ih (turn_real hplace hsteps.1) (forall_mem_append.2 ⟨fun t ht => ?_, hsteps.2⟩)
    unfold turn at ht
    split at ht
    · cases ht
    split at ht
    · cases ht
    split at ht
    · exact not_mem_of_mem_steps ht
    · cases ht

/-! ## The real path -/

def LinkTo (tree : FileTree) (n : Nat) (link goal : List String) : Prop :=
  ∃ place s target, link = place ++ [s] ∧ tree.lookup? link = some (.link target) ∧
    tree.Reaches n (if Path.isAbsolute target then [] else place) (Path.steps target) goal

theorem LinkTo.unique {link other : List String} {m : Nat} (h : tree.LinkTo n link goal)
    (h' : tree.LinkTo m link other) : n = m ∧ goal = other := by
  obtain ⟨place, s, target, rfl, htarget, h⟩ := h
  obtain ⟨place', s', target', hlink, htarget', h'⟩ := h'
  obtain ⟨rfl, -⟩ := append_inj' hlink rfl
  obtain rfl := Entry.link.inj (Option.some.inj (htarget.symm.trans htarget'))
  exact h.unique h'

/-- The links that have been met, with the place to which each leads once that is known. -/
abbrev Met :=
  List (List String × Option (List String))

def unmet (tree : FileTree) (met : Met) : List (List String × Entry) :=
  tree.entries.filter fun e => (met.lookup e.1).isNone

/-- The links that are known lead where it says, and there are enough for the others. -/
structure Fits (tree : FileTree) (links : Nat) (met : Met) : Prop where
  known : ∀ link goal, met.lookup link = some (some goal) → ∃ n, tree.LinkTo n link goal
  enough : (tree.unmet met).length ≤ links

/-- A link that is still open is not within what takes `n` steps. -/
def Outer (tree : FileTree) (n : Nat) (met : Met) : Prop :=
  ∀ link, met.lookup link = some none → ∀ k goal, tree.LinkTo k link goal → n ≤ k

section

variable {met : Met} {links : Nat} {link : List String} {given : Option (List String)}

theorem unmet_cons : tree.unmet ((link, given) :: met) =
    (tree.unmet met).filter fun e => e.1 != link := by
  rw [unmet, unmet, filter_filter]
  refine filter_congr fun e _ => ?_
  by_cases he : e.1 = link
  · simp [he]
  · simp [lookup_cons, he, beq_eq_false_iff_ne.2 he]

theorem unmet_lt {e : Entry} (hnew : met.lookup link = none) (hne : link ≠ [])
    (he : tree.lookup? link = some e) :
    (tree.unmet ((link, given) :: met)).length < (tree.unmet met).length := by
  rw [unmet_cons, length_filter_lt_length_iff_exists]
  exact ⟨(link, e), mem_filter.2 ⟨mem_entries_of_lookup? hne he, by simp [hnew]⟩, by simp⟩

theorem Fits.open (h : tree.Fits (links + 1) met)
    (hless : (tree.unmet ((link, none) :: met)).length < (tree.unmet met).length) :
    tree.Fits links ((link, none) :: met) := by
  refine ⟨fun other goal hgoal => ?_, by have := h.enough; omega⟩
  rw [lookup_cons] at hgoal
  split at hgoal
  · cases hgoal
  · exact h.known other goal hgoal

theorem Fits.close (h : tree.Fits links met) (hlink : tree.LinkTo n link goal) :
    tree.Fits links ((link, some goal) :: met) := by
  refine ⟨fun other there hthere => ?_, ?_⟩
  · rw [lookup_cons] at hthere
    split at hthere
    · next hsame =>
      obtain rfl := Option.some.inj (Option.some.inj hthere)
      exact ⟨n, beq_iff_eq.1 hsame ▸ hlink⟩
    · exact h.known other there hthere
  · rw [unmet_cons]
    exact Nat.le_trans (length_filter_le _ _) h.enough

end

section

variable {links : Nat} {met : Met} {rest : List Task} (hs : stays s = false)
  (hc : climbs s = false)
include hs hc

theorem realFrom_link {target : String} (h : tree.lookup? (place ++ [s]) = some (.link target)) :
    tree.realFrom links met place (.step s :: rest) =
      match met.lookup (place ++ [s]), links with
      | some (some there), _ => tree.realFrom links met there rest
      | none, links + 1 =>
          tree.realFrom links ((place ++ [s], none) :: met)
            (if Path.isAbsolute target then [] else place)
            ((Path.steps target).map .step ++ .reached (place ++ [s]) :: rest)
      | _, _ => place ++ [s] ++ Task.steps rest := by
  rw [realFrom, hs, hc, if_neg (by simp), if_neg (by simp)]
  dsimp only
  rw [h]
  dsimp only
  rcases met.lookup (place ++ [s]) with _ | _ | there <;> cases links <;> rfl

theorem realFrom_enters (h : ¬tree.IsLink (place ++ [s])) :
    tree.realFrom links met place (.step s :: rest) =
      tree.realFrom links met (place ++ [s]) rest := by
  rw [realFrom, hs, hc, if_neg (by simp), if_neg (by simp)]
  dsimp only
  split
  · next target htarget => exact absurd ⟨target, htarget⟩ h
  · rfl

end

theorem realFrom_cases (tree : FileTree) (place : List String) (s : String) :
    (∃ target, stays s = false ∧ climbs s = false ∧
      tree.lookup? (place ++ [s]) = some (.link target)) ∨
    (tree.turn place s).2 = [] ∧ ∀ links met rest,
      tree.realFrom links met place (.step s :: rest) =
        tree.realFrom links met (tree.turn place s).1 rest := by
  cases hs : stays s with
  | true =>
    rw [turn_stays hs]
    exact .inr ⟨rfl, fun links met rest => by rw [realFrom, if_pos hs]⟩
  | false =>
    cases hc : climbs s with
    | true =>
      rw [turn_climbs hs hc]
      exact .inr ⟨rfl, fun links met rest => by rw [realFrom, hs, if_neg (by simp), if_pos hc]⟩
    | false =>
      by_cases hlink : tree.IsLink (place ++ [s])
      · exact .inl (hlink.imp fun _ h => ⟨rfl, rfl, h⟩)
      · rw [turn_enters hs hc hlink]
        exact .inr ⟨rfl, fun _ _ _ => realFrom_enters hs hc hlink⟩

theorem realFrom_eq (h : tree.Reaches n place steps goal) {links : Nat} {met : Met}
    (hfits : tree.Fits links met) (houter : tree.Outer n met) (rest : List Task) :
    ∃ links' met', tree.Fits links' met' ∧
      (∀ link, met'.lookup link = some none → met.lookup link = some none) ∧
      tree.realFrom links met place (steps.map .step ++ rest) =
        tree.realFrom links' met' goal rest := by
  induction n using Nat.strongRecOn generalizing place steps goal links met rest with
  | ind n ih =>
  cases h with
  | here => exact ⟨links, met, hfits, fun _ h => h, rfl⟩
  | @step n _ more _ s onward =>
    have hfewer : ∀ k, k ≤ n → tree.Outer k met := fun k hk link hlink m goal h =>
      Nat.le_trans hk (Nat.le_of_succ_le (houter link hlink m goal h))
    rw [map_cons, cons_append]
    rcases realFrom_cases tree place s with ⟨target, hstays, hclimbs, htarget⟩ | ⟨hturn, hreal⟩
    · rw [turn_link hstays hclimbs htarget] at onward
      obtain ⟨k, m, middle, hinside, honward, rfl⟩ := onward.split
      have hlink : tree.LinkTo k (place ++ [s]) middle := ⟨place, s, target, rfl, htarget, hinside⟩
      rw [realFrom_link hstays hclimbs htarget]
      cases hmet : met.lookup (place ++ [s]) with
      | some known =>
        cases known with
        | some there =>
          obtain ⟨_, hthere⟩ := hfits.known _ _ hmet
          obtain rfl := (hthere.unique hlink).2
          exact ih m (by omega) honward hfits (hfewer m (by omega)) rest
        | none => exact absurd (houter _ hmet k middle hlink) (by omega)
      | none =>
        have hless := @unmet_lt tree met (place ++ [s]) none _ hmet (by simp) htarget
        cases links with
        | zero => exact absurd hfits.enough (by omega)
        | succ links =>
          -- Within the link it is open; behind it the place where it leads is known.
          have hopen : tree.Outer k ((place ++ [s], none) :: met) := by
            intro link hopen j goal hj
            rw [lookup_cons] at hopen
            split at hopen
            · next hsame =>
              obtain rfl := beq_iff_eq.1 hsame
              exact Nat.le_of_eq (hlink.unique hj).1
            · exact hfewer k (by omega) link hopen j goal hj
          obtain ⟨links', met', hfits', hmet', heq'⟩ :=
            ih k (by omega) hinside (hfits.open hless) hopen
              (.reached (place ++ [s]) :: more.map .step ++ rest)
          have hback : ∀ link, ((place ++ [s], some middle) :: met').lookup link = some none →
              met.lookup link = some none := by
            intro link hlookup
            rw [lookup_cons] at hlookup
            split at hlookup
            · cases hlookup
            · next hne =>
              have := hmet' link hlookup
              rwa [lookup_cons, hne] at this
          obtain ⟨links'', met'', hfits'', hmet'', heq''⟩ :=
            ih m (by omega) honward (hfits'.close hlink)
            (fun link hl => hfewer m (by omega) link (hback link hl)) rest
          refine ⟨links'', met'', hfits'', fun link hl => hback link (hmet'' link hl), ?_⟩
          rw [← heq'']
          dsimp only
          refine heq'.trans ?_
          rw [cons_append, realFrom]
    · rw [hturn, nil_append] at onward
      rw [hreal]
      exact ih n (Nat.lt_succ_self n) onward hfits (hfewer n (Nat.le_refl n)) rest

def Means (tree : FileTree) (p : String) (goal : List String) : Prop :=
  ∃ n, tree.Reaches n (tree.origin p) (Path.steps p) goal

theorem Means.of_resolve {p : String} (h : tree.resolve p = .ok goal) : tree.Means p goal :=
  (resolve_eq_ok.1 h).2.reaches

theorem Means.real {p : String} (h : tree.Means p goal) (habs : isAbsolute tree.cwd = true)
    (hcwd : tree.Straight (components tree.cwd)) :
    tree.Straight goal ∧ goal.all isName = true := by
  obtain ⟨n, h⟩ := h
  refine h.real ?_ fun _ => not_mem_of_mem_steps
  rw [origin]
  split
  · exact ⟨straight_nil tree, rfl⟩
  · exact ⟨hcwd, components_all habs⟩

theorem realPath_eq {p : String} (h : tree.Means p goal) (hnames : goal.all isName = true) :
    tree.realPath p = extend "/" goal := by
  obtain ⟨n, h⟩ := h
  have hfits : tree.Fits tree.entries.length [] :=
    ⟨fun _ _ h => absurd h (by simp), length_filter_le _ _⟩
  have houter : tree.Outer n [] := fun _ h => absurd h (by simp)
  obtain ⟨links, met, -, -, heq⟩ := realFrom_eq h hfits houter []
  rw [append_nil, realFrom] at heq
  rw [realPath, heq, normalize_extend hnames]

end FileTree
end RepoWiki
