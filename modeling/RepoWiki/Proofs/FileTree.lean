import RepoWiki.Proofs.Path
import RepoWiki.Proofs.Run
/-
Laws of the file tree. `Leads` states as a relation where the steps of a path lead, and
`follow_eq_ok` says that looking a path up is deciding that relation. A change that keeps
directories and links keeps all ways (`Leads.mono`), and a way through names that are no links goes
where it says (`Leads.names`). Making directories is a growth of the tree, one directory at a time
(`Grown`).
-/

namespace RepoWiki.FileTree

open List RepoWiki.Path Text

variable {tree after : FileTree}

variable {p step root n : String} {links : Nat} {place goal steps base : List String}
  {c : Content}

/-! ## Entries -/

def IsDir (tree : FileTree) (p : List String) : Prop :=
  ∃ modified, tree.lookup? p = some (.directory modified)

def IsLink (tree : FileTree) (p : List String) : Prop :=
  ∃ target, tree.lookup? p = some (.link target)

@[simp] theorem lookup?_nil (tree : FileTree) : tree.lookup? [] = some (.directory none) := rfl

theorem isDir_nil (tree : FileTree) : tree.IsDir [] :=
  ⟨none, rfl⟩

theorem not_isLink_of_isDir {p : List String} (h : tree.IsDir p) : ¬tree.IsLink p := by
  rintro ⟨t, ht⟩
  obtain ⟨m, hm⟩ := h
  rw [hm] at ht
  nomatch ht

theorem not_isDir_of_file {p : List String}
    (h : ∀ e, tree.lookup? p = some e → ∃ c m, e = .file c m) : ¬tree.IsDir p := by
  rintro ⟨m, hm⟩
  obtain ⟨c, n, he⟩ := h _ hm
  cases he

theorem not_isLink_of_file {p : List String}
    (h : ∀ e, tree.lookup? p = some e → ∃ c m, e = .file c m) : ¬tree.IsLink p := by
  rintro ⟨t, ht⟩
  obtain ⟨c, n, he⟩ := h _ ht
  cases he

theorem ne_nil_of_not_isDir {p : List String} (h : ¬tree.IsDir p) : p ≠ [] := by
  rintro rfl
  exact h (isDir_nil tree)

theorem lookup?_of_ne_nil {p : List String} (h : p ≠ []) :
    tree.lookup? p = (tree.entries.find? fun e => e.1 == p).map (·.2) := by
  simp [lookup?, h]

theorem mem_entries_of_lookup? {p : List String} {e : Entry} (hne : p ≠ [])
    (h : tree.lookup? p = some e) : (p, e) ∈ tree.entries := by
  rw [lookup?_of_ne_nil hne, Option.map_eq_some_iff] at h
  obtain ⟨x, hx, rfl⟩ := h
  have hsame : x.1 = p := by simpa using find?_some hx
  exact hsame ▸ mem_of_find?_eq_some hx

@[simp] theorem cwd_putEntry (tree : FileTree) (p : List String) (e : Entry) :
    (tree.putEntry p e).cwd = tree.cwd := by
  unfold putEntry
  split <;> rfl

theorem find?_exchange {l : List (List String × Entry)} {p : List String}
    (h : (l.any fun x => x.1 == p) = true) (e : Entry) :
    (l.map fun x => if x.1 == p then (p, e) else x).find? (fun x => x.1 == p) = some (p, e) := by
  induction l with
  | nil => simp at h
  | cons x xs ih =>
    rw [map_cons, find?_cons]
    by_cases hx : x.1 == p
    · simp [hx]
    · rw [any_cons, Bool.or_eq_true] at h
      rw [ih (h.resolve_left hx), if_neg hx, Bool.eq_false_iff.2 hx]

theorem lookup?_putEntry_self {p : List String} (h : p ≠ []) (e : Entry) :
    (tree.putEntry p e).lookup? p = some e := by
  rw [lookup?_of_ne_nil h, putEntry]
  split
  · next hany => rw [find?_exchange hany]; rfl
  · next hany =>
    rw [Bool.not_eq_true, any_eq_false] at hany
    simp [find?_append, find?_eq_none.2 hany]

theorem lookup?_putEntry_ne {p q : List String} (h : q ≠ p) (e : Entry) :
    (tree.putEntry p e).lookup? q = tree.lookup? q := by
  by_cases hq : q = []
  · subst hq; rfl
  rw [lookup?_of_ne_nil hq, lookup?_of_ne_nil hq, putEntry]
  split
  · congr 1
    induction tree.entries with
    | nil => rfl
    | cons x xs ih =>
      rw [map_cons, find?_cons, find?_cons, ih]
      by_cases hx : x.1 == p
      · have hxq : (x.1 == q) = false := by
          rw [eq_of_beq hx]
          simpa using Ne.symm h
        have hpq : (p == q) = false := by simpa using Ne.symm h
        simp [hx, hxq, hpq]
      · simp [hx]
  · have hpq : (p == q) = false := by simpa using Ne.symm h
    simp [find?_append, hpq]

def dropEntry (tree : FileTree) (p : List String) : FileTree :=
  { tree with entries := tree.entries.filter fun e => e.1 != p }

theorem lookup?_dropEntry_self {p : List String} (h : p ≠ []) :
    (tree.dropEntry p).lookup? p = none := by
  rw [lookup?_of_ne_nil h, dropEntry, Option.map_eq_none_iff, find?_eq_none]
  intro e he
  simpa using (mem_filter.1 he).2

theorem lookup?_dropEntry_ne {p q : List String} (h : q ≠ p) :
    (tree.dropEntry p).lookup? q = tree.lookup? q := by
  by_cases hq : q = []
  · subst hq; rfl
  rw [lookup?_of_ne_nil hq, lookup?_of_ne_nil hq, dropEntry]
  congr 1
  rw [find?_filter]
  congr 1
  funext e
  by_cases he : e.1 = q
  · simp [he, h]
  · simp [he]

/-! ## Where steps lead -/

/-- A step that names something in the directory where it is taken. -/
structure Enters (tree : FileTree) (place : List String) (step : String) : Prop where
  directory : tree.IsDir place
  stays : stays step = false
  climbs : climbs step = false
  size : step.utf8ByteSize ≤ nameLimit

/-- From a place some steps lead to another, over at most so many links. -/
inductive Leads (tree : FileTree) : Nat → List String → List String → List String → Prop
  | here (links : Nat) (place : List String) : Leads tree links place [] place
  | stay {links : Nat} {place rest goal : List String} {step : String}
      (directory : tree.IsDir place) (stays : stays step = true)
      (onward : Leads tree links place rest goal) : Leads tree links place (step :: rest) goal
  | climb {links : Nat} {place rest goal : List String} {step : String}
      (directory : tree.IsDir place) (leaves : stays step = false)
      (climbs : climbs step = true)
      (onward : Leads tree links place.dropLast rest goal) :
      Leads tree links place (step :: rest) goal
  | link {links : Nat} {place rest goal : List String} {step target : String}
      (enters : tree.Enters place step)
      (found : tree.lookup? (place ++ [step]) = some (.link target))
      (onward : Leads tree links (if Path.isAbsolute target then [] else place)
        (Path.steps target ++ rest) goal) :
      Leads tree (links + 1) place (step :: rest) goal
  | enter {links : Nat} {place rest goal : List String} {step : String} {e : Entry}
      (enters : tree.Enters place step) (found : tree.lookup? (place ++ [step]) = some e)
      (plain : ¬tree.IsLink (place ++ [step]))
      (onward : Leads tree links (place ++ [step]) rest goal) :
      Leads tree links place (step :: rest) goal
  | fresh {links : Nat} {place : List String} {step : String} (enters : tree.Enters place step)
      (missing : tree.lookup? (place ++ [step]) = none) :
      Leads tree links place [step] (place ++ [step])

variable {rest : List String}

theorem Leads.isDir (h : tree.Leads links place (step :: rest) goal) : tree.IsDir place := by
  cases h with
  | stay directory | climb directory => exact directory
  | link enters | enter enters | fresh enters => exact enters.directory

theorem Leads.eq_of_nil (h : tree.Leads links place [] goal) : goal = place := by
  cases h
  rfl

theorem Leads.eq_of_stroke (h : tree.Leads links place [""] goal) : goal = place := by
  cases h with
  | stay _ _ onward => exact onward.eq_of_nil
  | climb _ leaves => exact absurd leaves (by decide)
  | link enters | enter enters | fresh enters => exact absurd enters.stays (by decide)

def jump (tree : FileTree) : Nat → List String → List String → Except FileProblem (List String)
  | 0 => fun _ _ => .error .linkLoop
  | links + 1 => tree.follow links

theorem follow_eq (tree : FileTree) (links : Nat) :
    tree.follow links = tree.takeSteps (tree.jump links) := by
  cases links <;> rfl

theorem leads_of_follow (h : tree.follow links place steps = .ok goal) :
    tree.Leads links place steps goal := by
  -- The inner induction is on the steps; a link brings any number of new ones and needs the outer.
  induction links using Nat.strongRecOn generalizing place steps goal with
  | ind links ihLinks =>
  rw [follow_eq] at h
  induction steps generalizing place with
  | nil =>
    rw [takeSteps, Except.ok.injEq] at h
    exact h ▸ .here links place
  | cons step rest ih =>
    rw [takeSteps] at h
    split at h
    · next m hdir =>
      have hdir : tree.IsDir place := ⟨m, hdir⟩
      split at h
      · next hs => exact .stay hdir hs (ih h)
      split at h
      · next hs hc => exact .climb hdir (by simpa using hs) hc (ih h)
      split at h
      · simp at h
      next hs hc hn =>
      have henters : tree.Enters place step :=
        ⟨hdir, by simpa using hs, by simpa using hc, by omega⟩
      split at h
      · next target hfound =>
        cases links with
        | zero => simp [jump] at h
        | succ links => exact .link henters hfound (ihLinks links (Nat.lt_succ_self links) h)
      · next e hlink hfound =>
        have hplain : ¬tree.IsLink (place ++ [step]) := by
          rintro ⟨t, ht⟩
          rw [hfound, Option.some.injEq] at ht
          exact hlink t ht
        exact .enter henters hfound hplain (ih h)
      · next hmissing =>
        split at h
        · next hrest =>
          rw [List.isEmpty_iff] at hrest
          rw [Except.ok.injEq] at h
          subst hrest h
          exact .fresh henters hmissing
        · simp at h
    · simp at h
    · simp at h

def beyond (tree : FileTree) (links : Nat) (place : List String) (step : String)
    (rest : List String) : Option Entry → Except FileProblem (List String)
  | some (.link target) =>
      tree.jump links (if Path.isAbsolute target then [] else place) (Path.steps target ++ rest)
  | some _ => tree.follow links (place ++ [step]) rest
  | none => if rest.isEmpty then .ok (place ++ [step]) else .error .notFound

theorem Enters.follow_cons (h : tree.Enters place step) (rest : List String) :
    tree.follow links place (step :: rest) =
      tree.beyond links place step rest (tree.lookup? (place ++ [step])) := by
  obtain ⟨m, hm⟩ := h.directory
  rw [beyond.eq_def, follow_eq, takeSteps, hm]
  dsimp only
  rw [h.stays, h.climbs]
  exact (if_neg Bool.false_ne_true).trans
    ((if_neg Bool.false_ne_true).trans (if_neg (Nat.not_lt.2 h.size)))

theorem follow_of_leads (h : tree.Leads links place steps goal) :
    tree.follow links place steps = .ok goal := by
  induction h with
  | here links place => rw [follow_eq, takeSteps]
  | stay directory stays onward ih =>
    obtain ⟨m, hm⟩ := directory
    rw [follow_eq] at ih ⊢
    simp [takeSteps, hm, stays, ih]
  | climb directory leaves climbs onward ih =>
    obtain ⟨m, hm⟩ := directory
    rw [follow_eq] at ih ⊢
    simp [takeSteps, hm, leaves, climbs, ih]
  | link enters found onward ih =>
    rw [enters.follow_cons, found]
    exact ih
  | @enter links place rest goal step e enters found plain onward ih =>
    rw [enters.follow_cons, found]
    cases e with
    | link target => exact absurd ⟨target, found⟩ plain
    | directory | file => exact ih
  | fresh enters missing =>
    rw [enters.follow_cons, missing]
    rfl

theorem follow_eq_ok :
    tree.follow links place steps = .ok goal ↔ tree.Leads links place steps goal :=
  ⟨leads_of_follow, follow_of_leads⟩

theorem Leads.unique {other : List String} (h : tree.Leads links place steps goal)
    (h' : tree.Leads links place steps other) :
    goal = other := by
  have hgoal := follow_of_leads h
  rw [follow_of_leads h', Except.ok.injEq] at hgoal
  exact hgoal.symm

/-! ## Ways through a changing tree -/

/-- A change after which directories and links are where they were. Files may come and go. -/
structure Sturdy (tree after : FileTree) : Prop where
  cwd : after.cwd = tree.cwd
  directories : ∀ p, tree.IsDir p → after.IsDir p
  links : ∀ p t, after.lookup? p = some (.link t) ↔ tree.lookup? p = some (.link t)

theorem Sturdy.isLink (h : Sturdy tree after) {p : List String} :
    after.IsLink p ↔ tree.IsLink p :=
  exists_congr fun t => h.links p t

theorem Sturdy.enters (h : Sturdy tree after) (he : tree.Enters place step) :
    after.Enters place step :=
  { he with directory := h.directories _ he.directory }

theorem Leads.last (links : Nat) (he : tree.Enters place step)
    (hl : ¬tree.IsLink (place ++ [step])) :
    tree.Leads links place [step] (place ++ [step]) := by
  cases hfound : tree.lookup? (place ++ [step]) with
  | none => exact .fresh he hfound
  | some e => exact .enter he hfound hl (.here links _)

theorem Leads.mono (hs : Sturdy tree after) (h : tree.Leads links place steps goal) :
    after.Leads links place steps goal := by
  induction h with
  | here links place => exact .here links place
  | stay directory stays _ ih => exact .stay (hs.directories _ directory) stays ih
  | climb directory leaves climbs _ ih =>
    exact .climb (hs.directories _ directory) leaves climbs ih
  | link enters found _ ih => exact .link (hs.enters enters) ((hs.links _ _).2 found) ih
  | @enter links place rest goal step e enters found plain onward ih =>
    cases rest with
    | nil => exact onward.eq_of_nil ▸ .last links (hs.enters enters) (mt hs.isLink.1 plain)
    | cons next rest =>
      obtain ⟨m, hm⟩ := hs.directories _ onward.isDir
      exact .enter (hs.enters enters) hm (mt hs.isLink.1 plain) ih
  | @fresh links place step enters missing =>
    refine .last links (hs.enters enters) (mt hs.isLink.1 ?_)
    rintro ⟨t, ht⟩
    simp [missing] at ht

theorem Leads.split_nil (h : tree.Leads links place steps goal) (hs : [] ++ step :: rest = steps) :
    ∃ fewer middle, tree.Leads links place [] middle ∧
      tree.Leads fewer middle (step :: rest) goal := by
  subst hs
  exact ⟨links, place, .here links place, h⟩

theorem Leads.split {first : List String}
    (h : tree.Leads links place (first ++ step :: rest) goal) :
    ∃ fewer middle, tree.Leads links place first middle ∧
      tree.Leads fewer middle (step :: rest) goal := by
  generalize hsteps : first ++ step :: rest = steps at h
  induction h generalizing first with
  | here links place => simp at hsteps
  | @stay links place more goal s directory stays onward ih =>
    cases first with
    | nil => exact (Leads.stay directory stays onward).split_nil hsteps
    | cons a first =>
      obtain ⟨rfl, hmore⟩ : a = s ∧ first ++ step :: rest = more := by simpa using hsteps
      obtain ⟨fewer, middle, hfirst, hrest⟩ := ih hmore
      exact ⟨fewer, middle, .stay directory stays hfirst, hrest⟩
  | @climb links place more goal s directory leaves climbs onward ih =>
    cases first with
    | nil => exact (Leads.climb directory leaves climbs onward).split_nil hsteps
    | cons a first =>
      obtain ⟨rfl, hmore⟩ : a = s ∧ first ++ step :: rest = more := by simpa using hsteps
      obtain ⟨fewer, middle, hfirst, hrest⟩ := ih hmore
      exact ⟨fewer, middle, .climb directory leaves climbs hfirst, hrest⟩
  | @link links place more goal s target enters found onward ih =>
    cases first with
    | nil => exact (Leads.link enters found onward).split_nil hsteps
    | cons a first =>
      obtain ⟨rfl, hmore⟩ : a = s ∧ first ++ step :: rest = more := by simpa using hsteps
      -- From here on the steps of the target stand before those that are left of `first`.
      obtain ⟨fewer, middle, hfirst, hrest⟩ :=
        @ih (Path.steps target ++ first) (by rw [append_assoc, hmore])
      exact ⟨fewer, middle, .link enters found hfirst, hrest⟩
  | @enter links place more goal s e enters found plain onward ih =>
    cases first with
    | nil => exact (Leads.enter enters found plain onward).split_nil hsteps
    | cons a first =>
      obtain ⟨rfl, hmore⟩ : a = s ∧ first ++ step :: rest = more := by simpa using hsteps
      obtain ⟨fewer, middle, hfirst, hrest⟩ := ih hmore
      exact ⟨fewer, middle, .enter enters found plain hfirst, hrest⟩
  | @fresh links place s enters missing =>
    cases first with
    | nil => exact (Leads.fresh enters missing).split_nil hsteps
    | cons a first => simp at hsteps

theorem Leads.append {first middle : List String} (h : tree.Leads links place first middle)
    (hdir : tree.IsDir middle) (hrest : ∀ fewer, tree.Leads fewer middle rest goal) :
    tree.Leads links place (first ++ rest) goal := by
  induction h with
  | here links place => exact hrest links
  | stay directory stays _ ih => exact .stay directory stays (ih hdir hrest)
  | climb directory leaves climbs _ ih => exact .climb directory leaves climbs (ih hdir hrest)
  | link enters found _ ih =>
    have honward := ih hdir hrest
    rw [append_assoc] at honward
    exact .link enters found honward
  | enter enters found plain _ ih => exact .enter enters found plain (ih hdir hrest)
  | fresh enters missing =>
    obtain ⟨m, hm⟩ := hdir
    simp [missing] at hm

theorem Leads.names {names : List String} (h : tree.Leads links place names goal)
    (hnames : names.all isName = true)
    (hlinks : ∀ way, way ≠ [] → way <+: names → ¬tree.IsLink (place ++ way)) :
    goal = place ++ names := by
  induction names generalizing place with
  | nil => rw [h.eq_of_nil, append_nil]
  | cons n names ih =>
    rw [all_cons, Bool.and_eq_true] at hnames
    have hn : ¬tree.IsLink (place ++ [n]) := hlinks [n] (cons_ne_nil n []) ⟨names, rfl⟩
    cases h with
    | stay _ stays => exact absurd stays (by simp [isName.stays hnames.1])
    | climb _ _ climbs => exact absurd climbs (by simp [isName.climbs hnames.1])
    | link _ found => exact absurd ⟨_, found⟩ hn
    | enter _ _ _ onward =>
      rw [ih onward hnames.2, append_assoc, singleton_append]
      intro way _ hway
      rw [append_assoc, singleton_append]
      exact hlinks (n :: way) (cons_ne_nil n way) ((prefix_cons_inj n).2 hway)
    | fresh => rfl

/-! ## Paths -/

theorem checkPath_eq_ok :
    checkPath p = .ok () ↔
      Char.ofNat 0 ∉ p.toList ∧ p ≠ "" ∧ p.utf8ByteSize < pathLimit := by
  unfold checkPath
  split
  · next h => simpa using fun hn => absurd (contains_iff_mem.1 h) hn
  next h =>
  have hnul : Char.ofNat 0 ∉ p.toList := fun hm => h (contains_iff_mem.2 hm)
  split
  · next hp => simp [hp]
  next hp =>
  split
  · next hlong => simp [Nat.not_lt.2 hlong]
  · next hlong => simp [hnul, hp, Nat.lt_of_not_le hlong]

theorem checkPath_of_append {s : String} (hp : p ≠ "") (h : checkPath (p ++ s) = .ok ()) :
    checkPath p = .ok () := by
  obtain ⟨hnul, -, hsize⟩ := checkPath_eq_ok.1 h
  rw [String.toList_append, mem_append, not_or] at hnul
  rw [String.utf8ByteSize_append] at hsize
  exact checkPath_eq_ok.2 ⟨hnul.1, hp, by omega⟩

theorem resolve_eq_ok :
    tree.resolve p = .ok goal ↔
      checkPath p = .ok () ∧ tree.Leads linkLimit (tree.origin p) (Path.steps p) goal := by
  rw [resolve, except_bind_eq_ok, ← follow_eq_ok]
  exact ⟨fun ⟨_, hp, h⟩ => ⟨hp, h⟩, fun ⟨hp, h⟩ => ⟨(), hp, h⟩⟩

theorem Sturdy.origin (hs : Sturdy tree after) (p : String) : after.origin p = tree.origin p := by
  rw [FileTree.origin, FileTree.origin, hs.cwd]

theorem Sturdy.resolve (hs : Sturdy tree after) (h : tree.resolve p = .ok goal) :
    after.resolve p = .ok goal := by
  obtain ⟨hp, hleads⟩ := resolve_eq_ok.1 h
  exact resolve_eq_ok.2 ⟨hp, by rw [hs.origin]; exact hleads.mono hs⟩

variable {names : List String}

theorem origin_extend (root : String) (hn : names.all isName = true) :
    tree.origin (extend root names) = tree.origin root := by
  rw [origin, origin, isAbsolute_extend root hn]

theorem resolve_extend (hr : Path.Firm root) (hroot : tree.resolve root = .ok base)
    (hn : names.all Path.isName = true)
    (hlinks : ∀ way, way ≠ [] → way <+: names → ¬tree.IsLink (base ++ way))
    (h : tree.resolve (extend root names) = .ok goal) : goal = base ++ names := by
  cases names with
  | nil =>
    rw [extend_nil, hroot, Except.ok.injEq] at h
    rw [← h, append_nil]
  | cons n names =>
    have hleads := (resolve_eq_ok.1 h).2
    rw [origin_extend root hn, hr.steps_extend hn] at hleads
    obtain ⟨fewer, middle, hfirst, hrest⟩ := hleads.split
    rw [hfirst.unique (resolve_eq_ok.1 hroot).2] at hrest
    exact hrest.names hn hlinks

theorem Leads.named (h : tree.Leads links place (Path.steps p) goal) :
    tree.Leads links place (Path.named p) goal := by
  rcases steps_eq p with hsteps | hsteps
  · rwa [hsteps] at h
  · rw [hsteps] at h
    obtain ⟨fewer, middle, hfirst, hlast⟩ := h.split
    rwa [hlast.eq_of_stroke]

theorem resolve_join_eq_ok (hroot : tree.resolve root = .ok base) (hdir : tree.IsDir base)
    (hn : Path.isName n = true) (hlink : ¬tree.IsLink (base ++ [n])) :
    tree.resolve (Path.join root n) = .ok goal ↔
      goal = base ++ [n] ∧ n.utf8ByteSize ≤ nameLimit ∧ checkPath (Path.join root n) = .ok () := by
  obtain ⟨hcheck, hup⟩ := resolve_eq_ok.1 hroot
  rw [resolve_eq_ok, steps_join (checkPath_eq_ok.1 hcheck).2.1 hn, origin,
    Path.isAbsolute_join root hn]
  constructor
  · rintro ⟨hpath, hleads⟩
    obtain ⟨fewer, middle, hfirst, hlast⟩ := hleads.split
    rw [hfirst.unique hup.named] at hlast
    cases hlast with
    | stay _ stays => exact absurd stays (by simp [Path.isName.stays hn])
    | climb _ _ climbs => exact absurd climbs (by simp [Path.isName.climbs hn])
    | link _ found => exact absurd ⟨_, found⟩ hlink
    | enter enters _ _ onward => exact ⟨onward.eq_of_nil, enters.size, hpath⟩
    | fresh enters => exact ⟨rfl, enters.size, hpath⟩
  · rintro ⟨rfl, hsize, hpath⟩
    refine ⟨hpath, Leads.append hup.named hdir fun fewer => ?_⟩
    exact .last fewer ⟨hdir, Path.isName.stays hn, Path.isName.climbs hn, hsize⟩ hlink

theorem not_resolve_below {q : String} (hr : Path.Firm root)
    (hroot : tree.resolve root = .ok base) (hn : Path.isName n = true) (hq : Path.Firm q)
    (hdir : ¬tree.IsDir (base ++ [n])) (hlink : ¬tree.IsLink (base ++ [n])) (goal : List String) :
    tree.resolve (Path.join root n ++ "/" ++ q) ≠ .ok goal := by
  intro h
  have hleads := (resolve_eq_ok.1 h).2
  obtain ⟨step, rest, hstep⟩ := exists_cons_of_ne_nil hq.named_ne_nil
  rw [(hq.append _).steps, Path.named_append, ← (Path.firm_join root hn).steps, hr.steps_join hn,
    hstep, append_assoc, singleton_append, String.append_assoc, origin,
    isAbsolute_append (Path.firm_join root hn).ne_empty,
    Path.isAbsolute_join root hn] at hleads
  obtain ⟨fewer, middle, hfirst, hrest⟩ := hleads.split
  rw [hfirst.unique (resolve_eq_ok.1 hroot).2] at hrest
  cases hrest with
  | stay _ stays => exact absurd stays (by simp [Path.isName.stays hn])
  | climb _ _ climbs => exact absurd climbs (by simp [Path.isName.climbs hn])
  | link _ found => exact hlink ⟨_, found⟩
  | enter _ _ _ onward => exact hdir onward.isDir

theorem resolveParent_join (hr : Path.Firm root) (hroot : tree.resolve root = .ok base)
    (hdir : tree.IsDir base) (hn : Path.isName n = true)
    (hpath : checkPath (Path.join root n) = .ok ()) :
    tree.resolveParent (Path.join root n) = .ok (base, some n) := by
  have hsteps : (Path.steps (Path.join root n)).filter (· ≠ "") = Path.steps root ++ [n] := by
    rw [hr.steps_join hn, hr.steps, filter_append, Path.named, filter_filter]
    simp [Path.isName.ne_empty hn]
  have hfollow : tree.follow linkLimit (tree.origin (Path.join root n))
      (Path.steps root ++ [""]) = .ok base := by
    rw [follow_eq_ok, origin, Path.isAbsolute_join root hn]
    exact Leads.append (resolve_eq_ok.1 hroot).2 hdir fun fewer => .stay hdir rfl (.here fewer base)
  rw [resolveParent, hpath]
  simp only [hsteps, dropLast_concat, getLast?_concat, hfollow, ok_bind]
  rfl

theorem resolve_stroke (hp : Path.Firm p) (h : tree.resolve (p ++ "/") = .ok goal) :
    tree.resolve p = .ok goal := by
  obtain ⟨hcheck, hleads⟩ := resolve_eq_ok.1 h
  have hsteps : Path.steps (p ++ "/") = Path.steps p ++ [""] := hp.steps_stroke
  have habs : Path.isAbsolute (p ++ "/") = Path.isAbsolute p :=
    isAbsolute_append hp.ne_empty "/"
  rw [hsteps, origin, habs] at hleads
  obtain ⟨fewer, middle, hfirst, hlast⟩ := hleads.split
  exact resolve_eq_ok.2 ⟨checkPath_of_append hp.ne_empty hcheck, hlast.eq_of_stroke ▸ hfirst⟩

theorem resolveParent_eq_ok {above : List String} {name : Option String}
    (h : tree.resolveParent p = .ok (above, name)) :
    tree.IsDir above ∧ checkPath p = .ok () ∧
      tree.Leads linkLimit (tree.origin p)
        (((Path.steps p).filter (· ≠ "")).dropLast ++ [""]) above ∧
      name = ((Path.steps p).filter (· ≠ "")).getLast? := by
  obtain ⟨_, hp, h⟩ := except_bind_eq_ok.1 h
  obtain ⟨place, hf, h⟩ := except_bind_eq_ok.1 h
  obtain ⟨rfl, rfl⟩ := Prod.mk.inj (except_pure_eq_ok.1 h)
  have hleads := follow_eq_ok.1 hf
  obtain ⟨fewer, middle, -, hlast⟩ := hleads.split
  exact ⟨hlast.eq_of_stroke ▸ hlast.isDir, hp, hleads, rfl⟩

theorem isDir_of_isDirectory (h : tree.isDirectory p = true) :
    ∃ place, tree.resolve p = .ok place ∧ tree.IsDir place := by
  unfold isDirectory find? at h
  cases hplace : tree.resolve p with
  | error problem => simp [hplace] at h
  | ok place =>
    rw [hplace] at h
    dsimp only at h
    split at h
    · next m hm => exact ⟨place, rfl, m, hm⟩
    · cases h

/-! ## Growth by directories -/

theorem sturdy_refl (tree : FileTree) : Sturdy tree tree :=
  ⟨rfl, fun _ h => h, fun _ _ => Iff.rfl⟩

theorem Sturdy.trans {last : FileTree} (h : Sturdy tree after) (h' : Sturdy after last) :
    Sturdy tree last :=
  ⟨h'.cwd.trans h.cwd, fun p hp => h'.directories p (h.directories p hp),
    fun p t => (h'.links p t).trans (h.links p t)⟩

theorem sturdy_of_ne {p : List String} (hcwd : after.cwd = tree.cwd)
    (hne : ∀ q, q ≠ p → after.lookup? q = tree.lookup? q) (hp : ¬tree.IsDir p)
    (hl : ¬tree.IsLink p) (hself : ¬after.IsLink p) : Sturdy tree after := by
  refine ⟨hcwd, fun q hq => ?_, fun q t => ?_⟩
  · have hqp : q ≠ p := by
      rintro rfl
      exact hp hq
    rwa [IsDir, hne q hqp]
  · by_cases hq : q = p
    · subst hq
      exact ⟨fun h => absurd ⟨t, h⟩ hself, fun h => absurd ⟨t, h⟩ hl⟩
    · rw [hne q hq]

theorem sturdy_putEntry {p : List String} {e : Entry} (hp : ¬tree.IsDir p)
    (hl : ¬tree.IsLink p) (he : ∀ t, e ≠ .link t) : Sturdy tree (tree.putEntry p e) := by
  refine sturdy_of_ne (cwd_putEntry tree p e) (fun _ hq => lookup?_putEntry_ne hq e) hp hl ?_
  rintro ⟨t, ht⟩
  rw [lookup?_putEntry_self (ne_nil_of_not_isDir hp)] at ht
  exact he t (Option.some.inj ht)

theorem sturdy_dropEntry {p : List String} (hp : ¬tree.IsDir p) (hl : ¬tree.IsLink p) :
    Sturdy tree (tree.dropEntry p) := by
  refine sturdy_of_ne rfl (fun _ hq => lookup?_dropEntry_ne hq) hp hl ?_
  rintro ⟨t, ht⟩
  simp [lookup?_dropEntry_self (ne_nil_of_not_isDir hp)] at ht

/-- What is left of a tree after directories have been added to it, each with a name in a directory
where nothing had that name. -/
inductive Grown (tree : FileTree) : FileTree → Prop
  | same : Grown tree tree
  | more {t : FileTree} {above : List String} {name : String} (grown : Grown tree t)
      (directory : t.IsDir above) (named : Path.isName name = true)
      (missing : t.lookup? (above ++ [name]) = none) :
      Grown tree (t.putEntry (above ++ [name]) (.directory none))

theorem Grown.trans {last : FileTree} (h : Grown tree after) (h' : Grown after last) :
    Grown tree last := by
  induction h' with
  | same => exact h
  | more _ directory named missing ih => exact .more ih directory named missing

theorem not_isDir_of_missing {p : List String} (h : tree.lookup? p = none) : ¬tree.IsDir p := by
  rintro ⟨m, hm⟩
  simp [h] at hm

theorem not_isLink_of_missing {p : List String} (h : tree.lookup? p = none) : ¬tree.IsLink p := by
  rintro ⟨t, ht⟩
  simp [h] at ht

theorem Grown.sturdy (h : Grown tree after) : Sturdy tree after := by
  induction h with
  | same => exact sturdy_refl tree
  | more _ _ _ missing ih =>
    refine ih.trans (sturdy_putEntry (not_isDir_of_missing missing)
      (not_isLink_of_missing missing) ?_)
    simp

theorem Grown.lookup? (h : Grown tree after) (p : List String) :
    after.lookup? p = tree.lookup? p ∨
      tree.lookup? p = none ∧ after.lookup? p = some (.directory none) := by
  induction h with
  | same => exact .inl rfl
  | @more t above name _ _ _ missing ih =>
    by_cases hp : p = above ++ [name]
    · subst hp
      rw [missing] at ih
      rw [lookup?_putEntry_self (by simp)]
      rcases ih with h | ⟨_, h⟩
      · exact .inr ⟨h.symm, rfl⟩
      · simp at h
    · rwa [lookup?_putEntry_ne hp]

theorem Grown.file (h : Grown tree after) {p : List String} {m : Option Int} :
    after.lookup? p = some (.file c m) ↔ tree.lookup? p = some (.file c m) := by
  rcases h.lookup? p with hp | ⟨hnone, hp⟩
  · rw [hp]
  · simp [hnone, hp]

theorem makeDirectory_grown (h : tree.makeDirectory p = .ok after) :
    Grown tree after := by
  unfold makeDirectory at h
  split at h
  · simp at h
  · simp at h
  · next above name hparent =>
    obtain ⟨hdir, -, -, hname⟩ := resolveParent_eq_ok hparent
    split at h
    · simp at h
    next hplain =>
    split at h
    · simp at h
    split at h
    · simp at h
    next hmissing =>
    rw [Except.ok.injEq] at h
    subst h
    refine .more .same hdir (isName_iff.2 ?_) (by simpa using hmissing)
    rw [Bool.or_eq_true, not_or, Bool.not_eq_true, Bool.not_eq_true] at hplain
    have hmem := mem_of_getLast? hname.symm
    exact ⟨hplain.1, hplain.2, Path.not_mem_of_mem_steps (mem_filter.1 hmem).1⟩

theorem ensureDirectory_grown (h : tree.ensureDirectory p = .ok after) :
    Grown tree after := by
  unfold ensureDirectory at h
  split at h
  · next hmade =>
    rw [Except.ok.injEq] at h
    exact makeDirectory_grown (h ▸ hmade)
  · split at h
    · rw [Except.ok.injEq] at h
      exact h ▸ .same
    · simp at h

theorem makeDirectoriesFrom_grown {fuel : Nat} (h : makeDirectoriesFrom fuel tree p = .ok after) :
    Grown tree after := by
  induction fuel generalizing p after with
  | zero =>
    rw [makeDirectoriesFrom, Except.ok.injEq] at h
    exact h ▸ .same
  | succ fuel ih =>
    simp only [makeDirectoriesFrom] at h
    split at h
    · obtain ⟨made, hmade, h⟩ : ∃ made, Grown tree made ∧
          (if (splitLast p).2 = "." then pure made else made.ensureDirectory p) = .ok after := by
        split at h
        · obtain ⟨made, hsame, h⟩ := except_bind_eq_ok.1 h
          rw [except_pure_eq_ok] at hsame
          exact ⟨made, hsame ▸ .same, h⟩
        · obtain ⟨made, habove, h⟩ := except_bind_eq_ok.1 h
          exact ⟨made, ih habove, h⟩
      split at h
      · rw [except_pure_eq_ok] at h
        exact h ▸ hmade
      · exact hmade.trans (ensureDirectory_grown h)
    · exact ensureDirectory_grown h

theorem makeDirectories_grown (h : tree.makeDirectories p = .ok after) :
    Grown tree after :=
  makeDirectoriesFrom_grown h

theorem splitLast_join (hr : Path.Firm root) (hn : isName n = true) :
    splitLast (join root n) = (root, n) := by
  have hbase : base (join root n) = n := by
    rw [hr.join hn, base, cutLast?_append stroke root (isName.free hn)]
  rw [splitLast, hbase, if_neg (isName.ne_empty hn), hr.parent_join hn]

theorem resolve_of_join (hr : Path.Firm root) (hn : Path.isName n = true)
    (h : tree.resolve (Path.join root n) = .ok place) :
    ∃ above, tree.resolve root = .ok above ∧ tree.IsDir above := by
  obtain ⟨hcheck, hleads⟩ := resolve_eq_ok.1 h
  rw [hr.steps_join hn, origin, Path.isAbsolute_join root hn] at hleads
  obtain ⟨fewer, above, hfirst, hlast⟩ := hleads.split
  refine ⟨above, resolve_eq_ok.2 ⟨?_, hfirst⟩, hlast.isDir⟩
  rw [hr.join hn, String.append_assoc] at hcheck
  exact checkPath_of_append hr.ne_empty hcheck

theorem makeDirectories_of_isDir (hr : Path.Firm root) (hn : Path.isName n = true)
    (h : tree.resolve (Path.join root n) = .ok place) (hdir : tree.IsDir place) :
    tree.makeDirectories (Path.join root n) = .ok tree := by
  obtain ⟨above, habove, m, hm⟩ := resolve_of_join hr hn h
  have hexists : tree.exists? root = true := by
    rw [exists?, find?, habove]
    dsimp only
    rw [hm]
    rfl
  have hthere : tree.isDirectory (Path.join root n) = true := by
    obtain ⟨d, hd⟩ := hdir
    rw [isDirectory, find?, h]
    dsimp only
    rw [hd]
  have hfound : tree.lookup? (above ++ [n]) ≠ none := by
    intro hnone
    rw [(resolve_join_eq_ok habove ⟨m, hm⟩ hn (not_isLink_of_missing hnone)).1 h |>.1] at hdir
    exact not_isDir_of_missing hnone hdir
  have hmake : ∃ fault, tree.makeDirectory (Path.join root n) = .error fault := by
    rw [makeDirectory, resolveParent_join hr habove ⟨m, hm⟩ hn (resolve_eq_ok.1 h).1]
    dsimp only
    rw [if_neg (by simp [Path.isName.stays hn, Path.isName.climbs hn])]
    split
    · exact ⟨_, rfl⟩
    · rw [if_pos (Option.isSome_iff_ne_none.2 hfound)]
      exact ⟨_, rfl⟩
  obtain ⟨fault, hfault⟩ := hmake
  rw [makeDirectories, makeDirectoriesFrom, splitLast_join hr hn]
  dsimp only
  rw [hexists, if_neg (by simp), ensureDirectory, hfault, hthere]
  rfl

/-! ## Files -/

theorem write_of_stroke (tree : FileTree) (hend : endsWith "/" p = true) (c : Content) :
    ∃ fault, tree.write p c = .error fault := by
  unfold write
  simp only [hend, if_true]
  cases tree.resolveParent p with
  | error problem => exact ⟨.file problem p, rfl⟩
  | ok parent => exact ⟨.file .isDirectory p, rfl⟩

theorem write_of_not_stroke (hend : endsWith "/" p = false) (c : Content) :
    tree.write p c =
      match tree.resolve p with
      | .error problem => .error (.file problem p)
      | .ok place =>
          match tree.lookup? place with
          | some (.directory _) => .error (.file .isDirectory p)
          | _ => .ok (tree.putEntry place (.file c none)) := by
  rw [write, hend]
  rfl

theorem write_of_resolve {place : List String} (hend : endsWith "/" p = false)
    (hplace : tree.resolve p = .ok place) (hdir : ¬tree.IsDir place) (c : Content) :
    tree.write p c = .ok (tree.putEntry place (.file c none)) := by
  rw [write_of_not_stroke hend, hplace]
  dsimp only
  split
  · next m hm => exact absurd ⟨m, hm⟩ hdir
  · rfl

theorem write_eq_ok (h : tree.write p c = .ok after) :
    endsWith "/" p = false ∧ ∃ place, tree.resolve p = .ok place ∧ ¬tree.IsDir place ∧
      after = tree.putEntry place (.file c none) := by
  cases hend : endsWith "/" p with
  | true =>
    obtain ⟨fault, hfault⟩ := write_of_stroke tree hend c
    simp [hfault] at h
  | false =>
    rw [write_of_not_stroke hend] at h
    split at h
    · simp at h
    · next place hplace =>
      split at h
      · simp at h
      · next hdir =>
        rw [Except.ok.injEq] at h
        exact ⟨rfl, place, hplace, fun ⟨m, hm⟩ => hdir m hm, h.symm⟩

theorem plant_file (tree : FileTree) (p : String) (c : Content) :
    tree.plant p (.file c none) = tree ∨
      endsWith "/" p = false ∧ ∃ grown place, Grown tree grown ∧
        grown.resolve p = .ok place ∧ ¬grown.IsDir place ∧
        tree.plant p (.file c none) = grown.putEntry place (.file c none) := by
  unfold plant
  cases hput : tree.put p (.file c none) with
  | error fault => exact .inl rfl
  | ok after =>
    refine .inr ?_
    simp only [put] at hput
    obtain ⟨grown, hgrown, hwrite⟩ :
        ∃ grown, Grown tree grown ∧ grown.write p c = .ok after := by
      split at hput
      · obtain ⟨grown, hsame, hwrite⟩ := except_bind_eq_ok.1 hput
        rw [except_pure_eq_ok] at hsame
        exact ⟨grown, hsame ▸ .same, hwrite⟩
      · obtain ⟨grown, hgrown, hwrite⟩ := except_bind_eq_ok.1 hput
        exact ⟨grown, makeDirectories_grown hgrown, hwrite⟩
    obtain ⟨hend, place, hplace, hdir, hafter⟩ := write_eq_ok hwrite
    exact ⟨hend, grown, place, hgrown, hplace, hdir, hafter⟩

theorem plant_link (tree : FileTree) (p target : String) :
    tree.plant p (.link target) = tree ∨
      ∃ grown place, Grown tree grown ∧ grown.lookup? place = none ∧
        tree.plant p (.link target) = grown.putEntry place (.link target) := by
  unfold plant
  cases hput : tree.put p (.link target) with
  | error fault => exact .inl rfl
  | ok after =>
    refine .inr ?_
    simp only [put] at hput
    obtain ⟨grown, hgrown, hlink⟩ :
        ∃ grown, Grown tree grown ∧ grown.makeLink p target = .ok after := by
      split at hput
      · obtain ⟨grown, hsame, hlink⟩ := except_bind_eq_ok.1 hput
        rw [except_pure_eq_ok] at hsame
        exact ⟨grown, hsame ▸ .same, hlink⟩
      · obtain ⟨grown, hgrown, hlink⟩ := except_bind_eq_ok.1 hput
        exact ⟨grown, makeDirectories_grown hgrown, hlink⟩
    unfold makeLink at hlink
    split at hlink
    · cases hlink
    · cases hlink
    · next above name _ =>
      split at hlink
      · cases hlink
      · next hmissing =>
        refine ⟨grown, above ++ [name], hgrown, ?_, (Except.ok.inj hlink).symm⟩
        simpa using hmissing

theorem open?_eq_ok :
    tree.open? p = .ok c ↔
      ∃ place m, tree.resolve p = .ok place ∧ tree.lookup? place = some (.file c m) := by
  unfold open?
  cases hr : tree.resolve p with
  | error problem => simp
  | ok place =>
    rcases he : tree.lookup? place with _ | ⟨m | ⟨d, m⟩ | t⟩ <;> simp [he]

theorem readText_of_open? {text : String} (h : tree.open? p = .ok (.text text))
    (hplain : String.ofList (unifyNewlines text.toList) = text) :
    tree.readText p = .ok text := by
  rw [readText, h, ok_bind, Content.readText]
  dsimp only
  rw [hplain]
  rfl

theorem remove_join {m : Option Int} (hr : Path.Firm root) (hroot : tree.resolve root = .ok base)
    (hdir : tree.IsDir base) (hn : isName n = true)
    (hfile : tree.lookup? (base ++ [n]) = some (.file c m)) (hsize : n.utf8ByteSize ≤ nameLimit)
    (hpath : checkPath (join root n) = .ok ()) :
    tree.remove (join root n) = .ok (tree.dropEntry (base ++ [n])) := by
  rw [remove, resolveParent_join hr hroot hdir hn hpath]
  simp [isName.stays hn, isName.climbs hn, Nat.not_lt.2 hsize, hfile,
    (firm_join _ hn).endsWith, dropEntry]

/-! ## Listings -/

theorem exists_entry_of_mem_namesAt {dir : List String} {name : String}
    (h : name ∈ tree.namesAt dir) : ∃ e, tree.lookup? (dir ++ [name]) = some e := by
  obtain ⟨⟨p, e⟩, hmem, hp⟩ := mem_filterMap.1 ((tree.order.perm _ _).mem_iff.1 h)
  simp only [Bool.and_eq_true, decide_eq_true_eq, isPrefixOf_iff_prefix,
    Option.ite_none_right_eq_some] at hp
  obtain ⟨⟨hlength, way, rfl⟩, hlast⟩ := hp
  obtain ⟨n, rfl⟩ : ∃ n, way = [n] := length_eq_one_iff.1 (by simpa using hlength)
  obtain rfl : n = name := by simpa using hlast
  rw [lookup?_of_ne_nil (by simp)]
  cases hf : tree.entries.find? (fun e => e.1 == dir ++ [n]) with
  | none => simpa using find?_eq_none.1 hf _ hmem
  | some x => exact ⟨x.2, rfl⟩

theorem directoryAt_eq_ok (h : tree.directoryAt p = .ok place) :
    tree.resolve p = .ok place ∧ tree.IsDir place := by
  unfold directoryAt at h
  split at h
  · simp at h
  · next parts hparts =>
    split at h
    · next m hm =>
      rw [Except.ok.injEq] at h
      exact h ▸ ⟨hparts, m, hm⟩
    · simp at h
    · simp at h

theorem directoryAt_of_isDir (hp : tree.resolve p = .ok place) (hdir : tree.IsDir place) :
    tree.directoryAt p = .ok place := by
  obtain ⟨m, hm⟩ := hdir
  rw [directoryAt, hp]
  dsimp only
  rw [hm]

/-- A stroke at the end of a path to a directory makes no difference, unless it makes the path too
long. -/
theorem directoryAt_stroke (hp : Path.Firm p) (h : tree.directoryAt p = .ok place)
    (hcheck : checkPath (p ++ "/") = .ok ()) :
    tree.directoryAt (p ++ "/") = .ok place := by
  obtain ⟨hresolve, hdir⟩ := directoryAt_eq_ok h
  have horigin : tree.origin (p ++ "/") = tree.origin p := by
    rw [origin, origin, isAbsolute_append hp.ne_empty]
  refine directoryAt_of_isDir (resolve_eq_ok.2 ⟨hcheck, ?_⟩) hdir
  rw [hp.steps_stroke, horigin]
  exact (resolve_eq_ok.1 hresolve).2.append hdir fun fewer =>
    .stay hdir (by decide) (.here fewer place)

theorem names_eq_ok (h : tree.names p = .ok names) :
    ∃ place, tree.resolve p = .ok place ∧ tree.IsDir place ∧ names = tree.namesAt place := by
  obtain ⟨place, hplace, hnames⟩ := except_bind_eq_ok.1 h
  rw [except_pure_eq_ok] at hnames
  exact ⟨place, (directoryAt_eq_ok hplace).1, (directoryAt_eq_ok hplace).2, hnames.symm⟩

theorem directories_of_list {listing : Listing} (h : tree.list p = .ok listing) :
    ∃ place, tree.resolve p = .ok place ∧ tree.IsDir place ∧
      ∀ name ∈ listing.directories, name ∈ tree.namesAt place := by
  obtain ⟨place, hplace, hlisting⟩ := except_bind_eq_ok.1 h
  rw [except_pure_eq_ok] at hlisting
  subst hlisting
  exact ⟨place, (directoryAt_eq_ok hplace).1, (directoryAt_eq_ok hplace).2,
    fun name hname => (mem_filter.1 hname).1⟩

end RepoWiki.FileTree
