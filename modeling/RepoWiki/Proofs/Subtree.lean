import RepoWiki.Proofs.Glob
/-
The same entries at two places. What is below a place can be found, listed and read along the ways
that its entries name, so two places with the same entries below them cannot be told apart from
there, as long as no link leads elsewhere and no path is too long.
-/

namespace RepoWiki.FileTree

open Glob List Text

variable {tree tree' : FileTree}

/-! ## Entries below a place -/

def entriesBelow (tree : FileTree) (base : List String) : List (List String × Entry) :=
  tree.entries.filterMap fun e =>
    if base.isPrefixOf e.1 then some (e.1.drop base.length, e.2) else none

variable {base : List String}

theorem lookup?_below (hbase : base ≠ []) (way : List String) :
    tree.lookup? (base ++ way) =
      ((tree.entriesBelow base).find? fun e => e.1 == way).map (·.2) := by
  rw [lookup?_of_ne_nil (by simp [hbase]), entriesBelow]
  induction tree.entries with
  | nil => rfl
  | cons e entries ih =>
    by_cases hp : base <+: e.1
    · obtain ⟨rest, hrest⟩ := hp
      rw [filterMap_cons_some (b := (rest, e.2)) (by simp [← hrest])]
      by_cases hw : rest = way
      · rw [find?_cons_of_pos (by simp [← hrest, hw]), find?_cons_of_pos (by simp [hw])]
        rfl
      · rw [find?_cons_of_neg (by simp [← hrest, hw]), find?_cons_of_neg (by simp [hw]),
          ih]
    · rw [filterMap_cons_none (by simp [hp]), find?_cons_of_neg, ih]
      intro he
      exact hp ⟨way, (beq_iff_eq.1 he).symm⟩

theorem mem_entriesBelow {way : List String} {e : Entry} (hbase : base ≠ [])
    (he : tree.lookup? (base ++ way) = some e) : (way, e) ∈ tree.entriesBelow base := by
  rw [lookup?_below hbase, Option.map_eq_some_iff] at he
  obtain ⟨x, hx, rfl⟩ := he
  have hway : x.1 = way := by simpa using find?_some hx
  exact hway ▸ mem_of_find?_eq_some hx

theorem namesAt_below (base way : List String) :
    tree.namesAt (base ++ way) =
      tree.order.arrange (base ++ way) ((tree.entriesBelow base).filterMap fun e =>
        if e.1.length = way.length + 1 && way.isPrefixOf e.1 then e.1.getLast? else none) := by
  rw [namesAt, entriesBelow, filterMap_filterMap]
  congr 2
  funext e
  by_cases hp : base <+: e.1
  · obtain ⟨rest, hrest⟩ := hp
    have hlength : e.1.length = (base ++ way).length + 1 ↔ rest.length = way.length + 1 := by
      rw [← hrest, length_append, length_append]
      omega
    have hstarts : base ++ way <+: e.1 ↔ way <+: rest := by
      rw [← hrest, prefix_append_right_inj]
    have hstart : base <+: e.1 := ⟨rest, hrest⟩
    have hdrop : e.1.drop base.length = rest := by simp [← hrest]
    simp only [hstart, isPrefixOf_iff_prefix, if_true, Option.bind_some, hdrop,
      Bool.and_eq_true, decide_eq_true_eq, hlength, hstarts]
    split
    · next h =>
      rw [← hrest, getLast?_append]
      cases hlast : rest.getLast? with
      | none =>
        exact absurd (getLast?_eq_none_iff.1 hlast) (ne_nil_of_length_eq_add_one h.1)
      | some name => rfl
    · rfl
  · have hstarts : ¬base ++ way <+: e.1 := fun h => hp ((prefix_append base way).trans h)
    simp [hp, hstarts]

/-- The same entries are below two places, and are listed in the same order: directories and files
with proper names. -/
structure Copy (tree : FileTree) (base : List String) (tree' : FileTree) (base' : List String) :
    Prop where
  below : base ≠ []
  below' : base' ≠ []
  entries : tree.entriesBelow base = tree'.entriesBelow base'
  order : ∀ way names, tree.order.arrange (base ++ way) names =
    tree'.order.arrange (base' ++ way) names
  named : ∀ e ∈ tree.entriesBelow base, e.1.all Path.isName = true
  plain : ∀ e ∈ tree.entriesBelow base, ∀ target, e.2 ≠ .link target

namespace Copy

section

variable {base base' way : List String} (h : Copy tree base tree' base')
include h

theorem symm : Copy tree' base' tree base where
  below := h.below'
  below' := h.below
  entries := h.entries.symm
  order way names := (h.order way names).symm
  named := h.entries ▸ h.named
  plain := h.entries ▸ h.plain

theorem lookup? (way : List String) :
    tree'.lookup? (base' ++ way) = tree.lookup? (base ++ way) := by
  rw [lookup?_below h.below, lookup?_below h.below', h.entries]

theorem namesAt (way : List String) :
    tree'.namesAt (base' ++ way) = tree.namesAt (base ++ way) := by
  rw [namesAt_below, namesAt_below, h.entries, h.order]

theorem isName {e : Entry} (he : tree.lookup? (base ++ way) = some e) :
    way.all Path.isName = true :=
  h.named _ (mem_entriesBelow h.below he)

theorem not_isLink (way : List String) : ¬tree.IsLink (base ++ way) := by
  rintro ⟨target, ht⟩
  exact h.plain _ (mem_entriesBelow h.below ht) target rfl

theorem isDir : tree'.IsDir (base' ++ way) ↔ tree.IsDir (base ++ way) := by
  rw [IsDir, IsDir, h.lookup? way]

theorem leads {links : Nat} {names goal : List String}
    (hnames : names.all Path.isName = true) (hleads : tree.Leads links (base ++ way) names goal)
    (fewer : Nat) : tree'.Leads fewer (base' ++ way) names (base' ++ way ++ names) := by
  induction names generalizing way with
  | nil =>
    rw [append_nil]
    exact .here fewer _
  | cons n names ih =>
    rw [all_cons, Bool.and_eq_true] at hnames
    have henter : ∀ {step : String}, tree.Enters (base ++ way) step →
        tree'.Enters (base' ++ way) step := fun he =>
      { he with directory := h.isDir.2 he.directory }
    have hnext : tree'.lookup? (base' ++ way ++ [n]) = tree.lookup? (base ++ way ++ [n]) := by
      rw [append_assoc, append_assoc, h.lookup?]
    -- A name neither stays nor climbs, and no link is below the place: only entering is left.
    cases hleads with
    | stay _ stays => exact absurd stays (by simp [Path.isName.stays hnames.1])
    | climb _ _ climbs => exact absurd climbs (by simp [Path.isName.climbs hnames.1])
    | link _ found =>
      rw [append_assoc] at found
      exact absurd ⟨_, found⟩ (h.not_isLink (way ++ [n]))
    | enter enters found plain onward =>
      have hon := @ih (way ++ [n]) hnames.2 (by rwa [← append_assoc])
      rw [← append_assoc] at hon
      refine .enter (henter enters) (hnext.trans found) ?_ (by simpa using hon)
      rw [append_assoc]
      exact h.symm.not_isLink (way ++ [n])
    | fresh enters missing => exact .fresh (henter enters) (hnext.trans missing)

end

end Copy

/-! ## Roots -/

/-- A root that stands at a place, so that no path to what is below it is too long. -/
structure Stands (tree : FileTree) (r : String) (base : List String) : Prop where
  firm : Path.Firm r
  leads : tree.resolve r = .ok base
  directory : tree.IsDir base
  short : ∀ e ∈ tree.entriesBelow base, checkPath (Path.extend r e.1 ++ "/") = .ok ()

namespace Copy

section

variable {base base' names : List String} {r r' : String} (h : Copy tree base tree' base')
  (hs : Stands tree r base) (hs' : Stands tree' r' base') (hnames : names.all Path.isName = true)
include h hs hs' hnames

theorem resolve {goal : List String} {e : Entry}
    (hgoal : tree.resolve (Path.extend r names) = .ok goal) (he : tree.lookup? goal = some e) :
    goal = base ++ names ∧ tree'.resolve (Path.extend r' names) = .ok (base' ++ names) ∧
      tree'.lookup? (base' ++ names) = some e := by
  obtain rfl := resolve_extend hs.firm hs.leads hnames (fun way _ _ => h.not_isLink way) hgoal
  have he' := (h.lookup? names).trans he
  refine ⟨rfl, ?_, he'⟩
  cases names with
  | nil => rw [Path.extend_nil, append_nil, hs'.leads]
  | cons n names =>
    have hfirm := hs'.firm.firm_extend hnames
    have hshort := hs'.short (n :: names, e) (mem_entriesBelow h.below' he')
    refine resolve_eq_ok.2 ⟨checkPath_of_append hfirm.ne_empty hshort, ?_⟩
    rw [hs'.firm.steps_extend hnames, origin_extend r' hnames]
    refine (resolve_eq_ok.1 hs'.leads).2.append hs'.directory fun fewer => ?_
    -- The way to a root may use up links; the way on from there needs none.
    have hleads := (resolve_eq_ok.1 hgoal).2
    rw [hs.firm.steps_extend hnames, origin_extend r hnames] at hleads
    obtain ⟨links, middle, hfirst, hrest⟩ := hleads.split
    obtain rfl := hfirst.unique (resolve_eq_ok.1 hs.leads).2
    have hsame : tree'.Leads fewer (base' ++ []) (n :: names) _ :=
      h.leads hnames (by simpa using hrest) fewer
    simpa using hsame

theorem open?_ok {c : Content} (hc : tree.open? (Path.extend r names) = .ok c) :
    tree'.open? (Path.extend r' names) = .ok c := by
  obtain ⟨goal, m, hgoal, hfile⟩ := open?_eq_ok.1 hc
  obtain ⟨-, hgoal', hfile'⟩ := h.resolve hs hs' hnames hgoal hfile
  exact open?_eq_ok.2 ⟨_, m, hgoal', hfile'⟩

theorem directoryAt_ok {place : List String}
    (hplace : tree.directoryAt (Path.extend r names) = .ok place) :
    place = base ++ names ∧ tree'.directoryAt (Path.extend r' names) = .ok (base' ++ names) := by
  obtain ⟨hgoal, m, hm⟩ := directoryAt_eq_ok hplace
  obtain ⟨rfl, hgoal', hm'⟩ := h.resolve hs hs' hnames hgoal hm
  refine ⟨rfl, ?_⟩
  rw [directoryAt, hgoal']
  dsimp only
  rw [hm']

end

end Copy

theorem toOption_eq {α : Type} {x y : Result α} (h : ∀ a, x = .ok a → y = .ok a)
    (h' : ∀ a, y = .ok a → x = .ok a) : x.toOption = y.toOption := by
  cases x with
  | ok a => rw [h a rfl]
  | error fault =>
    cases y with
    | ok a => cases h' a rfl
    | error fault' => rfl

theorem toOption_readText (tree : FileTree) (p : String) :
    (tree.readText p).toOption = (tree.open? p).toOption.bind fun c => c.readText.toOption := by
  rw [readText]
  cases tree.open? p with
  | error fault => rfl
  | ok c =>
    rw [ok_bind]
    cases hc : c.readText <;> simp [Except.toOption, hc] <;> rfl

theorem toOption_names (tree : FileTree) (p : String) :
    (tree.names p).toOption = (tree.directoryAt p).toOption.map tree.namesAt := by
  rw [names]
  cases tree.directoryAt p <;> rfl

theorem directoriesIn_of_directoryAt {dir : String} {place : List String} (hdir : dir ≠ "")
    (h : tree.directoryAt dir = .ok place) (hplain : ∀ name, ¬tree.IsLink (place ++ [name])) :
    directoriesIn tree dir = (tree.namesAt place).filter fun name =>
      match tree.lookup? (place ++ [name]) with
      | some (.directory _) => true
      | _ => false := by
  rw [directoriesIn, if_neg hdir, list, h, ok_bind]
  refine filter_congr fun name _ => ?_
  split
  · next hlink => rw [hlink]
  · next target hlink => exact absurd ⟨target, hlink⟩ (hplain name)
  · next hdirectory hlink =>
    split
    · next m hm => exact absurd hm (hdirectory m)
    · rfl

theorem directoriesIn_of_error {dir : String} {fault : Fault} (hdir : dir ≠ "")
    (h : tree.directoryAt dir = .error fault) : directoriesIn tree dir = [] := by
  rw [directoriesIn, if_neg hdir, list, h]
  rfl

theorem Stands.directoryAt_stroke {r : String} (hs : Stands tree r base) (hbase : base ≠ []) :
    tree.directoryAt (r ++ "/") = .ok base := by
  obtain ⟨m, hm⟩ := hs.directory
  have hcheck := hs.short ([], .directory m) (mem_entriesBelow hbase (by rw [append_nil, hm]))
  exact FileTree.directoryAt_stroke hs.firm (directoryAt_of_isDir hs.leads hs.directory) hcheck

namespace Copy

variable {base base' : List String} {r r' : String} (h : Copy tree base tree' base')
  (hs : Stands tree r base) (hs' : Stands tree' r' base')
include h hs hs'

theorem directoriesIn {names : List String} (hnames : names.all Path.isName = true) :
    directoriesIn tree (Path.extend r names) =
      directoriesIn tree' (Path.extend r' names) := by
  have hne := (hs.firm.firm_extend hnames).ne_empty
  have hne' := (hs'.firm.firm_extend hnames).ne_empty
  cases hplace : tree.directoryAt (Path.extend r names) with
  | ok place =>
    obtain ⟨rfl, hplace'⟩ := h.directoryAt_ok hs hs' hnames hplace
    have hplain : ∀ name, ¬tree.IsLink (base ++ names ++ [name]) := fun name => by
      rw [append_assoc]
      exact h.not_isLink _
    have hplain' : ∀ name, ¬tree'.IsLink (base' ++ names ++ [name]) := fun name => by
      rw [append_assoc]
      exact h.symm.not_isLink _
    rw [directoriesIn_of_directoryAt hne hplace hplain,
      directoriesIn_of_directoryAt hne' hplace' hplain', h.namesAt]
    refine filter_congr fun name _ => ?_
    rw [append_assoc, append_assoc, h.lookup?]
  | error fault =>
    cases hplace' : tree'.directoryAt (Path.extend r' names) with
    | ok place =>
      rw [(h.symm.directoryAt_ok hs' hs hnames hplace').2] at hplace
      cases hplace
    | error fault' => rw [directoriesIn_of_error hne hplace, directoriesIn_of_error hne' hplace']

theorem names {way : List String} (hway : way.all Path.isName = true) :
    shown tree (Path.join r (join "/" way)) =
      shown tree' (Path.join r' (join "/" way)) := by
  suffices hoption : (tree.names (Path.join r (join "/" way))).toOption =
      (tree'.names (Path.join r' (join "/" way))).toOption by
    rw [shown, shown, hoption]
  rw [toOption_names, toOption_names]
  cases way with
  | nil =>
    have hjoin : ∀ {r : String}, Path.Firm r → Path.join r (join "/" []) = r ++ "/" := by
      intro r hr
      rw [join, String.intercalate_nil, hr.join_relative (by decide), String.append_empty]
    have hnames := h.namesAt []
    rw [append_nil, append_nil] at hnames
    rw [hjoin hs.firm, hjoin hs'.firm, hs.directoryAt_stroke h.below,
      hs'.directoryAt_stroke h.below']
    exact congrArg some hnames.symm
  | cons n way =>
    rw [Path.join_names r (cons_ne_nil n way) hway, Path.join_names r' (cons_ne_nil n way) hway]
    cases hplace : tree.directoryAt (Path.extend r (n :: way)) with
    | ok place =>
      obtain ⟨rfl, hplace'⟩ := h.directoryAt_ok hs hs' hway hplace
      rw [hplace']
      exact congrArg some (h.namesAt _).symm
    | error fault =>
      cases hplace' : tree'.directoryAt (Path.extend r' (n :: way)) with
      | ok place =>
        rw [(h.symm.directoryAt_ok hs' hs hway hplace').2] at hplace
        cases hplace
      | error fault' => rfl

theorem sameTree : Glob.SameTree tree r tree' r' where
  directories _ hway := h.directoriesIn hs hs' hway
  names _ hway := h.names hs hs' hway
  texts way hway := by
    rw [toOption_readText, toOption_readText,
      toOption_eq (fun c hc => h.open?_ok hs hs' hway hc)
        fun c hc => h.symm.open?_ok hs' hs hway hc]
  tidy ns place name hns hplace hname := by
    obtain rfl := resolve_extend hs.firm hs.leads hns (fun way _ _ => h.not_isLink way) hplace
    obtain ⟨e, he⟩ := exists_entry_of_mem_namesAt hname
    rw [append_assoc] at he
    have hall := h.isName he
    rw [all_append, Bool.and_eq_true] at hall
    simpa using hall.2

end Copy

end RepoWiki.FileTree
