import RepoWiki.Proofs.FileTree
/-
Changes of one entry. A path whose last step is a name names an entry in a directory (`Names`), and
leads to it unless it is a link. Writing changes the file to which a path leads (`Wrote`), removing
takes away what it names (`Removed`), and neither changes anything else.
-/

namespace RepoWiki
namespace FileTree

open List RepoWiki.Path

variable {tree after : FileTree}

variable {links : Nat} {place goal : List String} {root : String} {c : Content}

theorem Leads.of_fewer (hless : ∀ p e, after.lookup? p = some e → tree.lookup? p = some e)
    {steps : List String} (h : after.Leads links place steps goal)
    (hgoal : ∃ e, after.lookup? goal = some e) : tree.Leads links place steps goal := by
  have hdir : ∀ p, after.IsDir p → tree.IsDir p := fun p ⟨m, hm⟩ => ⟨m, hless p _ hm⟩
  have henters : ∀ {place step}, after.Enters place step → tree.Enters place step :=
    fun he => { he with directory := hdir _ he.directory }
  induction h with
  | here links place => exact .here links place
  | stay directory stays _ ih => exact .stay (hdir _ directory) stays (ih hgoal)
  | climb directory leaves climbs _ ih => exact .climb (hdir _ directory) leaves climbs (ih hgoal)
  | link enters found _ ih => exact .link (henters enters) (hless _ _ found) (ih hgoal)
  | enter enters found plain _ ih =>
    refine .enter (henters enters) (hless _ _ found) (fun ⟨t, ht⟩ => plain ⟨t, ?_⟩) (ih hgoal)
    rw [hless _ _ found] at ht
    rw [found, ht]
  | fresh enters missing =>
    obtain ⟨e, he⟩ := hgoal
    rw [missing] at he
    cases he

/-- The place of what a path names. If that is a link, the path leads elsewhere. -/
def Names (tree : FileTree) (p : String) (place : List String) : Prop :=
  ∃ above name, tree.resolveParent p = .ok (above, some name) ∧ tree.Enters above name ∧
    place = above ++ [name]

theorem Leads.enters {name : String} (h : tree.Leads links place [name] goal)
    (hname : isName name = true) :
    tree.Enters place name ∧ (goal = place ++ [name] ∨ tree.IsLink (place ++ [name])) := by
  cases h with
  | stay _ stays => exact absurd stays (by simp [isName.stays hname])
  | climb _ _ climbs => exact absurd climbs (by simp [isName.climbs hname])
  | link enters found => exact ⟨enters, .inr ⟨_, found⟩⟩
  | enter enters _ _ onward => exact ⟨enters, .inl onward.eq_of_nil⟩
  | fresh enters => exact ⟨enters, .inl rfl⟩

variable {p name : String} {front : List String}

theorem names_of_resolve (hp : Path.Ends p front name) (h : tree.resolve p = .ok goal) :
    ∃ place, tree.Names p place ∧ (goal = place ∨ tree.IsLink place) := by
  obtain ⟨hcheck, hleads⟩ := resolve_eq_ok.1 h
  rw [hp.steps] at hleads
  obtain ⟨fewer, above, hfirst, hlast⟩ := hleads.split
  obtain ⟨henters, hgoal⟩ := hlast.enters hp.name
  have hfollow : tree.follow linkLimit (tree.origin p) (front ++ [""]) = .ok above :=
    follow_eq_ok.2 (hfirst.append henters.directory fun fewer =>
      .stay henters.directory rfl (.here fewer above))
  refine ⟨above ++ [name], ⟨above, name, ?_, henters, rfl⟩, hgoal⟩
  rw [resolveParent, hcheck]
  simp only [hp.filter, dropLast_concat, getLast?_concat, hfollow, ok_bind]
  rfl

theorem leads_of_resolveParent (hp : Path.Ends p front name) {above : List String} {last : String}
    (h : tree.resolveParent p = .ok (above, some last)) :
    last = name ∧ tree.Leads linkLimit (tree.origin p) front above := by
  obtain ⟨-, -, hleads, hlast⟩ := resolveParent_eq_ok h
  rw [hp.filter, getLast?_concat, Option.some.injEq] at hlast
  rw [hp.filter, dropLast_concat] at hleads
  obtain ⟨_, middle, habove, hstroke⟩ := hleads.split
  exact ⟨hlast, hstroke.eq_of_stroke ▸ habove⟩

theorem Names.eq_below {base : List String} (hr : Path.Firm root)
    (hroot : tree.resolve root = .ok base) (hn : isName name = true)
    (h : tree.Names (join root name) place) : place = base ++ [name] := by
  obtain ⟨above, last, hparent, -, rfl⟩ := h
  obtain ⟨rfl, habove⟩ := leads_of_resolveParent
    ⟨firm_join root hn, hr.steps_join hn, hn⟩ hparent
  rw [origin, isAbsolute_join root hn] at habove
  rw [habove.unique (resolve_eq_ok.1 hroot).2]

theorem Names.remove (hp : Path.Ends p front name) (h : tree.Names p place) :
    tree.remove p =
      match tree.lookup? place with
      | none => .error (.file .notFound p)
      | some (.directory _) => .error (.file .isDirectory p)
      | some _ => .ok (tree.dropEntry place) := by
  obtain ⟨above, name, hparent, henters, rfl⟩ := h
  rw [FileTree.remove, hparent]
  dsimp only
  rw [henters.stays, henters.climbs, if_neg (by simp), if_neg (Nat.not_lt.2 henters.size),
    hp.firm.endsWith]
  rfl

theorem lookup?_of_dropEntry {q : List String} {e : Entry} (hne : place ≠ [])
    (h : (tree.dropEntry place).lookup? q = some e) : tree.lookup? q = some e := by
  have hq : q ≠ place := by
    rintro rfl
    rw [lookup?_dropEntry_self hne] at h
    cases h
  rwa [lookup?_dropEntry_ne hq] at h

theorem Names.missing (hp : Path.Ends p front name) (h : tree.Names p place) :
    (tree.dropEntry place).exists? p = false := by
  obtain ⟨above, last, hparent, henters, rfl⟩ := h
  have hgone : (tree.dropEntry (above ++ [last])).lookup? (above ++ [last]) = none :=
    lookup?_dropEntry_self (by simp)
  obtain ⟨rfl, habove⟩ := leads_of_resolveParent hp hparent
  rw [exists?, find?]
  cases hresolve : (tree.dropEntry (above ++ [last])).resolve p with
  | error problem => rfl
  | ok goal =>
    have hway := (resolve_eq_ok.1 hresolve).2
    rw [hp.steps] at hway
    obtain ⟨_, middle, hfirst, hlast⟩ := hway.split
    -- The way there is found in the tree as it was, since it ends in a directory.
    have hbefore := hfirst.of_fewer (fun _ _ => lookup?_of_dropEntry (by simp))
      ⟨_, hlast.isDir.choose_spec⟩
    rw [hbefore.unique habove] at hlast
    rcases (hlast.enters hp.name).2 with rfl | ⟨target, htarget⟩
    · exact congrArg Option.isSome hgone
    · rw [hgone] at htarget
      cases htarget

/-- Nothing has changed but what is at a place. -/
structure SameBut (tree after : FileTree) (place : List String) : Prop where
  cwd : after.cwd = tree.cwd
  others : ∀ q, q ≠ place → after.lookup? q = tree.lookup? q

/-- The file to which a path leads has been written, and nothing else has changed. -/
def Wrote (tree after : FileTree) (p : String) (c : Content) : Prop :=
  ∃ place, tree.resolve p = .ok place ∧ ¬tree.IsDir place ∧
    after.lookup? place = some (.file c none) ∧ tree.SameBut after place

/-- What a path names has been removed, and nothing else has changed. -/
def Removed (tree after : FileTree) (p : String) : Prop :=
  ∃ place e, tree.Names p place ∧ tree.lookup? place = some e ∧ after.lookup? place = none ∧
    tree.SameBut after place ∧ after.exists? p = false

theorem wrote_or_isDir (hend : Text.endsWith "/" p = false) :
    (∃ after, tree.write p c = .ok after ∧ tree.Wrote after p c) ∨
      (∃ fault, tree.write p c = .error fault) ∧
        ∀ place, tree.resolve p = .ok place → tree.IsDir place := by
  cases hw : tree.write p c with
  | ok after =>
    obtain ⟨-, place, hplace, hdir, rfl⟩ := write_eq_ok hw
    have hnil := ne_nil_of_not_isDir hdir
    exact .inl ⟨_, rfl, place, hplace, hdir, lookup?_putEntry_self hnil _,
      cwd_putEntry tree place _, fun q hq => lookup?_putEntry_ne hq _⟩
  | error fault =>
    refine .inr ⟨⟨fault, rfl⟩, fun place hplace => ?_⟩
    rw [write_of_not_stroke hend, hplace] at hw
    dsimp only at hw
    split at hw
    · next m hm => exact ⟨m, hm⟩
    · cases hw

theorem removed_or_isDir (hp : Path.Ends p front name) (h : tree.exists? p = true) :
    (∃ after, tree.remove p = .ok after ∧ tree.Removed after p) ∨
      tree.remove p = .error (.file .isDirectory p) ∧ ∃ place, tree.Names p place ∧
        tree.IsDir place := by
  rw [exists?, find?] at h
  split at h
  · next goal hgoal =>
    obtain ⟨place, hnames, hthere⟩ := names_of_resolve hp hgoal
    have hremove := hnames.remove hp
    obtain ⟨e, he⟩ : ∃ e, tree.lookup? place = some e := by
      rcases hthere with rfl | ⟨t, ht⟩
      · exact Option.isSome_iff_exists.1 h
      · exact ⟨_, ht⟩
    rw [he] at hremove
    have hfound : (∀ m, e ≠ .directory m) →
        tree.remove p = .ok (tree.dropEntry place) →
        ∃ after, tree.remove p = .ok after ∧ tree.Removed after p := by
      intro hdir hok
      have hne : place ≠ [] := by
        rintro rfl
        rw [lookup?_nil] at he
        exact hdir none (Option.some.inj he).symm
      exact ⟨_, hok, place, e, hnames, he, lookup?_dropEntry_self hne,
        ⟨rfl, fun q hq => lookup?_dropEntry_ne hq⟩, hnames.missing hp⟩
    cases e with
    | directory m => exact .inr ⟨hremove, place, hnames, m, he⟩
    | file c m => exact .inl (hfound (fun _ => Entry.noConfusion) hremove)
    | link t => exact .inl (hfound (fun _ => Entry.noConfusion) hremove)
  · cases h

/-! ## Directories that have been made -/

theorem makeDirectory_eq_ok (hp : Path.Ends p front name) (h : tree.makeDirectory p = .ok after) :
    ∃ above, tree.Leads linkLimit (tree.origin p) front above ∧ tree.Enters above name ∧
      checkPath p = .ok () ∧ tree.lookup? (above ++ [name]) = none ∧
      after = tree.putEntry (above ++ [name]) (.directory none) := by
  unfold makeDirectory at h
  split at h
  · cases h
  · cases h
  next above last hparent =>
  obtain ⟨hdir, hcheck, -, -⟩ := resolveParent_eq_ok hparent
  obtain ⟨rfl, habove⟩ := leads_of_resolveParent hp hparent
  split at h
  · cases h
  split at h
  · cases h
  next hsize =>
  split at h
  · cases h
  next hmissing =>
  exact ⟨above, habove, ⟨hdir, isName.stays hp.name, isName.climbs hp.name,
    Nat.le_of_not_lt hsize⟩, hcheck, by simpa using hmissing, (Except.ok.inj h).symm⟩

theorem makeDirectory_isDir {n : String} (hr : Path.Firm root) (hn : isName n = true)
    (h : tree.makeDirectory (join root n) = .ok after) :
    ∃ place, after.resolve (join root n) = .ok place ∧ after.IsDir place := by
  have hsturdy := (makeDirectory_grown h).sturdy
  obtain ⟨above, habove, henters, hcheck, -, rfl⟩ :=
    makeDirectory_eq_ok ⟨firm_join root hn, hr.steps_join hn, hn⟩ h
  rw [origin, isAbsolute_join root hn] at habove
  -- What is made is in the directory to which the root leads, and the root still leads there.
  have hroot : tree.resolve root = .ok above := by
    have hshort := hcheck
    rw [hr.join hn, String.append_assoc] at hshort
    exact resolve_eq_ok.2 ⟨checkPath_of_append hr.ne_empty hshort, habove⟩
  have hmade : (tree.putEntry (above ++ [n]) (.directory none)).lookup? (above ++ [n]) =
      some (.directory none) := lookup?_putEntry_self (by simp) _
  refine ⟨above ++ [n], ?_, none, hmade⟩
  refine (resolve_join_eq_ok (hsturdy.resolve hroot) (hsturdy.directories above henters.directory)
    hn ?_).2 ⟨rfl, henters.size, hcheck⟩
  rintro ⟨t, ht⟩
  rw [hmade] at ht
  cases ht

theorem ensureDirectory_isDir {n : String} (hr : Path.Firm root) (hn : isName n = true)
    (h : tree.ensureDirectory (join root n) = .ok after) :
    ∃ place, after.resolve (join root n) = .ok place ∧ after.IsDir place := by
  unfold ensureDirectory at h
  split at h
  · next made hmade =>
    obtain rfl := Except.ok.inj h
    exact makeDirectory_isDir hr hn hmade
  · split at h
    · next hthere =>
      obtain rfl := Except.ok.inj h
      exact isDir_of_isDirectory hthere
    · cases h

theorem makeDirectories_isDir {n : String} (hr : Path.Firm root) (hn : isName n = true)
    (h : tree.makeDirectories (join root n) = .ok after) :
    ∃ place, after.resolve (join root n) = .ok place ∧ after.IsDir place := by
  have hdot : n ≠ "." := by
    rintro rfl
    exact absurd (isName.stays hn) (by decide)
  simp only [makeDirectories, makeDirectoriesFrom, splitLast_join hr hn, if_neg hdot] at h
  split at h
  · split at h <;>
    · obtain ⟨made, -, hmade⟩ := except_bind_eq_ok.1 h
      exact ensureDirectory_isDir hr hn hmade
  · exact ensureDirectory_isDir hr hn h

/-! ## Trees without loose ends -/

def Rooted (tree : FileTree) : Prop :=
  ∀ p name e, tree.lookup? (p ++ [name]) = some e → tree.IsDir p

theorem rooted_of_entries (h : ∀ x ∈ tree.entries, tree.IsDir x.1.dropLast) : tree.Rooted := by
  intro p name e he
  have hdir := h _ (mem_entries_of_lookup? (by simp) he)
  rwa [dropLast_concat] at hdir

theorem Rooted.isDir_dropLast (hr : tree.Rooted) {p : List String} (hp : tree.IsDir p) :
    tree.IsDir p.dropLast := by
  rcases eq_nil_or_concat p with rfl | ⟨q, name, rfl⟩
  · exact hp
  · obtain ⟨m, hm⟩ := hp
    rw [concat_eq_append] at hm ⊢
    rw [dropLast_concat]
    exact hr q name _ hm

theorem Leads.not_isLink (hr : tree.Rooted) {steps : List String}
    (h : tree.Leads links place steps goal) (hplace : ¬tree.IsLink place) :
    ¬tree.IsLink goal := by
  induction h with
  | here => exact hplace
  | stay _ _ _ ih => exact ih hplace
  | climb directory _ _ _ ih => exact ih (not_isLink_of_isDir (hr.isDir_dropLast directory))
  | @link links place rest goal step target enters found onward ih =>
    apply ih
    split
    · exact not_isLink_of_isDir (isDir_nil tree)
    · exact hplace
  | enter _ _ plain _ ih => exact ih plain
  | fresh _ missing => exact not_isLink_of_missing missing

theorem Grown.rooted (h : Grown tree after) (hr : tree.Rooted) : after.Rooted := by
  induction h with
  | same => exact hr
  | @more t above name grown directory named missing ih =>
    have hsturdy : Sturdy t _ := sturdy_putEntry (e := .directory none)
      (not_isDir_of_missing missing) (not_isLink_of_missing missing) fun _ => Entry.noConfusion
    intro p n e he
    by_cases hp : p ++ [n] = above ++ [name]
    · obtain ⟨rfl, -⟩ := append_inj' hp rfl
      exact hsturdy.directories p directory
    · rw [lookup?_putEntry_ne hp] at he
      exact hsturdy.directories p (ih p n e he)

theorem Wrote.sturdy (hr : tree.Rooted) (hp : steps p ≠ []) (h : tree.Wrote after p c) :
    tree.Sturdy after := by
  obtain ⟨place, hplace, hdir, hfile, hsame⟩ := h
  obtain ⟨step, rest, hsteps⟩ := exists_cons_of_ne_nil hp
  have hleads := (resolve_eq_ok.1 hplace).2
  -- A link in the place of the file would have been followed, so no link is lost by writing.
  have hlink : ¬tree.IsLink place := by
    rw [hsteps] at hleads
    exact hleads.not_isLink hr (not_isLink_of_isDir hleads.isDir)
  refine ⟨hsame.cwd, fun q hq => ?_, fun q t => ?_⟩
  · have hne : q ≠ place := by
      rintro rfl
      exact hdir hq
    rwa [IsDir, hsame.others q hne]
  · by_cases hq : q = place
    · subst hq
      rw [hfile]
      refine ⟨fun ht => ?_, fun ht => absurd ⟨t, ht⟩ hlink⟩
      cases ht
    · rw [hsame.others q hq]

theorem Wrote.open? (hr : tree.Rooted) (hp : steps p ≠ []) (h : tree.Wrote after p c) :
    after.open? p = .ok c := by
  have hsturdy := h.sturdy hr hp
  obtain ⟨place, hplace, -, hfile, -⟩ := h
  exact open?_eq_ok.2 ⟨place, none, hsturdy.resolve hplace, hfile⟩

end FileTree

end RepoWiki
