import RepoWiki.Logging
import RepoWiki.Proofs.RealPath
/-
The log is kept inside its directory.

The place of the log file is checked by its text. Of real paths the text tells whether one place is
inside another, and what is made on the way to a real path is on that way, so whatever path is asked
for, nothing is changed but inside the directory, if the path means any place at all.
-/

namespace RepoWiki

open FileTree List RepoWiki.Path Run

namespace Path

variable {names front : List String} {n : String}

theorem steps_extend (hn : names.all isName = true) : steps (extend "/" names) = names := by
  by_cases hne : names = []
  · subst hne
    rfl
  · rw [(firm_extend hne hn).steps, named_extend hn]

theorem ends_extend (hn : (front ++ [n]).all isName = true) :
    Ends (extend "/" (front ++ [n])) front n := by
  refine ⟨firm_extend (by simp) hn, steps_extend hn, ?_⟩
  simpa using (all_eq_true.1 hn) n (by simp)

theorem parent_extend (hn : (front ++ [n]).all isName = true) :
    parent (extend "/" (front ++ [n])) = extend "/" front := by
  rw [all_append, all_cons, all_nil, Bool.and_true, Bool.and_eq_true] at hn
  rw [extend_concat]
  by_cases hne : front = []
  · subst hne
    have hjoin : join (extend "/" []) n = "" ++ "/" ++ n := by
      rw [join, isName.relative hn.2]
      rfl
    rw [hjoin, parent, Text.cutLast?_append stroke "" (isName.free hn.2)]
    rfl
  · exact (firm_extend hne hn.1).parent_join hn.2

end Path

namespace FileTree

variable {tree after made : FileTree} {place goal : List String}

theorem Rooted.isDir_above (hr : tree.Rooted) (h : tree.IsDir place) {way : List String}
    (hway : way <+: place) : tree.IsDir way := by
  obtain ⟨tail, rfl⟩ := hway
  induction tail using reverseRecOn with
  | nil => rwa [append_nil] at h
  | append_singleton tail n ih =>
    obtain ⟨m, hm⟩ := h
    rw [← append_assoc] at hm
    exact ih (hr _ n _ hm)

theorem Rooted.straight (hr : tree.Rooted) (h : tree.IsDir place) : tree.Straight place :=
  fun _ hway => not_isLink_of_isDir (hr.isDir_above h hway)

/-! ## Ways without links -/

theorem origin_extend_root (tree : FileTree) (hn : place.all isName = true) :
    tree.origin (extend "/" place) = [] := by
  rw [origin, isAbsolute_extend "/" hn]
  rfl

theorem Straight.resolve (h : tree.Straight place) (hn : place.all isName = true)
    (hp : tree.resolve (extend "/" place) = .ok goal) : goal = place := by
  have hleads := (resolve_eq_ok.1 hp).2
  rw [origin_extend_root tree hn, steps_extend hn] at hleads
  exact hleads.names hn fun way _ hway => h way hway

theorem Straight.takeSteps_ne {front names : List String} (h : tree.Straight (front ++ names))
    (hn : names.all isName = true)
    (jump : List String → List String → Except FileProblem (List String)) :
    tree.takeSteps jump front names ≠ .error .linkLoop := by
  induction names generalizing front with
  | nil => simp [takeSteps]
  | cons n names ih =>
    rw [all_cons, Bool.and_eq_true] at hn
    rw [append_cons] at h
    have hplain := h (front ++ [n]) (prefix_append _ _)
    rw [takeSteps, isName.stays hn.1, isName.climbs hn.1, if_neg (by simp), if_neg (by simp)]
    split
    · split
      · simp
      split
      · next target htarget => exact absurd ⟨target, htarget⟩ hplain
      · exact ih h hn.2
      · split <;> simp
    · simp
    · simp

theorem Straight.not_loops (h : tree.Straight place) (hn : place.all isName = true) :
    tree.loops (extend "/" place) = false := by
  have hresolve : tree.resolve (extend "/" place) ≠ .error .linkLoop := by
    rw [FileTree.resolve, origin_extend_root tree hn, steps_extend hn, follow_eq, checkPath]
    have hsteps := @Straight.takeSteps_ne tree [] place h hn (tree.jump linkLimit)
    split
    · simp [bind, Except.bind]
    split
    · simp [bind, Except.bind]
    split
    · simp [bind, Except.bind]
    · exact hsteps
  unfold loops
  split
  · next hloop => exact absurd hloop hresolve
  · rfl

/-! ## What is made on the way to a place -/

/-- Nothing has changed but on the way to a place, where there was nothing before. -/
structure Within (made : FileTree) (goal : List String) (tree : FileTree) : Prop where
  sturdy : Sturdy made tree
  only : ∀ q, tree.lookup? q = made.lookup? q ∨ made.lookup? q = none ∧ q <+: goal

section

variable (hw : made.Within goal tree)
include hw

variable {q : List String}

theorem Within.put {e : Entry} (hq : q <+: goal) (hmissing : tree.lookup? q = none)
    (he : ∀ t, e ≠ .link t) : made.Within goal (tree.putEntry q e) := by
  refine ⟨hw.sturdy.trans (sturdy_putEntry (not_isDir_of_missing hmissing)
    (not_isLink_of_missing hmissing) he), fun r => ?_⟩
  by_cases hr : r = q
  · subst hr
    rcases hw.only r with hsame | hnew
    · exact .inr ⟨hsame ▸ hmissing, hq⟩
    · exact .inr hnew
  · rw [lookup?_putEntry_ne hr]
    exact hw.only r

variable (hs : made.Straight goal) (hn : goal.all Path.isName = true)
include hs hn

theorem Within.makeDirectory (hq : q <+: goal) (h : tree.makeDirectory (extend "/" q) = .ok after) :
    made.Within goal after := by
  rcases eq_nil_or_concat q with rfl | ⟨front, n, rfl⟩
  · cases h
  · rw [concat_eq_append] at hq h
    obtain ⟨tail, rfl⟩ := hq
    rw [all_append, Bool.and_eq_true] at hn
    have hfront : front.all isName = true := by
      rw [all_append, Bool.and_eq_true] at hn
      exact hn.1.1
    obtain ⟨above, habove, -, -, hmissing, rfl⟩ := makeDirectory_eq_ok (ends_extend hn.1) h
    rw [origin_extend_root tree hn.1] at habove
    obtain rfl : above = front := habove.names hfront fun way _ hway =>
      hw.sturdy.straight hs way (hway.trans ((prefix_append _ _).trans (prefix_append _ _)))
    exact hw.put (prefix_append _ _) hmissing fun _ => Entry.noConfusion

theorem Within.ensureDirectory (hq : q <+: goal)
    (h : tree.ensureDirectory (extend "/" q) = .ok after) : made.Within goal after := by
  unfold FileTree.ensureDirectory at h
  split at h
  · next t ht =>
    obtain rfl := Except.ok.inj h
    exact hw.makeDirectory hs hn hq ht
  · split at h
    · exact Except.ok.inj h ▸ hw
    · cases h

omit hw in
theorem Within.makePathFrom {fuel : Nat} (hw : made.Within goal tree) (hq : q <+: goal)
    (h : makePathFrom fuel tree (extend "/" q) = .ok after) : made.Within goal after := by
  induction fuel generalizing q after with
  | zero => exact hw.makeDirectory hs hn hq h
  | succ fuel ih =>
    unfold makePathFrom at h
    split at h
    · next hmissing =>
      obtain ⟨above, habove, h⟩ := except_bind_eq_ok.1 h
      rcases eq_nil_or_concat q with rfl | ⟨front, n, rfl⟩
      · cases hmissing
      · rw [concat_eq_append] at hq h habove
        have hnames : (front ++ [n]).all isName = true :=
          all_eq_true.2 fun s hs => all_eq_true.1 hn s (hq.subset hs)
        rw [parent_extend hnames] at habove
        exact (ih ((prefix_append _ _).trans hq) habove).ensureDirectory hs hn hq h
    · exact hw.ensureDirectory hs hn hq h

theorem Within.makeParent (hne : goal ≠ [])
    (h : tree.makePath (parent (extend "/" goal)) = .ok after) : made.Within goal after := by
  obtain ⟨front, n, rfl⟩ := (eq_nil_or_concat goal).resolve_left hne
  rw [concat_eq_append] at *
  rw [parent_extend hn] at h
  exact Within.makePathFrom hs hn hw (prefix_append _ _) h

theorem Within.touch (h : tree.touch (extend "/" goal) = .ok after) :
    made.Within goal after ∧ ∃ c m, after.lookup? goal = some (.file c m) := by
  have hplace : ∀ p, tree.resolve (extend "/" goal) = .ok p → p = goal :=
    fun _ => (hw.sturdy.straight hs).resolve hn
  unfold FileTree.touch at h
  split at h
  · next hfile =>
    obtain rfl := Except.ok.inj h
    refine ⟨hw, ?_⟩
    unfold isFile find? at hfile
    cases hp : tree.resolve (extend "/" goal) with
    | error problem => simp [hp] at hfile
    | ok p =>
      obtain rfl := hplace p hp
      rw [hp] at hfile
      dsimp only at hfile
      split at hfile
      · next c m hc => exact ⟨c, m, hc⟩
      · cases hfile
  · next hfile =>
    obtain ⟨-, p, hp, hdir, rfl⟩ := write_eq_ok h
    obtain rfl := hplace p hp
    have hmissing : tree.lookup? p = none := by
      cases he : tree.lookup? p with
      | none => rfl
      | some e =>
        cases e with
        | directory m => exact absurd ⟨m, he⟩ hdir
        | file c m => simp [isFile, find?, hp, he] at hfile
        | link target => exact absurd ⟨target, he⟩ (hw.sturdy.straight hs p (prefix_refl p))
    exact ⟨hw.put (prefix_refl p) hmissing fun _ => Entry.noConfusion, .text "", none,
      lookup?_putEntry_self (ne_nil_of_not_isDir hdir) _⟩

end

theorem Within.refl (tree : FileTree) (goal : List String) : tree.Within goal tree :=
  ⟨sturdy_refl tree, fun _ => .inl rfl⟩

theorem makePath_join {root n : String} {base : List String} (hr : Path.Firm root)
    (hroot : tree.resolve root = .ok base) (hdir : tree.IsDir base) (hn : isName n = true) :
    tree.makePath (join root n) = tree.ensureDirectory (join root n) := by
  have hfirm := firm_join root hn
  obtain ⟨fuel, hfuel⟩ : ∃ k, (join root n).length = k + 1 :=
    Nat.exists_eq_succ_of_ne_zero (mt String.length_eq_zero_iff.1 hfirm.ne_empty)
  rw [makePath, hfuel, makePathFrom.eq_def]
  dsimp only
  split
  · next p hmissing =>
    exfalso
    unfold makeDirectory at hmissing
    cases hcheck : checkPath (join root n) with
    | ok u =>
      rw [resolveParent_join hr hroot hdir hn hcheck] at hmissing
      dsimp only at hmissing
      repeat' split at hmissing
      all_goals cases hmissing
    | error problem =>
      have hparent : tree.resolveParent (join root n) = .error problem := by
        rw [resolveParent, hcheck]
        rfl
      rw [hparent] at hmissing
      obtain rfl : problem = .notFound := by cases hmissing; rfl
      unfold checkPath at hcheck
      split at hcheck
      · cases hcheck
      split at hcheck
      · next hempty => exact hfirm.ne_empty hempty
      split at hcheck <;> cases hcheck
  · rfl

theorem ensureDirectory_join {root n : String} {base : List String} (hr : Path.Firm root)
    (hroot : tree.resolve root = .ok base) (hn : isName n = true)
    (h : tree.ensureDirectory (join root n) = .ok after) :
    after = tree ∨ after = tree.putEntry (base ++ [n]) (.directory none) := by
  unfold ensureDirectory at h
  split at h
  · next t ht =>
    obtain rfl := Except.ok.inj h
    obtain ⟨above, habove, -, -, -, rfl⟩ :=
      makeDirectory_eq_ok ⟨firm_join root hn, hr.steps_join hn, hn⟩ ht
    rw [origin, isAbsolute_join root hn] at habove
    exact .inr (by rw [habove.unique (resolve_eq_ok.1 hroot).2])
  · split at h
    · exact .inl (Except.ok.inj h).symm
    · cases h

end FileTree

namespace Logging

def setting? (h : Host) (name : String) : Option String :=
  (h.env.find? fun e => e.1 == name).map (·.2)

def asked (program : String) (h : Host) : String :=
  (setting? h "LOG_FILE_PATH").getD (program ++ "/logs" ++ "/application.log")

def refusal (p : String) (trusted : List String) : Fault :=
  .value ("LOG_FILE_PATH '" ++ Path.tidy p ++ "' is outside the trusted log directory '" ++
    Path.extend "/" trusted ++ "'")

theorem place_eq {tree : FileTree} {directory p : String} {trusted goal : List String}
    (hdirectory : tree.realPath directory = extend "/" trusted)
    (hp : tree.realPath p = extend "/" goal) (hs : tree.Straight goal)
    (htrusted : trusted.all isName = true) (hgoal : goal.all isName = true) :
    place tree directory p =
      if trusted ≠ [] ∧ trusted <+: goal ∧ trusted ≠ goal then .ok (extend "/" goal)
      else .error (refusal p trusted) := by
  rw [place, hp, hdirectory, hs.not_loops hgoal, if_neg (by simp)]
  simp only [startsWith_extend htrusted hgoal]
  rfl

variable {α : Type}

theorem on_changeTree_bind (f : FileTree → Result FileTree) (g : Unit → Run α) (h : Host) :
    (changeTree f >>= g).on h =
      match f h.tree with
      | .error fault => (.error fault, h)
      | .ok t => (g ()).on { h with tree := t } := by
  rw [on_bind, on_changeTree]
  cases f h.tree <;> rfl

theorem on_env?_bind (name : String) (g : Option String → Run α) (h : Host) :
    (env? name >>= g).on h = (g (setting? h name)).on h := by
  rw [env?, bind_assoc, on_get_bind, on_pure_bind]
  rfl

def numberOf (h : Host) (name : String) (default : Int) : Int :=
  match setting? h name with
  | some s => ((Text.readInt s).toOption).getD default
  | none => default

theorem on_numberSetting_bind (name : String) (default : Int) (g : Int → Run α) (h : Host) :
    (numberSetting name default >>= g).on h = (g (numberOf h name default)).on h := by
  rw [numberSetting, bind_assoc, on_env?_bind, on_pure_bind]
  rfl

def finish (format : String) (h : Host) (file : String) : Result Setup := do
  let levelName := capitals ((setting? h "LOG_LEVEL").getD "INFO")
  let format ← checkedFormat format
  let n ← level levelName
  let maxBytes := numberOf h "LOG_MAX_SIZE" 10 * 1024 * 1024
  checkWritable maxBytes
  return { level := n, levelName, file, maxBytes, backups := numberOf h "LOG_BACKUP_COUNT" 5,
           format }

theorem file_of_finish {format file : String} {h : Host} {s : Setup}
    (hf : finish format h file = .ok s) :
    s.file = file := by
  obtain ⟨format, -, hf⟩ := except_bind_eq_ok.1 hf
  obtain ⟨n, -, hf⟩ := except_bind_eq_ok.1 hf
  obtain ⟨u, -, hf⟩ := except_bind_eq_ok.1 hf
  rw [except_pure_eq_ok] at hf
  rw [← hf]

theorem on_lift_then {β : Type} {r : Result α} {f : α → Run β} {g : α → Result β} {h : Host}
    (hf : ∀ a, (f a).on h = (g a, h)) : (Run.lift r >>= f).on h = (r >>= g, h) := by
  rw [on_lift_bind]
  cases r with
  | error fault => rfl
  | ok a => exact hf a

theorem setup_on (program format : String) (h : Host) :
    (setup program format).on h =
      match h.tree.makePath (program ++ "/logs") with
      | .error fault => (.error fault, h)
      | .ok made =>
          match place made (program ++ "/logs") (asked program h) with
          | .error fault => (.error fault, { h with tree := made })
          | .ok file =>
              match made.makePath (parent file) with
              | .error fault => (.error fault, { h with tree := made })
              | .ok above =>
                  match above.touch file with
                  | .error fault => (.error fault, { h with tree := above })
                  | .ok t => (finish format h file, { h with tree := t }) := by
  rw [setup, on_changeTree_bind]
  cases h.tree.makePath (program ++ "/logs") with
  | error fault => rfl
  | ok made =>
    dsimp only
    rw [on_env?_bind, on_env?_bind, on_bind_ok (on_tree _), on_lift_bind]
    change next _ (place made (program ++ "/logs") (asked program h), _) = _
    cases place made (program ++ "/logs") (asked program h) with
    | error fault => rfl
    | ok file =>
      rw [next_ok, on_changeTree_bind]
      dsimp only
      cases made.makePath (parent file) with
      | error fault => rfl
      | ok above =>
        dsimp only
        rw [on_numberSetting_bind, on_numberSetting_bind, on_changeTree_bind]
        dsimp only
        cases above.touch file with
        | error fault => rfl
        | ok t =>
          exact on_lift_then fun given => on_lift_then fun n => on_lift_then fun u => on_pure _ _

/-- Whatever path is asked for, if it means a place at all, then that place decides: inside the
directory for logs the file is opened there, and what is made on the way is inside too; anywhere
else the path is refused, and nothing is made but the directory itself. -/
theorem setup_stays_inside {program format : String} {h : Host} {base : List String}
    (hprogram : Path.Firm program) (hbase : h.tree.resolve program = .ok base)
    (hdir : h.tree.IsDir base) (hrooted : h.tree.Rooted) (habs : Path.isAbsolute h.tree.cwd = true)
    (hcwd : h.tree.IsDir (Path.components h.tree.cwd)) :
    (∃ fault, h.tree.makePath (program ++ "/logs") = .error fault ∧
      (setup program format).on h = (.error fault, h)) ∨
    ∃ made trusted, (made = h.tree ∨ made = h.tree.putEntry (base ++ ["logs"]) (.directory none)) ∧
      made.resolve (program ++ "/logs") = .ok trusted ∧ made.IsDir trusted ∧
      ∀ goal, made.Means (asked program h) goal →
        if trusted ≠ [] ∧ trusted <+: goal ∧ trusted ≠ goal then
          (∀ q, ((setup program format).on h).2.tree.lookup? q ≠ made.lookup? q →
            trusted <+: q ∧ q ≠ trusted ∧ q <+: goal) ∧
          ∀ s, ((setup program format).on h).1 = .ok s → s.file = Path.extend "/" goal ∧
            ∃ c m, ((setup program format).on h).2.tree.lookup? goal = some (.file c m)
        else (setup program format).on h =
          (.error (refusal (asked program h) trusted), { h with tree := made }) := by
  have hname : Path.isName "logs" = true := by decide
  have hjoin : Path.join program "logs" = program ++ "/logs" := by
    rw [hprogram.join hname, String.append_assoc]
    rfl
  have hpath := makePath_join hprogram hbase hdir hname
  rw [setup_on]
  cases hmade : h.tree.makePath (program ++ "/logs") with
  | error fault => exact .inl ⟨fault, rfl, rfl⟩
  | ok made =>
    rw [hjoin, hmade, ← hjoin] at hpath
    have hgrown := ensureDirectory_grown hpath.symm
    obtain ⟨trusted, htrusted, hthere⟩ := ensureDirectory_isDir hprogram hname hpath.symm
    refine .inr
      ⟨made, trusted, ensureDirectory_join hprogram hbase hname hpath.symm, hjoin ▸ htrusted,
      hthere, fun goal hgoal => ?_⟩
    have hroot := hgrown.rooted hrooted
    have hhere : made.Straight (Path.components made.cwd) := by
      rw [hgrown.sturdy.cwd]
      exact hroot.straight (hgrown.sturdy.directories _ hcwd)
    rw [← hgrown.sturdy.cwd] at habs
    obtain ⟨hs, hn⟩ := hgoal.real habs hhere
    have hlogs := Means.of_resolve htrusted
    obtain ⟨-, hnames⟩ := hlogs.real habs hhere
    rw [hjoin] at hlogs
    dsimp only
    rw [place_eq (realPath_eq hlogs hnames) (realPath_eq hgoal hn) hs hnames hn]
    split
    · next hinside =>
      obtain ⟨hne, hstarts, -⟩ := hinside
      have hgoalne : goal ≠ [] := by
        rintro rfl
        exact hne (prefix_nil.1 hstarts)
      have hchanged : ∀ t, made.Within goal t → ∀ q, t.lookup? q ≠ made.lookup? q →
          trusted <+: q ∧ q ≠ trusted ∧ q <+: goal := by
        intro t hw q hq
        obtain ⟨hmissing, hway⟩ := (hw.only q).resolve_left hq
        have habsent := not_isDir_of_missing hmissing
        have hcompare := prefix_or_prefix_of_prefix hstarts hway
        refine ⟨hcompare.resolve_right fun hout => habsent (hroot.isDir_above hthere hout), ?_,
          hway⟩
        rintro rfl
        exact habsent hthere
      have hw := Within.refl made goal
      dsimp only
      cases habove : made.makePath (Path.parent (Path.extend "/" goal)) with
      | error fault => exact ⟨hchanged made hw, fun s hs => by cases hs⟩
      | ok above =>
        dsimp only
        have hwabove := hw.makeParent hs hn hgoalne habove
        cases htouch : above.touch (Path.extend "/" goal) with
        | error fault => exact ⟨hchanged above hwabove, fun s hs => by cases hs⟩
        | ok t =>
          obtain ⟨hwt, hfile⟩ := hwabove.touch hs hn htouch
          exact ⟨hchanged t hwt, fun s hs => ⟨file_of_finish hs, hfile⟩⟩
    · rfl

def linkedTree : FileTree where
  cwd := "/api"
  entries := [(["api"], .directory none), (["api", "logs"], .directory none),
    (["api", "latest"], .link "logs/./")]

def linkedHost : Host :=
  { tree := linkedTree, env := [("LOG_FILE_PATH", "../api//latest/../logs/a.log")] }

theorem setup_stays_inside_linked :
    linkedTree.Means (asked "/api" linkedHost) ["api", "logs", "a.log"] ∧
    ((∃ fault, linkedTree.makePath "/api/logs" = .error fault ∧
      (setup "/api" "").on linkedHost = (.error fault, linkedHost)) ∨
    ∃ made trusted, (made = linkedTree ∨
        made = linkedTree.putEntry ["api", "logs"] (.directory none)) ∧
      made.resolve "/api/logs" = .ok trusted ∧ made.IsDir trusted ∧
      ∀ goal, made.Means (asked "/api" linkedHost) goal →
        if trusted ≠ [] ∧ trusted <+: goal ∧ trusted ≠ goal then
          (∀ q, ((setup "/api" "").on linkedHost).2.tree.lookup? q ≠ made.lookup? q →
            trusted <+: q ∧ q ≠ trusted ∧ q <+: goal) ∧
          ∀ s, ((setup "/api" "").on linkedHost).1 = .ok s → s.file = Path.extend "/" goal ∧
            ∃ c m, ((setup "/api" "").on linkedHost).2.tree.lookup? goal = some (.file c m)
        else (setup "/api" "").on linkedHost =
          (.error (refusal (asked "/api" linkedHost) trusted),
            { linkedHost with tree := made })) := by
  have hrooted : linkedTree.Rooted := by
    refine rooted_of_entries fun x hx => ?_
    simp only [linkedTree, mem_cons, not_mem_nil, or_false] at hx
    rcases hx with rfl | rfl | rfl <;> exact ⟨none, rfl⟩
  refine ⟨.of_resolve (by decide +kernel), ?_⟩
  exact @setup_stays_inside "/api" "" linkedHost ["api"] ⟨'i', rfl, by decide⟩ rfl
    ⟨none, rfl⟩ hrooted rfl
    ⟨none, rfl⟩

/-! ## A link through itself -/

def loopTree : FileTree where
  cwd := "/"
  entries := [(["api"], .directory none), (["api", "logs"], .directory none),
    (["api", "logs", "today.log"], .link "today.log/../app.log"),
    (["api", "logs", "app.log"], .link "../../outside.log")]

def loopHost : Host :=
  { tree := loopTree, env := [("LOG_FILE_PATH", "api/logs/today.log")] }

theorem realPath_loopTree : loopTree.realPath "/api/logs" = "/api/logs" ∧
    loopTree.realPath "api/logs/today.log" = "/api/logs/app.log" := by
  have hapi : ¬loopTree.IsLink ([] ++ ["api"]) := not_isLink_of_isDir ⟨none, rfl⟩
  have hlogs : ¬loopTree.IsLink ([] ++ ["api"] ++ ["logs"]) := not_isLink_of_isDir ⟨none, rfl⟩
  have htoday : loopTree.lookup? ([] ++ ["api"] ++ ["logs"] ++ ["today.log"]) =
      some (.link "today.log/../app.log") := rfl
  constructor
  · have hsteps : (steps "/api/logs").map Task.step = [.step "api", .step "logs"] := rfl
    rw [realPath, hsteps, show loopTree.origin "/api/logs" = [] from rfl,
      realFrom_enters (by decide) (by decide) hapi,
        realFrom_enters (by decide) (by decide) hlogs, realFrom]
    decide +kernel
  · have hsteps : (steps "api/logs/today.log").map Task.step =
        [.step "api", .step "logs", .step "today.log"] := rfl
    have htarget : (steps "today.log/../app.log").map Task.step =
        [.step "today.log", .step "..", .step "app.log"] := rfl
    have hcount : loopTree.entries.length = 3 + 1 := rfl
    rw [realPath, hsteps, show loopTree.origin "api/logs/today.log" = [] from rfl, hcount,
      realFrom_enters (by decide) (by decide) hapi, realFrom_enters (by decide) (by decide) hlogs,
      realFrom_link (by decide) (by decide) htoday, lookup_nil]
    dsimp only
    -- The link is met again within itself, and the rest of the path is taken as it is written.
    rw [htarget, if_neg (by decide), cons_append, realFrom_link (by decide) (by decide) htoday,
      lookup_cons, beq_self_eq_true]
    decide +kernel

/-- What the check has passed may then be a link itself, and the file is made where that leads. -/
theorem setup_escapes_by_loop : loopTree.lookup? ["outside.log"] = none ∧
    ((setup "/api" "").on loopHost).2.tree.lookup? ["outside.log"] =
      some (.file (.text "") none) := by
  have hmade : loopHost.tree.makePath "/api/logs" = .ok loopTree := rfl
  have hasked : asked "/api" loopHost = "api/logs/today.log" := rfl
  have hplace : place loopTree "/api/logs" "api/logs/today.log" = .ok "/api/logs/app.log" := by
    have hloops : loopTree.loops "/api/logs/app.log" = false := by decide +kernel
    have hstart : Text.startsWith ("/api/logs" ++ "/") "/api/logs/app.log" = true := by
      decide +kernel
    rw [place, realPath_loopTree.1, realPath_loopTree.2, hloops, hstart]
    rfl
  have habove : loopTree.makePath (Path.parent "/api/logs/app.log") = .ok loopTree := rfl
  have hresolve : loopTree.resolve "/api/logs/app.log" = .ok ["outside.log"] := by decide +kernel
  have hfile : loopTree.isFile "/api/logs/app.log" = false := by decide +kernel
  have htouch : loopTree.touch "/api/logs/app.log" =
      .ok (loopTree.putEntry ["outside.log"] (.file (.text "") none)) := by
    rw [touch, hfile, write_of_not_stroke (by decide +kernel), hresolve]
    rfl
  rw [setup_on, show "/api" ++ "/logs" = "/api/logs" from rfl, hmade]
  dsimp only
  rw [hasked, hplace]
  dsimp only
  rw [habove]
  dsimp only
  rw [htouch]
  exact ⟨rfl, rfl⟩

end Logging
end RepoWiki
