import RepoWiki.Proofs.Placement
import RepoWiki.Proofs.Wiki.Cache
/-
What requests do to files. A request that fails changes nothing, and one that goes well changes one
entry: a wiki is written to the file of its key (`stores_one`), and a removal takes away what the
path of its key names, after its checks in their order (`deletes_one`). A key may hold anything, so
its path may lead through other directories or be none at all. From the single requests it follows
what a run of them leaves where no removal has the code (`Session.after_putOnly`).
-/

namespace RepoWiki.Wiki.Cache

open FileTree

theorem path_ends (h : Host) (k : Key) : ∃ front name, Path.Ends (path h k) front name := by
  obtain ⟨s, hs⟩ : ∃ s, path h k = s ++ ending := by
    rw [path, Path.join, Key.fileName]
    split
    · exact ⟨_, rfl⟩
    · split <;> exact ⟨_, (String.append_assoc).symm⟩
  rw [hs]
  exact Path.exists_ends (c := 'n') (by simp [ending]) (by decide) (by decide)

/-- A wiki is written to the file to which the path of its key leads and nothing else changes, or
it cannot be written and nothing changes at all. -/
def StoresOne (settings : Fields) (s : Submission) (h : Host) : Prop :=
  match keyOf settings s with
  | .error fault => (store settings s).on h = (.error fault, h)
  | .ok k =>
      (∃ tree, (store settings s).on h = (.ok (), { h with tree }) ∧
        h.tree.Wrote tree (path h k) (.text (encode s.stored))) ∨
      (store settings s).on h = (.error (.http 500 "Failed to save wiki cache"), h) ∧
        ∀ place, h.tree.resolve (path h k) = .ok place → h.tree.IsDir place

theorem stores_one (settings : Fields) (s : Submission) (h : Host) : StoresOne settings s h := by
  rw [StoresOne]
  cases hkey : keyOf settings s with
  | error fault => exact store_of_error hkey h
  | ok k =>
    have hstore := store_of_key hkey h
    obtain ⟨front, name, hends⟩ := path_ends h k
    rcases wrote_or_isDir hends.firm.endsWith with ⟨tree, hok, hwrote⟩ | ⟨⟨fault, hfault⟩, hdir⟩
    · rw [hok] at hstore
      exact .inl ⟨tree, hstore, hwrote⟩
    · rw [hfault] at hstore
      exact .inr ⟨hstore, hdir⟩

/-- The checks of a removal in their order, each of which fails without a change. After them what
the path of the key names is removed and nothing else changes, unless it is a directory. -/
def DeletesOne (settings : Fields) (g : Guard) (w : Wanted) (code : Json) (h : Host) : Prop :=
  match supports settings w.language, g.admits code, h.tree.exists? (path h w.key) with
  | .error fault, _, _ => (delete settings g w code).on h = (.error fault, h)
  | .ok false, _, _ =>
      (delete settings g w code).on h = (.error (.http 400 "Language is not supported"), h)
  | .ok true, false, _ =>
      (delete settings g w code).on h = (.error (.http 401 "Authorization code is invalid"), h)
  | .ok true, true, false =>
      (delete settings g w code).on h = (.error (.http 404 "Wiki cache not found"), h)
  | .ok true, true, true =>
      (∃ tree, (delete settings g w code).on h = (.ok (), { h with tree }) ∧
        h.tree.Removed tree (path h w.key)) ∨
      ∃ message, (delete settings g w code).on h =
          (.error (.http 500 ("Failed to delete wiki cache: " ++ message)), h) ∧
        ∃ place, h.tree.Names (path h w.key) place ∧ h.tree.IsDir place

theorem deletes_one (settings : Fields) (g : Guard) (w : Wanted) (code : Json) (h : Host) :
    DeletesOne settings g w code h := by
  rw [DeletesOne]
  have hdelete := delete_on settings g w code h
  cases hsupports : supports settings w.language with
  | error fault => simpa only [hsupports] using hdelete
  | ok supported =>
    cases supported with
    | false => simpa only [hsupports] using hdelete
    | true =>
      cases hadmits : g.admits code with
      | false => simpa only [hsupports, hadmits, if_true] using hdelete
      | true =>
        cases hexists : h.tree.exists? (path h w.key) with
        | false => simpa [hsupports, hadmits, hexists] using hdelete
        | true =>
          simp only [hsupports, hadmits, hexists, Bool.true_eq_false, if_false] at hdelete
          dsimp only
          obtain ⟨front, name, hends⟩ := path_ends h w.key
          rcases removed_or_isDir hends hexists with ⟨tree, hok, hgone⟩ | ⟨hfault, hdir⟩
          · rw [hok] at hdelete
            exact .inl ⟨tree, hdelete, hgone⟩
          · rw [hfault] at hdelete
            exact .inr ⟨_, hdelete, hdir⟩

/-! ## Requests without the code -/

/-- All is as it was, except where a file has been put and no directory was. -/
def PutOnly (put : Content → Prop) (tree after : FileTree) : Prop :=
  ∀ p, after.lookup? p = tree.lookup? p ∨
    ¬tree.IsDir p ∧ ∃ c, put c ∧ after.lookup? p = some (.file c none)

theorem PutOnly.refl (put : Content → Prop) (tree : FileTree) : PutOnly put tree tree :=
  fun _ => .inl rfl

theorem PutOnly.trans {put : Content → Prop} {tree middle after : FileTree}
    (h : PutOnly put tree middle) (h' : PutOnly put middle after) : PutOnly put tree after := by
  intro p
  rcases h' p with hsame | ⟨hdir, hput⟩
  · rw [hsame]
    exact h p
  · -- A directory is nowhere replaced, so there was none at the start if there is none now.
    refine .inr ⟨fun hbefore => hdir ?_, hput⟩
    rcases h p with hsame | ⟨hnone, -⟩
    · rwa [IsDir, hsame]
    · exact absurd hbefore hnone

theorem putOnly_of_wrote {put : Content → Prop} {tree after : FileTree} {p : String} {c : Content}
    (hput : put c) (h : tree.Wrote after p c) : PutOnly put tree after := by
  obtain ⟨place, -, hdir, hfile, hsame⟩ := h
  intro q
  by_cases hq : q = place
  · subst hq
    exact .inr ⟨hdir, c, hput, hfile⟩
  · exact .inl (hsame.others q hq)

def Request.Puts (r : Request) (c : Content) : Prop :=
  ∃ body s, r = .store body ∧ Submission.read body = .ok s ∧ c = .text (encode s.stored)

/-- A request that removes nothing, since it is no removal or comes without the code. -/
def Request.Harmless (g : Guard) (r : Request) : Prop :=
  ∀ asked code, r = .delete asked code → g.admits code = false

theorem store_putOnly (settings : Fields) (g : Guard) (body : Json) (h : Host) :
    PutOnly (Request.store body).Puts h.tree
      (((Request.store body).perform settings g).on h).2.tree := by
  cases hread : Submission.read body with
  | error fault =>
    have hperform : ((Request.store body).perform settings g).on h = (.error fault, h) := by
      rw [Request.perform, hread, Run.on_lift_bind, Run.next_error]
    rw [hperform]
    exact .refl _ _
  | ok s =>
    have htouches := stores_one settings s h
    rw [StoresOne] at htouches
    rw [perform_store hread]
    split at htouches
    · rw [Run.on_bind_error htouches]
      exact .refl _ _
    · rcases htouches with ⟨tree, hok, hwrote⟩ | ⟨herror, -⟩
      · rw [Run.on_bind_ok hok, Run.on_pure]
        exact putOnly_of_wrote ⟨body, s, rfl, hread, rfl⟩ hwrote
      · rw [Run.on_bind_error herror]
        exact .refl _ _

theorem delete_refused {settings : Fields} {g : Guard} {w : Wanted} {code : Json} (h : Host)
    (hcode : g.admits code = false) :
    ∃ fault, (delete settings g w code).on h = (.error fault, h) := by
  have htouches := deletes_one settings g w code h
  rw [DeletesOne, hcode] at htouches
  split at htouches
  · exact ⟨_, htouches⟩
  · exact ⟨_, htouches⟩
  · exact ⟨_, htouches⟩
  · next hadmits _ => cases hadmits
  · next hadmits _ => cases hadmits

theorem perform_putOnly {settings : Fields} {g : Guard} {r : Request} (hr : r.Harmless g)
    (h : Host) : PutOnly r.Puts h.tree ((r.perform settings g).on h).2.tree := by
  cases r with
  | store body => exact store_putOnly settings g body h
  | get asked =>
    rw [Request.perform, get_on]
    exact .refl _ _
  | delete asked code =>
    obtain ⟨fault, hfault⟩ := delete_refused h (hr asked code rfl)
    rw [Request.perform, Run.on_bind_error hfault]
    exact .refl _ _

theorem Session.after_putOnly {settings : Fields} {g : Guard} {requests : List Request}
    (hall : ∀ r ∈ requests, r.Harmless g) (h : Host) :
    PutOnly (fun c => ∃ r ∈ requests, r.Puts c) h.tree
      (Session.after settings g h requests).host.tree := by
  -- The induction is on what is left of the requests, from any session.
  have hrun : ∀ (run : List Request) (s : Session), (∀ r ∈ run, r ∈ requests) →
      PutOnly (fun c => ∃ r ∈ requests, r.Puts c) s.host.tree
        (run.foldl (Session.serve settings g) s).host.tree := by
    intro run
    induction run with
    | nil => exact fun s _ => .refl _ s.host.tree
    | cons r run ih =>
      intro s hrun
      have hmem := hrun r List.mem_cons_self
      refine PutOnly.trans ?_ (ih _ fun q hq => hrun q (List.mem_cons_of_mem r hq))
      intro p
      refine (perform_putOnly (hall r hmem) s.host p).imp_right ?_
      rintro ⟨hdir, c, hputs, hfile⟩
      exact ⟨hdir, c, ⟨r, hmem, hputs⟩, hfile⟩
  exact hrun requests { host := h } fun _ hr => hr

/-- What requests do to files. A search changes nothing, and a request to keep or to remove a wiki
changes one entry or none. So where a code is asked for and no removal comes with it, all that a run
of requests changes are files, which then hold wikis of the run. -/
theorem requests_touch_one_file (settings : Fields) (g : Guard) (h : Host) :
    (∀ w, ((get settings w).on h).2 = h) ∧
    (∀ s, StoresOne settings s h) ∧
    (∀ w code, DeletesOne settings g w code h) ∧
    ∀ requests, g.on.truthy = true →
      (∀ asked code, Request.delete asked code ∈ requests → code.same g.code = false) →
      PutOnly (fun c => ∃ r ∈ requests, r.Puts c) h.tree
        (Session.after settings g h requests).host.tree := by
  refine ⟨fun w => ?_, fun s => stores_one settings s h,
    fun w code => deletes_one settings g w code h, fun requests hon hcodes => ?_⟩
  · rw [get_on]
  · refine Session.after_putOnly (fun r hr asked code hdelete => ?_) h
    rw [Guard.admits, hon, hcodes asked code (hdelete ▸ hr)]
    rfl

def shelved : Host :=
  { tree := bare.tree.putEntry [".adalflow", "wikicache", "deepwiki_cache_t_o_r_en.json"]
      (.file (.text "old") none) }

/-- A removal with another code and one with none leave a wiki where it is, and what was stored in
between stays as well. -/
theorem requests_touch_one_file_guarded :
    PutOnly (fun c => ∃ r ∈ [Request.delete ⟨"o", "r", "t", "en"⟩ .null,
        .store (bodyOf "new" "s" "en"), .delete ⟨"o", "s", "t", "en"⟩ (.str "x")], r.Puts c)
      shelved.tree
      (Session.after (speaking "en") ⟨.bool true, .str "c"⟩ shelved
        [.delete ⟨"o", "r", "t", "en"⟩ .null, .store (bodyOf "new" "s" "en"),
          .delete ⟨"o", "s", "t", "en"⟩ (.str "x")]).host.tree := by
  refine (requests_touch_one_file (speaking "en") ⟨.bool true, .str "c"⟩ shelved).2.2.2 _ rfl ?_
  intro asked code hmem
  simp only [List.mem_cons, List.not_mem_nil, or_false, Request.delete.injEq, reduceCtorEq,
    false_or] at hmem
  rcases hmem with ⟨-, rfl⟩ | ⟨-, rfl⟩ <;> rfl

end RepoWiki.Wiki.Cache
