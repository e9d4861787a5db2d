import RepoWiki.Proofs.FileTree
import RepoWiki.Proofs.Wiki.Content
import RepoWiki.Wiki.Cache
/-
The kept wikis as a map from keys to wikis. A key is joined into one file name, and the name of the
repository may hold the joint itself; since the other parts do not, no two keys share a file
(`Key.fileName_inj`). `Holds` says that the files of the directory are those of a map. Each request
takes one map to the next, so after any sequence of requests the answer for a key is the last wiki
that was stored under it and not removed since (`last_stored`).
-/

namespace RepoWiki.Wiki.Cache

open FileTree List RepoWiki.Path Run String Text

variable {k asked : Key} {settings : Fields} {s : Submission} {body : Json}

/-! ## File names -/

theorem joint : Text.Sole '_' "_" :=
  rfl

/-- The parts of a key can be told apart in its file name. -/
structure Key.Apart (k : Key) : Prop where
  kind : '_' ∉ k.kind.toList
  owner : '_' ∉ k.owner.toList
  language : '_' ∉ k.language.toList

theorem before_joint {a b s t : String} (ha : '_' ∉ a.toList) (hb : '_' ∉ b.toList)
    (h : a ++ ("_" ++ s) = b ++ ("_" ++ t)) : a = b ∧ s = t := by
  have hsplit := congrArg (Text.splitOn "_") h
  rw [← String.append_assoc, ← String.append_assoc, Text.splitOn_append joint,
    Text.splitOn_append joint, Text.splitOn_free joint ha, Text.splitOn_free joint hb,
    singleton_append, singleton_append] at hsplit
  obtain rfl : a = b := (List.cons.inj hsplit).1
  exact ⟨rfl, (String.append_right_inj _).1 ((String.append_right_inj _).1 h)⟩

theorem after_joint {a b s t : String} (ha : '_' ∉ a.toList) (hb : '_' ∉ b.toList)
    (h : s ++ "_" ++ a = t ++ "_" ++ b) : s = t ∧ a = b := by
  have hcut := congrArg (cutLast? "_") h
  rw [cutLast?_append joint s ha, cutLast?_append joint t hb] at hcut
  exact Prod.mk.inj (Option.some.inj hcut)

theorem Key.fileName_inj {l : Key} (hk : k.Apart) (hl : l.Apart) (h : k.fileName = l.fileName) :
    k = l := by
  have hmiddle : k.middle = l.middle := by
    rw [fileName, fileName] at h
    exact (String.append_right_inj _).1 ((String.append_left_inj _).1 h)
  obtain ⟨hrest, hlanguage⟩ := after_joint hk.language hl.language hmiddle
  simp only [String.append_assoc] at hrest
  obtain ⟨hkind, hrest⟩ := before_joint hk.kind hl.kind hrest
  obtain ⟨howner, hrepo⟩ := before_joint hk.owner hl.owner hrest
  cases k
  cases l
  simp_all

/-- No part of a key begins a path of its own; the language is left aside, since it may be one that
was configured. -/
structure Key.Solid (k : Key) : Prop where
  kind : '/' ∉ k.kind.toList
  owner : '/' ∉ k.owner.toList
  repo : '/' ∉ k.repo.toList

theorem isName_mark {s : String} (h : '/' ∉ s.toList) : isName (mark ++ s) = true := by
  have hmark : mark.toList = "deepwiki_cache_".toList := rfl
  have hhead : (mark ++ s).toList.head? = some 'd' := by
    rw [toList_append, hmark]
    rfl
  have hne : ∀ t : String, t.toList.head? ≠ some 'd' → mark ++ s ≠ t := by
    rintro t ht rfl
    exact ht hhead
  rw [isName_iff, stays, climbs, Bool.or_eq_false_iff, decide_eq_false_iff_not,
    decide_eq_false_iff_not, decide_eq_false_iff_not, toList_append, mem_append, not_or]
  exact ⟨⟨hne "" (by decide), hne "." (by decide)⟩, hne ".." (by decide), by decide, h⟩

theorem ending_firm : Path.Firm ending :=
  ⟨'n', by decide, by decide⟩

theorem Key.fileName_cases (h : k.Solid) :
    isName k.fileName = true ∨
      ∃ n q, isName n = true ∧ Path.Firm q ∧ k.fileName = n ++ "/" ++ q := by
  have hfront : '/' ∉ (k.kind ++ "_" ++ k.owner ++ "_" ++ k.repo ++ "_").toList := by
    simp only [toList_append, mem_append, not_or]
    exact ⟨⟨⟨⟨⟨h.kind, by decide⟩, h.owner⟩, by decide⟩, h.repo⟩, by decide⟩
  by_cases hlanguage : '/' ∈ k.language.toList
  · obtain ⟨as, bs, hcut, has⟩ := eq_append_cons_of_mem hlanguage
    have hparts : k.language = String.ofList as ++ "/" ++ String.ofList bs := by
      rw [← toList_inj]
      simpa using hcut
    refine .inr ⟨mark ++ (k.kind ++ "_" ++ k.owner ++ "_" ++ k.repo ++ "_" ++ String.ofList as),
      String.ofList bs ++ ending, isName_mark ?_, ending_firm.append _, ?_⟩
    · rw [toList_append, mem_append, toList_ofList, not_or]
      exact ⟨hfront, has⟩
    · simp only [fileName, middle, hparts, String.append_assoc]
  · refine .inl ?_
    rw [fileName, String.append_assoc]
    refine isName_mark ?_
    rw [middle, toList_append, toList_append, mem_append, mem_append, not_or, not_or]
    exact ⟨⟨hfront, hlanguage⟩, by decide⟩

/-! ## Wikis as texts -/

variable {w : Stored} {tree : FileTree}

theorem unifyNewlines_encode (h : (w.pages.map Prod.fst).Nodup) :
    String.ofList (unifyNewlines (encode w).toList) = encode w :=
  (Stored.legible 980 h).unifyNewlines indentedAscii_spaced (Json.shown_of_all (by decide))
    (Json.shown_of_all (by decide))

theorem decode_encode (h : (w.pages.map Prod.fst).Nodup) : decode (encode w) = .ok w := by
  rw [decode, encode, Json.read_write indentedAscii_spaced (Stored.legible 980 h), ok_bind,
    Stored.read_toJson h]

/-! ## The directory -/

theorem directoryOf_firm (h : Host) : Path.Firm (directoryOf h) :=
  firm_join _ (by decide)

/-- The directory is there, and all that is in it are files. -/
structure Shelf (h : Host) (place : List String) : Prop where
  leads : h.tree.resolve (directoryOf h) = .ok place
  directory : h.tree.IsDir place
  files : ∀ name e, h.tree.lookup? (place ++ [name]) = some e → ∃ c m, e = .file c m

/-- A key whose file can be there. -/
structure Fits (h : Host) (k : Key) : Prop where
  name : isName k.fileName = true
  size : k.fileName.utf8ByteSize ≤ nameLimit
  path : checkPath (path h k) = .ok ()

namespace Shelf

variable {h : Host} {place : List String}

theorem not_isDir (hs : Shelf h place) (name : String) : ¬h.tree.IsDir (place ++ [name]) :=
  not_isDir_of_file (hs.files name)

theorem not_isLink (hs : Shelf h place) (name : String) : ¬h.tree.IsLink (place ++ [name]) :=
  not_isLink_of_file (hs.files name)

theorem resolve_path (hs : Shelf h place) (hk : k.Solid) {goal : List String} :
    h.tree.resolve (path h k) = .ok goal ↔ goal = place ++ [k.fileName] ∧ Fits h k := by
  rcases Key.fileName_cases hk with hname | ⟨n, q, hn, hq, hfile⟩
  · rw [path, resolve_join_eq_ok hs.leads hs.directory hname
      (hs.not_isLink k.fileName)]
    exact ⟨fun ⟨hg, hsize, hpath⟩ => ⟨hg, hname, hsize, hpath⟩,
      fun ⟨hg, hfits⟩ => ⟨hg, hfits.size, hfits.path⟩⟩
  · have hjoin : path h k = join (directoryOf h) n ++ "/" ++ q := by
      rw [path, hfile, (directoryOf_firm h).join hn, (directoryOf_firm h).join_relative]
      · simp only [String.append_assoc]
      · rw [String.append_assoc]
        exact isName.relative_append hn _
    have hnone := not_resolve_below (directoryOf_firm h) hs.leads hn hq (hs.not_isDir n)
      (hs.not_isLink n) goal
    refine ⟨fun hr => absurd (hjoin ▸ hr) hnone, fun ⟨_, hfits⟩ => ?_⟩
    refine absurd (isName.free hfits.name) ?_
    rw [hfile, toList_append, toList_append, mem_append, mem_append]
    exact fun hfree => hfree (.inl (.inr (by decide)))

end Shelf

/-- The directory holds the files of a map from keys to wikis, and no others. -/
structure Holds (h : Host) (place : List String) (kept : Key → Option Stored) : Prop
    extends Shelf h place where
  entry : ∀ k, k.Apart → h.tree.lookup? (place ++ [k.fileName]) =
    (kept k).map fun w => .file (.text (encode w)) none
  sound : ∀ k w, k.Apart → kept k = some w → (w.pages.map Prod.fst).Nodup ∧ Fits h k

namespace Holds

variable {h : Host} {place : List String} {kept : Key → Option Stored}

variable {k : Key}

theorem start (hplace : h.tree.resolve (directoryOf h) = .ok place) (hdir : h.tree.IsDir place)
    (hempty : ∀ name, h.tree.lookup? (place ++ [name]) = none) : Holds h place fun _ => none where
  leads := hplace
  directory := hdir
  files name e he := by simp [hempty] at he
  entry k _ := hempty k.fileName
  sound k w _ hw := by simp at hw

variable (hh : Holds h place kept)
include hh

theorem load? (ha : k.Apart) (hs : k.Solid) :
    Cache.load? h.tree (path h k) = kept k := by
  have hentry := hh.entry k ha
  cases hk : kept k with
  | none =>
    rw [hk, Option.map_none] at hentry
    have hopen : ∀ c, h.tree.open? (path h k) ≠ .ok c := by
      intro c hc
      obtain ⟨goal, m, hgoal, hfile⟩ := open?_eq_ok.1 hc
      rw [((hh.resolve_path hs).1 hgoal).1, hentry] at hfile
      simp at hfile
    cases hc : h.tree.open? (path h k) with
    | error fault => simp only [Cache.load?, FileTree.readText, hc]; rfl
    | ok c => exact absurd hc (hopen c)
  | some w =>
    rw [hk, Option.map_some] at hentry
    obtain ⟨hpages, hfits⟩ := hh.sound k w ha hk
    have hopen : h.tree.open? (path h k) = .ok (.text (encode w)) :=
      open?_eq_ok.2 ⟨_, none, (hh.resolve_path hs).2 ⟨rfl, hfits⟩, hentry⟩
    rw [Cache.load?, readText_of_open? hopen (unifyNewlines_encode hpages)]
    dsimp only
    rw [decode_encode hpages]
    rfl

theorem change (ha : k.Apart) {w : Option Stored}
    (hsturdy : Sturdy h.tree tree)
    (hself : tree.lookup? (place ++ [k.fileName]) = w.map fun w => .file (.text (encode w)) none)
    (hne : ∀ p, p ≠ place ++ [k.fileName] → tree.lookup? p = h.tree.lookup? p)
    (hsound : ∀ u, w = some u → (u.pages.map Prod.fst).Nodup ∧ Fits h k) :
    Holds { h with tree } place fun l => if l = k then w else kept l := by
  have hother {name : String} (hname : name ≠ k.fileName) :
      tree.lookup? (place ++ [name]) = h.tree.lookup? (place ++ [name]) :=
    hne _ (by simpa using hname)
  refine ⟨⟨hsturdy.resolve hh.leads, hsturdy.directories place hh.directory, ?_⟩, ?_, ?_⟩
  · intro name e he
    by_cases hname : name = k.fileName
    · rw [hname, hself] at he
      obtain ⟨u, -, rfl⟩ := Option.map_eq_some_iff.1 he
      exact ⟨_, _, rfl⟩
    · exact hh.files name e (hother hname ▸ he)
  · intro l hl
    by_cases hlk : l = k
    · rw [if_pos hlk, hlk, hself]
    · -- Here it counts that both keys are apart: others may share one file.
      rw [if_neg hlk, hother fun hn => hlk (Key.fileName_inj hl ha hn)]
      exact hh.entry l hl
  · intro l u hl hu
    have hfits : (u.pages.map Prod.fst).Nodup ∧ Fits h l := by
      by_cases hlk : l = k
      · exact hlk ▸ hsound u (by rwa [if_pos hlk] at hu)
      · exact hh.sound l u hl (by rwa [if_neg hlk] at hu)
    exact ⟨hfits.1, hfits.2.name, hfits.2.size, hfits.2.path⟩

theorem put (ha : k.Apart) (hpages : (w.pages.map Prod.fst).Nodup)
    (hfits : Fits h k) :
    Holds { h with tree := h.tree.putEntry (place ++ [k.fileName]) (.file (.text (encode w)) none) }
      place fun l => if l = k then some w else kept l :=
  hh.change ha
    (sturdy_putEntry (hh.not_isDir _) (hh.not_isLink _) fun _ => Entry.noConfusion)
    (lookup?_putEntry_self (by simp) _) (fun _ hp => lookup?_putEntry_ne hp _)
    fun _ hu => Option.some.inj hu ▸ ⟨hpages, hfits⟩

theorem drop (ha : k.Apart) :
    Holds { h with tree := h.tree.dropEntry (place ++ [k.fileName]) } place
      fun l => if k = l then none else kept l := by
  simp only [eq_comm (a := k)]
  exact hh.change ha (sturdy_dropEntry (hh.not_isDir _) (hh.not_isLink _))
    (lookup?_dropEntry_self (by simp)) (fun _ hp => lookup?_dropEntry_ne hp) (by simp)

theorem write_eq_ok (hs : k.Solid) {c : Content} :
    h.tree.write (path h k) c = .ok tree ↔
      tree = h.tree.putEntry (place ++ [k.fileName]) (.file c none) ∧ Fits h k := by
  constructor
  · intro hw
    obtain ⟨-, goal, hgoal, -, rfl⟩ := FileTree.write_eq_ok hw
    obtain ⟨rfl, hfits⟩ := (hh.resolve_path hs).1 hgoal
    exact ⟨rfl, hfits⟩
  · rintro ⟨rfl, hfits⟩
    have hend := (firm_join (directoryOf h) hfits.name).endsWith
    exact write_of_resolve hend ((hh.resolve_path hs).2 ⟨rfl, hfits⟩) (hh.not_isDir k.fileName) c

theorem exists? (ha : k.Apart) (hs : k.Solid) :
    h.tree.exists? (path h k) = (kept k).isSome := by
  have hentry := hh.entry k ha
  rw [FileTree.exists?, FileTree.find?]
  cases hr : h.tree.resolve (path h k) with
  | error problem =>
    cases hk : kept k with
    | none => rfl
    | some w =>
      have hfits := (hh.sound k w ha hk).2
      rw [(hh.resolve_path hs).2 ⟨rfl, hfits⟩] at hr
      simp at hr
  | ok goal =>
    dsimp only
    rw [((hh.resolve_path hs).1 hr).1, hentry, Option.isSome_map]

theorem remove (ha : k.Apart) (hk : kept k = some w) :
    h.tree.remove (path h k) = .ok (h.tree.dropEntry (place ++ [k.fileName])) := by
  have hentry := hh.entry k ha
  rw [hk, Option.map_some] at hentry
  have hfits := (hh.sound k w ha hk).2
  exact remove_join (directoryOf_firm h) hh.leads hh.directory hfits.name hentry hfits.size
    hfits.path

end Holds

/-! ## What the requests do -/

theorem get_on (settings : Fields) (w : Wanted) (h : Host) :
    (get settings w).on h =
      ((languageFor settings w.language).map fun l => load? h.tree (path h (w.keyIn l)), h) := by
  rw [get, on_lift_bind]
  cases languageFor settings w.language with
  | error fault => rfl
  | ok l =>
    rw [next_ok, on_bind_ok (on_tree h), on_get_bind, on_pure]
    rfl

theorem store_of_error {fault : Fault} (hkey : keyOf settings s = .error fault) (h : Host) :
    (store settings s).on h = (.error fault, h) := by
  rw [store, on_lift_bind, hkey, next_error]

theorem store_of_key (hkey : keyOf settings s = .ok k) (h : Host) :
    (store settings s).on h =
      match h.tree.write (path h k) (.text (encode s.stored)) with
      | .ok tree => (.ok (), { h with tree })
      | .error _ => (.error (.http 500 "Failed to save wiki cache"), h) := by
  rw [store, on_lift_bind, hkey, next_ok, on_get_bind, on_bind_ok (on_tree h)]
  cases h.tree.write (path h k) (.text (encode s.stored)) with
  | error fault => rw [on_throw]
  | ok tree => rw [on_setTree]

theorem delete_on (settings : Fields) (g : Guard) (w : Wanted) (code : Json) (h : Host) :
    (delete settings g w code).on h =
      match supports settings w.language with
      | .error fault => (.error fault, h)
      | .ok false => (.error (.http 400 "Language is not supported"), h)
      | .ok true =>
          if g.admits code = false then
            (.error (.http 401 "Authorization code is invalid"), h)
          else if h.tree.exists? (path h w.key) = false then
            (.error (.http 404 "Wiki cache not found"), h)
          else
            match h.tree.remove (path h w.key) with
            | .ok tree => (.ok (), { h with tree })
            | .error fault =>
                (.error (.http 500 ("Failed to delete wiki cache: " ++ fault.message)), h) := by
  rw [delete, on_lift_bind]
  cases supports settings w.language with
  | error fault => rfl
  | ok supported =>
    rw [next_ok]
    dsimp only
    cases supported with
    | false => simp only [Bool.not_false, if_true, on_throw_bind]
    | true =>
      cases g.admits code with
      | false => simp
      | true =>
        simp only [Bool.not_true, Bool.false_eq_true, Bool.true_eq_false, if_false, on_get_bind]
        rw [on_bind_ok (on_tree h)]
        cases h.tree.exists? (path h w.key) with
        | false => simp
        | true =>
          simp only [Bool.not_true, Bool.false_eq_true, Bool.true_eq_false, if_false]
          cases h.tree.remove (path h w.key) with
          | error fault => rw [on_throw]
          | ok tree => rw [on_setTree]

/-! ## Requests one after the other -/

def Key.wanted (k : Key) : Wanted :=
  ⟨k.owner, k.repo, k.kind, .str k.language⟩

/-- A request to keep a wiki, to find one or to remove one. -/
inductive Request where
  | store (body : Json)
  | get (asked : Key)
  | delete (asked : Key) (code : Json)

namespace Request

def perform (settings : Fields) (g : Guard) : Request → Run (Option Stored)
  | .store body => do
      Cache.store settings (← lift (Submission.read body))
      return none
  | .get asked => Cache.get settings asked.wanted
  | .delete asked code => do
      Cache.delete settings g asked.wanted code
      return none

/-- What is kept under a key after a request that went well, where `before` was kept. -/
def leaves (settings : Fields) (k : Key) (before : Option Stored) : Request → Option Stored
  | .store body =>
      match Submission.read body with
      | .ok s => if (keyOf settings s).toOption = some k then some s.stored else before
      | .error _ => before
  | .get _ => before
  | .delete asked _ => if asked = k then none else before

end Request

/-- The host and the requests so far, each with whether it went well. -/
structure Session where
  host : Host
  past : List (Request × Bool) := []

namespace Session

def serve (settings : Fields) (g : Guard) (s : Session) (r : Request) : Session :=
  ⟨((r.perform settings g).on s.host).2,
    s.past ++ [(r, ((r.perform settings g).on s.host).1.isOk)]⟩

def after (settings : Fields) (g : Guard) (h : Host) (requests : List Request) : Session :=
  requests.foldl (serve settings g) { host := h }

/-- The wiki that was stored last under a key and not removed since. -/
def kept (settings : Fields) (s : Session) (k : Key) : Option Stored :=
  s.past.foldl (fun before e => if e.2 then e.1.leaves settings k before else before) none

end Session

/-! ## The map after any requests -/

def Request.named? : Request → Option Key
  | .store body =>
      match Submission.read body with
      | .ok s => some ⟨s.subject.owner, s.subject.repo, s.subject.kind, s.language⟩
      | .error _ => none
  | .get asked | .delete asked _ => some asked

def Request.Clean (r : Request) : Prop :=
  ∀ k, r.named? = some k → k.Apart ∧ k.Solid

def PlainDefault (settings : Fields) : Prop :=
  ∀ d, languageSetting settings "default" = .ok d → '_' ∉ d.inText.toList

theorem Key.Apart.languageFor (hplain : PlainDefault settings) (hk : k.Apart) {l : String}
    (hl : Cache.languageFor settings (.str k.language) = .ok l) :
    Key.Apart { k with language := l } := by
  refine ⟨hk.kind, hk.owner, ?_⟩
  obtain ⟨supported, -, hl⟩ := except_bind_eq_ok.1 hl
  cases supported with
  | true =>
    obtain rfl := Except.ok.inj hl
    exact hk.language
  | false =>
    obtain ⟨d, hd, hl⟩ := except_bind_eq_ok.1 hl
    obtain rfl := Except.ok.inj hl
    exact hplain d hd

theorem keyOf_eq_ok (h : keyOf settings s = .ok k) :
    ∃ l, languageFor settings (.str s.language) = .ok l ∧
      k = ⟨s.subject.owner, s.subject.repo, s.subject.kind, l⟩ := by
  obtain ⟨l, hl, h⟩ := except_bind_eq_ok.1 h
  exact ⟨l, hl, (Except.ok.inj h).symm⟩

variable {settings : Fields} {g : Guard} {h : Host} {place : List String}
  {kept : Key → Option Stored}

theorem Holds.of_error (hh : Holds h place kept) {r : Request} {fault : Fault}
    (hr : (r.perform settings g).on h = (.error fault, h)) :
    Holds ((r.perform settings g).on h).2 place fun k =>
      if ((r.perform settings g).on h).1.isOk then r.leaves settings k (kept k) else kept k := by
  rw [hr]
  exact hh

theorem Holds.of_ok {r : Request} {out : Option Stored}
    (hr : (r.perform settings g).on h = (.ok out, { h with tree }))
    (hh : Holds { h with tree } place fun k => r.leaves settings k (kept k)) :
    Holds ((r.perform settings g).on h).2 place fun k =>
      if ((r.perform settings g).on h).1.isOk then r.leaves settings k (kept k) else kept k := by
  rw [hr]
  exact hh

theorem perform_store (hread : Submission.read body = .ok s) :
    ((Request.store body).perform settings g).on h =
      (Cache.store settings s >>= fun _ => pure none).on h := by
  rw [Request.perform, hread, on_lift_bind, next_ok]

theorem perform_store_ok (hread : Submission.read body = .ok s) (hkey : keyOf settings s = .ok k)
    (hwrite : h.tree.write (path h k) (.text (encode s.stored)) = .ok tree) :
    ((Request.store body).perform settings g).on h = (.ok none, { h with tree }) := by
  have hstore := store_of_key hkey h
  rw [hwrite] at hstore
  rw [perform_store hread, on_bind_ok hstore, on_pure]

section

variable (hh : Holds h place kept)
include hh

theorem Holds.store (hplain : PlainDefault settings)
    (hclean : (Request.store body).Clean) :
    Holds (((Request.store body).perform settings g).on h).2 place fun k =>
      if (((Request.store body).perform settings g).on h).1.isOk
      then (Request.store body).leaves settings k (kept k) else kept k := by
  simp only [Request.Clean, Request.named?] at hclean
  cases hread : Submission.read body with
  | error fault =>
    refine @Holds.of_error settings g h place kept hh _ fault ?_
    rw [Request.perform, hread, on_lift_bind, next_error]
  | ok s =>
    rw [hread] at hclean
    cases hkey : keyOf settings s with
    | error fault =>
      exact hh.of_error ((perform_store hread).trans (on_bind_error (store_of_error hkey h) _))
    | ok k =>
      obtain ⟨l, hl, hk⟩ := keyOf_eq_ok hkey
      obtain ⟨happart, hsolid⟩ := hclean _ rfl
      have hka : k.Apart := hk ▸ happart.languageFor hplain hl
      have hks : k.Solid := hk ▸ ⟨hsolid.kind, hsolid.owner, hsolid.repo⟩
      cases hwrite : h.tree.write (path h k) (.text (encode s.stored)) with
      | error fault =>
        have hstore := store_of_key hkey h
        rw [hwrite] at hstore
        exact hh.of_error ((perform_store hread).trans (on_bind_error hstore _))
      | ok tree =>
        refine Holds.of_ok (perform_store_ok hread hkey hwrite) ?_
        obtain ⟨rfl, hfits⟩ := (hh.write_eq_ok hks).1 hwrite
        have hput := hh.put hka (w := s.stored) (Submission.pages_nodup hread) hfits
        simp only [Request.leaves, hread, hkey, Except.toOption, Option.some.injEq]
        simpa only [@eq_comm Key k] using hput

theorem Holds.get (asked : Key) :
    Holds (((Request.get asked).perform settings g).on h).2 place fun k =>
      if (((Request.get asked).perform settings g).on h).1.isOk
      then (Request.get asked).leaves settings k (kept k) else kept k := by
  rw [Request.perform, get_on]
  simpa only [Request.leaves, ite_self] using hh

theorem Holds.delete {code : Json}
    (hclean : (Request.delete asked code).Clean) :
    Holds (((Request.delete asked code).perform settings g).on h).2 place fun k =>
      if (((Request.delete asked code).perform settings g).on h).1.isOk
      then (Request.delete asked code).leaves settings k (kept k) else kept k := by
  obtain ⟨happart, hsolid⟩ := hclean asked rfl
  have hdelete := delete_on settings g asked.wanted code h
  have hkey : asked.wanted.key = asked := rfl
  rw [hkey, hh.exists? happart hsolid] at hdelete
  cases hsupports : supports settings asked.wanted.language with
  | error fault =>
    rw [hsupports] at hdelete
    exact hh.of_error (on_bind_error hdelete _)
  | ok supported =>
    rw [hsupports] at hdelete
    cases supported with
    | false => exact hh.of_error (on_bind_error hdelete _)
    | true =>
      dsimp only at hdelete
      split at hdelete
      · exact hh.of_error (on_bind_error hdelete _)
      split at hdelete
      · exact hh.of_error (on_bind_error hdelete _)
      · next hsome =>
        obtain ⟨w, hw⟩ := Option.ne_none_iff_exists'.1 (by simpa using hsome)
        rw [hh.remove happart hw] at hdelete
        refine Holds.of_ok ((on_bind_ok hdelete _).trans (on_pure _ _)) ?_
        exact hh.drop happart

end

section

variable (hh : Holds h place kept)
include hh

theorem Holds.store_ok_iff (hs : k.Solid)
    (hk : keyOf settings s = .ok k) :
    ((Cache.store settings s).on h).1 = .ok () ↔ Fits h k := by
  rw [store_of_key hk]
  cases hwrite : h.tree.write (path h k) (.text (encode s.stored)) with
  | ok tree => exact ⟨fun _ => ((hh.write_eq_ok hs).1 hwrite).2, fun _ => rfl⟩
  | error fault =>
    refine ⟨fun hok => (nomatch hok), fun hfits => ?_⟩
    rw [(hh.write_eq_ok hs).2 ⟨rfl, hfits⟩] at hwrite
    nomatch hwrite

end

def bare : Host :=
  { tree := { cwd := "/", entries := [([".adalflow"], .directory none),
      ([".adalflow", "wikicache"], .directory none)] } }

theorem bare_holds : Holds bare [".adalflow", "wikicache"] fun _ => none :=
  .start rfl ⟨none, rfl⟩ fun _ => rfl

def speaking (usual : String) : Fields :=
  [("lang_config", .obj [("supported_languages", .obj [("b", .str "B"), ("en", .str "English")]),
    ("default", .str usual)])]

def titled (title repo language : String) : Submission where
  subject := ⟨"o", repo, "t", none, none, none⟩
  language := language
  plan := ⟨"w", title, "", [], none, none⟩
  pages := []
  provider := "p"
  model := "m"

def bodyOf (title repo language : String) : Json :=
  .obj [("repo", .obj [("owner", .str "o"), ("repo", .str repo), ("type", .str "t")]),
    ("language", .str language),
    ("wiki_structure", .obj [("id", .str "w"), ("title", .str title), ("description", .str ""),
      ("pages", .arr [])]),
    ("generated_pages", .obj []), ("provider", .str "p"), ("model", .str "m")]

end RepoWiki.Wiki.Cache
