import RepoWiki.Proofs.Glob
import RepoWiki.Proofs.Index.Visits
/-
Where the documents of a repository come from. A repository that is somewhere else is kept under
its storage name, and two addresses share a copy and an index exactly if they share that name. The
invariant of the data root (`Kept`) is that what lies below the directory of a name was delivered
for that name, and that its index holds pieces of the texts of such files. It holds after any
sequence of calls, so a call never gets a document that was copied or indexed under another name.
-/

namespace RepoWiki

open Glob Index.Database List RepoWiki.Path Text

namespace Repository

/-! ## Storage names -/

theorem storageName_free (address : String) (hosting : Hosting) :
    '/' ∉ (storageName address hosting).toList := by
  generalize hparts :
    (splitOn "/" (trimEndBy (· == '/') address)).reverse = parts
  have hfree : ∀ p ∈ parts, '/' ∉ p.toList := fun p hp =>
    not_mem_of_mem_splitOn stroke (mem_reverse.1 (hparts ▸ hp))
  have hname : '/' ∉ (replaceAll cloneEnding "" (parts.head?.getD "")).toList := by
    intro hmem
    rcases mem_of_mem_replaceAll hmem with h | h
    · simp at h
    · cases hhead : parts.head? with
      | none => simp [hhead] at h
      | some p =>
        rw [hhead] at h
        exact hfree p (mem_of_mem_head? hhead) h
  simp only [storageName, hparts]
  split
  · next owner _ _ _ _ =>
    split
    · exact hname
    · simp only [String.toList_append, mem_append, not_or]
      exact ⟨⟨hfree owner (by simp), by decide⟩, hname⟩
  · exact hname

end Repository

namespace Index

open FileTree Repository

variable {home : String}

/-! ## Places by name -/

def copyPath (home name : String) : String :=
  Path.join (Path.join (rootOf home) "repos") name

def indexPath (home name : String) : String :=
  Path.join (Path.join (rootOf home) "databases") (name ++ ".pkl")

theorem copyPath_extend (home name : String) :
    copyPath home name = extend (rootOf home) ["repos", name] := by
  rw [extend_cons, extend_cons, extend_nil, copyPath]

theorem indexPath_extend (home name : String) :
    indexPath home name = extend (rootOf home) ["databases", name ++ ".pkl"] := by
  rw [extend_cons, extend_cons, extend_nil, indexPath]

theorem pathsOf_remote {address : String} (h : isRemote address = true) (home : String)
    (hosting : Hosting) :
    pathsOf (rootOf home) address hosting =
      ⟨copyPath home (storageName address hosting),
        indexPath home (storageName address hosting)⟩ := by
  simp [Database.pathsOf, place, h, copyPath, indexPath]

theorem Visit.paths_of_remote {v : Visit} (hv : isRemote v.address = true)
    (home : String) :
    v.paths home = ⟨copyPath home v.name, indexPath home v.name⟩ :=
  pathsOf_remote hv home v.hosting

theorem relative_of_free {s : String} (h : '/' ∉ s.toList) : isAbsolute s = false := by
  rw [Bool.eq_false_iff, isAbsolute, Ne, startsWith_sole stroke]
  exact fun hs => h (mem_of_mem_head? hs)

theorem copyPath_eq {name : String} (h : '/' ∉ name.toList) :
    copyPath home name = join (rootOf home) "repos" ++ "/" ++ name :=
  (firm_join _ (by decide)).join_relative (relative_of_free h)

theorem indexPath_eq {name : String} (h : '/' ∉ name.toList) :
    indexPath home name = join (rootOf home) "databases" ++ "/" ++ (name ++ ".pkl") := by
  have hfree : '/' ∉ (name ++ ".pkl").toList := by
    rw [String.toList_append, mem_append, not_or]
    exact ⟨h, by decide⟩
  exact (firm_join _ (by decide)).join_relative (relative_of_free hfree)

theorem copyPath_inj {m n : String} (hm : '/' ∉ m.toList) (hn : '/' ∉ n.toList) :
    copyPath home m = copyPath home n ↔ m = n := by
  rw [copyPath_eq hm, copyPath_eq hn, String.append_right_inj]

theorem indexPath_inj {m n : String} (hm : '/' ∉ m.toList) (hn : '/' ∉ n.toList) :
    indexPath home m = indexPath home n ↔ m = n := by
  rw [indexPath_eq hm, indexPath_eq hn, String.append_right_inj, String.append_left_inj]

/-! ## The data root -/

def Brought (past : List (Visit × FileTree)) (name : String) (c : Content) : Prop :=
  ∃ s ∈ past, s.1.name = name ∧ ∃ f ∈ s.1.arriving, f.item.entry = .file c none

/-- A piece, by the splitter of a call so far for a name, of a text that was brought for it. -/
def BroughtPiece (past : List (Visit × FileTree)) (name text : String) : Prop :=
  ∃ c whole, Brought past name c ∧ c.readText = .ok whole ∧
    ∃ s ∈ past, s.1.name = name ∧ s.1.Splits whole text

/-- What holds of the files while calls are made: the data root leads to one place, below it are
only directories and files with proper names, each copy was brought for its name, and each index
holds pieces of the texts of its copy. -/
structure Kept (home : String) (base : List String) (past : List (Visit × FileTree))
    (tree : FileTree) : Prop where
  root : tree.resolve (rootOf home) = .ok base
  named : ∀ way e, way ≠ [] → tree.lookup? (base ++ way) = some e → way.all Path.isName = true
  plain : ∀ way, way ≠ [] → ¬tree.IsLink (base ++ way)
  copies : ∀ name way c m, tree.lookup? (base ++ "repos" :: name :: way) = some (.file c m) →
    Brought past name c
  indexes : ∀ name items m documents, isPattern (copyPath home name) = false →
    tree.lookup? (base ++ ["databases", name ++ ".pkl"]) = some (.file (.value (.arr items)) m) →
    items.mapM Document.unpack? = some documents → ∀ d ∈ documents, BroughtPiece past name d.text

namespace Kept

variable {home : String} {base : List String} {past : List (Visit × FileTree)}
  {tree after : FileTree}

variable {place : List String} {name : String}

section

variable (h : Kept home base past tree)
include h

theorem weaken (s : Visit × FileTree) :
    Kept home base (past ++ [s]) tree := by
  have hbrought : ∀ {name c}, Brought past name c → Brought (past ++ [s]) name c :=
    fun ⟨u, hu, hrest⟩ => ⟨u, mem_append_left [s] hu, hrest⟩
  refine { h with
    copies := fun name way c m hfile => hbrought (h.copies name way c m hfile)
    indexes := fun name items m documents hpattern hfile hitems d hd => ?_ }
  obtain ⟨c, whole, hc, hwhole, u, hu, hsplits⟩ :=
    h.indexes name items m documents hpattern hfile hitems d hd
  exact ⟨c, whole, hbrought hc, hwhole, u, mem_append_left [s] hu, hsplits⟩

theorem putFile {names : List String} {c : Content} (hne : names ≠ [])
    (hnames : names.all isName = true)
    (hdir : ¬tree.IsDir (base ++ names))
    (hcopy : ∀ name way, names = "repos" :: name :: way → Brought past name c)
    (hindex : ∀ name items documents, names = ["databases", name ++ ".pkl"] →
      isPattern (copyPath home name) = false → c = .value (.arr items) →
      items.mapM Document.unpack? = some documents →
        ∀ d ∈ documents, BroughtPiece past name d.text) :
    Kept home base past (tree.putEntry (base ++ names) (.file c none)) := by
  -- Every field of `Kept` speaks of ways below the root, of which only this one is changed.
  have hput : ∀ way, (tree.putEntry (base ++ names) (.file c none)).lookup? (base ++ way) =
      if way = names then some (.file c none) else tree.lookup? (base ++ way) := by
    intro way
    split
    · next hway => rw [hway, lookup?_putEntry_self (ne_nil_of_not_isDir hdir)]
    · next hway => rw [lookup?_putEntry_ne (fun heq => hway (append_cancel_left heq))]
  constructor
  · exact (sturdy_putEntry hdir (h.plain names hne) (by simp)).resolve h.root
  · intro way e hway hentry
    rw [hput] at hentry
    split at hentry
    · next heq => exact heq ▸ hnames
    · exact h.named way e hway hentry
  · rintro way hway ⟨t, ht⟩
    rw [hput] at ht
    split at ht
    · simp at ht
    · exact h.plain way hway ⟨t, ht⟩
  · intro name way d m hentry
    rw [hput] at hentry
    split at hentry
    · next heq =>
      obtain ⟨rfl, -⟩ : c = d ∧ none = m := by simpa using hentry
      exact hcopy name way heq.symm
    · exact h.copies name way d m hentry
  · intro name items m documents hpattern hentry hitems
    rw [hput] at hentry
    split at hentry
    · next heq =>
      obtain ⟨hc, -⟩ : c = .value (.arr items) ∧ none = m := by simpa using hentry
      exact hindex name items documents heq.symm hpattern hc hitems
    · exact h.indexes name items m documents hpattern hentry hitems

theorem grown (hg : Grown tree after) :
    Kept home base past after := by
  refine ⟨hg.sturdy.resolve h.root, ?_, fun way hway => mt hg.sturdy.isLink.1 (h.plain way hway),
    fun name way c m hfile => h.copies name way c m (hg.file.1 hfile),
    fun name items m documents hpattern hfile => h.indexes name items m documents hpattern
      (hg.file.1 hfile)⟩
  -- Each new directory has a proper name and stands in a directory that has one.
  induction hg with
  | same => exact h.named
  | @more t above name hgrown directory named missing ih =>
    intro way e hway hentry
    by_cases heq : base ++ way = above ++ [name]
    · obtain ⟨front, last, rfl⟩ := (eq_nil_or_concat way).resolve_left hway
      rw [concat_eq_append, ← append_assoc] at heq
      obtain ⟨rfl, hlast⟩ := append_inj' heq rfl
      obtain rfl : last = name := by simpa using hlast
      obtain ⟨m, hm⟩ := directory
      by_cases hfront : front = []
      · simpa [hfront] using named
      · simpa [ih front _ hfront hm] using named
    · rw [lookup?_putEntry_ne heq] at hentry
      exact ih way e hway hentry

theorem resolve_names {names : List String}
    (hnames : names.all isName = true)
    (hplace : tree.resolve (extend (rootOf home) names) = .ok place) : place = base ++ names :=
  resolve_extend (rootOf_firm home) h.root hnames (fun way hway _ => h.plain way hway) hplace

theorem delivered {s : Visit × FileTree} (hs : s ∈ past)
    (hname : isName s.1.name = true) {f : WorkFile} (hf : f ∈ s.1.arriving)
    (hplain : ∀ target, f.item ≠ .link target) :
    Kept home base past (deliver (copyPath home s.1.name) tree f) := by
  obtain ⟨c, hentry⟩ : ∃ c, f.item.entry = .file c none := by
    cases hitem : f.item with
    | octets bytes => exact ⟨_, rfl⟩
    | link target => exact absurd hitem (hplain target)
  rw [Repository.deliver, hentry]
  rcases plant_file tree (join (copyPath home s.1.name) (join "/" f.way)) c with
    hsame | ⟨hend, grown, place, hgrown, hplace, hdir, hplanted⟩
  · rw [hsame]
    exact h
  rw [hplanted]
  have hfirst : ["repos", s.1.name].all isName = true := by
    simp [hname, show isName "repos" = true by decide]
  have hfirm : Path.Firm (copyPath home s.1.name) :=
    copyPath_extend home s.1.name ▸ (rootOf_firm home).firm_extend hfirst
  have hne : f.way ≠ [] := by
    intro hnil
    rw [hnil, show join "/" [] = "" from rfl, hfirm.join_relative (by decide),
      String.append_empty] at hend
    exact absurd ((endsWith_sole stroke _).2 (by simp)) (Bool.eq_false_iff.1 hend)
  rw [join_names _ hne f.named, copyPath_extend, ← extend_append] at hplace
  have hall : (["repos", s.1.name] ++ f.way).all isName = true := by
    rw [all_append, hfirst, f.named, Bool.and_self]
  obtain rfl := (h.grown hgrown).resolve_names hall hplace
  refine (h.grown hgrown).putFile (by simp) hall hdir ?_ ?_
  · rintro name way hnames
    obtain ⟨rfl, rfl⟩ : s.1.name = name ∧ f.way = way := by simpa using hnames
    exact ⟨s, hs, rfl, f, hf, hentry⟩
  · intro name items documents hnames
    simp at hnames

theorem supplied {s : Visit × FileTree} (hs : s ∈ past)
    (hname : isName s.1.name = true)
    (hplain : ∀ f ∈ s.1.arriving, ∀ target, f.item ≠ .link target)
    (hsupplied : Supplied (copyPath home s.1.name) s.1.arriving tree after) :
    Kept home base past after := by
  induction hsupplied with
  | same => exact h
  | grown _ growth ih => exact ih.grown growth
  | delivered _ arrives ih => exact ih.delivered hs hname arrives (hplain _ arrives)

end

/-! ### What a call sees and leaves -/

theorem resolve_copy (h : Kept home base past tree) {ns : List String}
    (hname : isName name = true) (hns : ns.all isName = true)
    (hplace : tree.resolve (extend (copyPath home name) ns) = .ok place) :
    place = base ++ "repos" :: name :: ns := by
  rw [copyPath_extend, ← extend_append] at hplace
  refine h.resolve_names ?_ hplace
  simp [hname, hns, show isName "repos" = true by decide]

theorem tidyBelow (h : Kept home base past tree) (hname : isName name = true) :
    Glob.TidyBelow tree (copyPath home name) := by
  intro ns place n hns hplace hn
  obtain rfl := h.resolve_copy hname hns hplace
  obtain ⟨e, he⟩ := exists_entry_of_mem_namesAt hn
  rw [append_assoc] at he
  have hall := h.named _ e (by simp) he
  simp only [cons_append, all_cons, all_append, Bool.and_eq_true] at hall
  simpa using hall.2.2.2

theorem copyPath_firm (home : String) (hname : isName name = true) :
    Path.Firm (copyPath home name) := by
  rw [copyPath_extend]
  exact (rootOf_firm home).firm_extend
    (by simp [hname, show isName "repos" = true by decide])

theorem readText_of_documentBy? {count : String → Nat} {root file ending : String} {code : Bool}
    {d : Document} (h : documentBy? count tree root code ending file = some d) :
    ∃ c, tree.open? file = .ok c ∧ c.readText = .ok d.text := by
  unfold documentBy? at h
  split at h
  · simp at h
  · next text hread =>
    obtain ⟨-, h⟩ := Option.ite_none_left_eq_some.1 h
    obtain rfl := Option.some.inj h
    obtain ⟨c, hc, hread⟩ := except_bind_eq_ok.1 hread
    refine ⟨c, hc, ?_⟩
    split at hread
    · next hs => rw [hs, ← except_pure_eq_ok.1 hread]
    · cases hread

theorem brought_of_document (h : Kept home base past tree) {count : String → Nat}
    {file ending : String} {code : Bool} {d : Document}
    (hname : isName name = true) (hpattern : isPattern (copyPath home name) = false)
    (hfile : file ∈ everything tree (copyPath home name))
    (hd : documentBy? count tree (copyPath home name) code ending file = some d) :
    ∃ c, Brought past name c ∧ c.readText = .ok d.text := by
  obtain ⟨ns, hns, rfl⟩ :=
    names_of_mem_everything (copyPath_firm home hname) (h.tidyBelow hname) hpattern hfile
  obtain ⟨c, hopen, htext⟩ := readText_of_documentBy? hd
  obtain ⟨place, m, hplace, hentry⟩ := open?_eq_ok.1 hopen
  obtain rfl := h.resolve_copy hname hns hplace
  exact ⟨c, h.copies name ns c m hentry, htext⟩

theorem isName_pkl (h : isName name = true) : isName (name ++ ".pkl") = true :=
  isName_append (c := 'l') (isName.free h) (by decide) (by decide) (by decide)

section

variable (h : Kept home base past tree)
include h

theorem resolve_index (hname : isName name = true)
    (hplace : tree.resolve (indexPath home name) = .ok place) :
    place = base ++ ["databases", name ++ ".pkl"] := by
  rw [indexPath_extend] at hplace
  refine h.resolve_names ?_ hplace
  simp [isName_pkl hname, show isName "databases" = true by decide]

theorem brought_of_stored {documents : List Document}
    (hname : isName name = true) (hpattern : isPattern (copyPath home name) = false)
    (hstored : stored? tree (indexPath home name) = some documents) :
    ∀ d ∈ documents, BroughtPiece past name d.text := by
  unfold stored? at hstored
  split at hstored
  · next items hopen =>
    obtain ⟨place, m, hplace, hentry⟩ := open?_eq_ok.1 hopen
    obtain rfl := h.resolve_index hname hplace
    exact h.indexes name items m documents hpattern hentry hstored
  · simp at hstored

/-- A call keeps the data root in order, and gets pieces of texts that were brought for its name. -/
theorem call {v : Visit}
    (hremote : isRemote v.address = true) (hname : isName v.name = true)
    (hplain : ∀ f ∈ v.arriving, ∀ target, f.item ≠ .link target) :
    Kept home base (past ++ [(v, tree)]) (v.call home tree).2 ∧
      (isPattern (copyPath home v.name) = false → ∀ documents,
        (v.call home tree).1 = .ok documents → ∀ d ∈ documents,
          BroughtPiece (past ++ [(v, tree)]) v.name d.text) := by
  have hpaths := v.paths_of_remote hremote home
  have hlast : (v, tree) ∈ past ++ [(v, tree)] := mem_append_right past mem_cons_self
  have hsight : Kept home base (past ++ [(v, tree)]) (v.sight home tree) := by
    have hsupplied := v.sight_supplied home tree
    simp only [hpaths] at hsupplied
    exact (h.weaken (v, tree)).supplied hlast hname hplain hsupplied
  have hends := v.ends home tree
  generalize v.call home tree = outcome at hends ⊢
  obtain ⟨r, after⟩ := outcome
  cases hends with
  | failed fault => exact ⟨hsight, fun _ _ hgives => by cases hgives⟩
  | @stored d rest found =>
    refine ⟨hsight, fun hpattern documents hgives => ?_⟩
    simp only [hpaths] at found
    rw [← Except.ok.inj hgives]
    exact hsight.brought_of_stored hname hpattern found
  | @made filter found made grown _ wished read embedded growth written =>
    simp only [hpaths] at read written
    have hbrought : isPattern (copyPath home v.name) = false → ∀ d ∈ made,
        BroughtPiece (past ++ [(v, tree)]) v.name d.text := by
      intro hpattern d hd
      obtain ⟨f, hf, hsplits, -⟩ := embedded d hd
      obtain ⟨file, hfile, -, code, ending, hdocument⟩ := exists_file_of_mem_documents read hf
      obtain ⟨c, hc, htext⟩ := hsight.brought_of_document hname hpattern hfile hdocument
      exact ⟨c, f.text, hc, htext, (v, tree), hlast, rfl, hsplits⟩
    refine ⟨?_, fun hpattern documents hgives => Except.ok.inj hgives ▸ hbrought hpattern⟩
    -- What is left is the root after writing, where the new index has the name of this call.
    obtain ⟨-, place, hplace, hdir, rfl⟩ := write_eq_ok written
    have hgrown := hsight.grown growth
    obtain rfl := hgrown.resolve_index hname hplace
    refine hgrown.putFile (by simp) ?_ hdir (fun name way hnames => by simp at hnames) ?_
    · simp [isName_pkl hname, show isName "databases" = true by decide]
    · intro name items documents hnames hpattern hvalue hitems
      obtain rfl : v.name = name := by simpa using hnames
      obtain rfl : made.map Document.pack = items := by simpa using hvalue
      rw [mapM_unpack_map_pack, Option.some.injEq] at hitems
      exact hitems ▸ hbrought hpattern

end

theorem start (hroot : tree.resolve (rootOf home) = .ok base)
    (hempty : ∀ way, way ≠ [] → tree.lookup? (base ++ way) = none) : Kept home base [] tree where
  root := hroot
  named way e hway he := by simp [hempty way hway] at he
  plain way hway := not_isLink_of_missing (hempty way hway)
  copies name way c m he := by simp [hempty ("repos" :: name :: way) (by simp)] at he
  indexes name items m documents _ he := by
    simp [hempty ["databases", name ++ ".pkl"] (by simp)] at he

end Kept

/-! ## Keeping repositories apart -/

/-- Repositories that are somewhere else are kept apart by their storage names and by nothing else.
Two addresses get the same directory, and the same index, exactly if they have the same name. From
an empty data root on, a call only gets pieces of the texts of files that were brought for its name,
as the splitter of a call for this name cut them; names that stand for no entry of their own, paths
that are patterns, and copies with links in them are left aside. -/
theorem apart_by_storage_name (home : String) :
    (∀ (h k h' k' : Host) (a b : String) (ha hb : Hosting) (s t : Json) (p q : Paths),
      h.home = home → k.home = home →
      isRemote a = true → isRemote b = true →
      (locate (.str a) ha s).on h = (.ok p, h') →
      (locate (.str b) hb t).on k = (.ok q, k') →
      (p.repository = q.repository ↔ storageName a ha = storageName b hb) ∧
        (p.database = q.database ↔ storageName a ha = storageName b hb)) ∧
    ∀ (base : List String) (tree : FileTree) (visits : List Visit),
      tree.resolve (rootOf home) = .ok base →
      (∀ way, way ≠ [] → tree.lookup? (base ++ way) = none) →
      (∀ v ∈ visits, isRemote v.address = true ∧ Path.isName v.name = true ∧
        ∀ f ∈ v.arriving, ∀ target, f.item ≠ .link target) →
      ∀ (i : Nat) (v : Visit) (t : FileTree) (documents : List Document),
        (trace home tree visits)[i]? = some (v, t) → (v.call home t).1 = .ok documents →
        isPattern (v.paths home).repository = false →
        ∀ d ∈ documents, ∃ text,
          (∃ j ≤ i, ∃ w s, (trace home tree visits)[j]? = some (w, s) ∧ w.name = v.name ∧
            ∃ f ∈ w.arriving, ∃ bytes, f.item = .octets bytes ∧
              (Content.octets bytes).readText = .ok text) ∧
          ∃ j ≤ i, ∃ w s, (trace home tree visits)[j]? = some (w, s) ∧ w.name = v.name ∧
            w.Splits text d.text := by
  constructor
  · intro h k h' k' a b ha hb s t p q hh hk hra hrb hp hq
    have hpaths : ∀ g : Host, g.dataRoot = rootOf g.home := fun _ => rfl
    rw [locate_paths hp, locate_paths hq, hpaths, hpaths, hh, hk,
      pathsOf_remote hra, pathsOf_remote hrb]
    dsimp only
    exact ⟨copyPath_inj (storageName_free a ha) (storageName_free b hb),
      indexPath_inj (storageName_free a ha) (storageName_free b hb)⟩
  · intro base tree visits hroot hempty hvisits i v t documents hi hgives hpattern d hd
    obtain ⟨hv, hkept⟩ := trace_invariant (Kept home base) []
      (fun past t v hv h => (h.call (hvisits v hv).1 (hvisits v hv).2.1 (hvisits v hv).2.2).1)
      (.start hroot hempty) hi
    obtain ⟨hremote, hname, hplain⟩ := hvisits v hv
    simp only [v.paths_of_remote hremote] at hpattern
    obtain ⟨c, text, ⟨⟨w, s⟩, hs, hbrought, f, hf, hentry⟩, htext, ⟨u, r⟩, hr, hmaker, hsplits⟩ :=
      (hkept.call hremote hname hplain).2 hpattern documents hgives d hd
    obtain ⟨j, hj, hjs⟩ := exists_le_of_mem_take hi hs
    obtain ⟨k, hk, hkr⟩ := exists_le_of_mem_take hi hr
    refine ⟨text, ⟨j, hj, w, s, hjs, hbrought, f, hf, ?_⟩, k, hk, u, r, hkr, hmaker, hsplits⟩
    cases hitem : f.item with
    | octets bytes =>
      rw [hitem, WorkItem.entry, Entry.file.injEq] at hentry
      exact ⟨bytes, rfl, hentry.1 ▸ htext⟩
    | link target =>
      rw [hitem] at hentry
      cases hentry

/-! ### Two repositories -/

theorem noFiles_root : noFiles.resolve (rootOf "") = .ok [".adalflow"] := by
  rfl

theorem exists_of_isSome {α : Type} {r : Result α} (h : r.toOption.isSome = true) :
    ∃ a, r = .ok a := by
  cases r with
  | error fault => simp [Except.toOption] at h
  | ok a => exact ⟨a, rfl⟩

/-- Repositories of different names have different places, and each gets its own document. -/
theorem apart_by_storage_name_two_names :
    ∃ (p q : Paths) (documents : List Document), p.repository ≠ q.repository ∧
      p.database ≠ q.database ∧
      ((locate (.str "http://h/o/q") .github .null).on
        ((smallVisit "http://h/o/q" 120 ".py").host "" noFiles)).1 = .ok p ∧
      ((locate (.str "http://h/o/r") .github .null).on
        ((smallVisit "http://h/o/r" 121 ".py").host "" noFiles)).1 = .ok q ∧
      documents.map Document.text = ["y"] ∧
      ∀ d ∈ documents, ∃ text, ∃ j ≤ 1, ∃ w s,
        (trace "" noFiles [smallVisit "http://h/o/q" 120 ".py",
          smallVisit "http://h/o/r" 121 ".py"])[j]? = some (w, s) ∧
        w.name = "o_r" ∧ ∃ f ∈ w.arriving, ∃ bytes, f.item = .octets bytes ∧
          (Content.octets bytes).readText = .ok text := by
  obtain ⟨p, hp⟩ : ∃ p, ((locate (.str "http://h/o/q") .github .null).on
      ((smallVisit "http://h/o/q" 120 ".py").host "" noFiles)).1 = .ok p :=
    exists_of_isSome (by decide +kernel)
  obtain ⟨q, hq⟩ : ∃ q, ((locate (.str "http://h/o/r") .github .null).on
      ((smallVisit "http://h/o/r" 121 ".py").host "" noFiles)).1 = .ok q :=
    exists_of_isSome (by decide +kernel)
  obtain ⟨documents, hgives, htexts⟩ : ∃ documents, ((smallVisit "http://h/o/r" 121 ".py").call ""
      ((smallVisit "http://h/o/q" 120 ".py").call "" noFiles).2).1 = .ok documents ∧
        documents.map Document.text = ["y"] :=
    exists_of_texts_eq (by decide +kernel)
  have hplaces := (apart_by_storage_name "").1 _ _ _ _ _ _ _ _ _ _ p q rfl rfl (by decide)
    (by decide) (Prod.ext hp rfl) (Prod.ext hq rfl)
  have hnames : storageName "http://h/o/q" .github ≠ storageName "http://h/o/r" .github := by
    decide
  refine ⟨p, q, documents, mt hplaces.1.1 hnames, mt hplaces.2.1 hnames, hp, hq, htexts, ?_⟩
  intro d hd
  have hplain : ∀ address octet, ∀ f ∈ (smallVisit address octet ".py").arriving,
      ∀ target, f.item ≠ .link target := by
    intro address octet f hf target
    rw [mem_singleton.1 hf]
    exact WorkItem.noConfusion
  obtain ⟨text, ⟨j, hj, w, s, hs, hname, hf⟩, -⟩ := (apart_by_storage_name "").2 [".adalflow"]
    noFiles [smallVisit "http://h/o/q" 120 ".py", smallVisit "http://h/o/r" 121 ".py"] noFiles_root
    (fun way _ => noFiles_lookup? (by simp))
    (forall_mem_cons.2 ⟨⟨by decide, by decide, hplain _ _⟩,
      forall_mem_cons.2 ⟨⟨by decide, by decide, hplain _ _⟩, by simp⟩⟩)
    1 _ _ documents rfl hgives (by decide +kernel) d hd
  exact ⟨text, j, hj, w, s, hs, hname.trans (by decide), hf⟩

/-- Repositories of the same owner and name on different hosts share their places, and the second
one gets the document of the first. -/
theorem same_name_on_other_host :
    (smallVisit "http://a/o/r" 120 ".py").paths "" =
      (smallVisit "http://b/o/r" 121 ".py").paths "" ∧
      texts ((smallVisit "http://b/o/r" 121 ".py").call ""
        ((smallVisit "http://a/o/r" 120 ".py").call "" noFiles).2).1 = some ["x"] ∧
      (smallVisit "http://b/o/r" 121 ".py").arriving.map WorkFile.item = [.octets [121]] := by
  have hname : (smallVisit "http://a/o/r" 120 ".py").name =
      (smallVisit "http://b/o/r" 121 ".py").name := by
    decide +kernel
  refine ⟨?_, by decide +kernel, rfl⟩
  rw [Visit.paths_of_remote (by decide), Visit.paths_of_remote (by decide), hname]

end Index
end RepoWiki
