import Mathlib.Data.Bool.AllAny
import Mathlib.Data.List.Flatten
import Mathlib.Data.List.ProdSigma
import RepoWiki.Proofs.Index.Relocation
import RepoWiki.Proofs.Search
import RepoWiki.Proofs.Utf8
/-
The documents of a repository are those of its files, each taken once.

The files are those that a search finds below the root. The endings of two kinds of files are never
both endings of one name (`kind_unique`), so no file is read twice. A path that is too long cannot
be opened, and the file at its end gives no document although the search finds it
(`nothing_after_detour`).
-/

namespace RepoWiki.Index

open FileTree Glob Index.Filter List RepoWiki.Path Text Text.Utf8
open String (length ofList utf8ByteSize_append)

variable {count : String → Nat} {tree : FileTree}

variable {α β : Type}

theorem exists_eq_map {f : α → β} {P : α → Prop} {ys : List β} (h : ∀ y ∈ ys, ∃ x, P x ∧ y = f x) :
    ∃ xs : List α, (∀ x ∈ xs, P x) ∧ ys = xs.map f := by
  induction ys with
  | nil => exact ⟨[], fun x hx => absurd hx not_mem_nil, rfl⟩
  | cons y ys ih =>
    obtain ⟨x, hx, rfl⟩ := h y mem_cons_self
    obtain ⟨xs, hxs, rfl⟩ := ih fun z hz => h z (mem_cons_of_mem _ hz)
    exact ⟨x :: xs, forall_mem_cons.2 ⟨hx, hxs⟩, rfl⟩

theorem forall₂_flatMap {κ : Type} {R : α → β → Prop} {ks : List κ} {f : κ → List α}
    {g : κ → List β} (h : ∀ k ∈ ks, List.Forall₂ R (f k) (g k)) :
    List.Forall₂ R (ks.flatMap f) (ks.flatMap g) := by
  induction ks with
  | nil => exact .nil
  | cons k ks ih =>
    rw [flatMap_cons, flatMap_cons]
    exact rel_append (h k mem_cons_self) (ih fun j hj => h j (mem_cons_of_mem k hj))

theorem forall₂_filterMap (f : α → Option β) (xs : List α) :
    List.Forall₂ (fun x y => f x = some y) (xs.filter fun x => (f x).isSome) (xs.filterMap f) := by
  induction xs with
  | nil => exact .nil
  | cons x xs ih =>
    cases hx : f x with
    | none =>
      rw [filterMap_cons_none hx, filter_cons_of_neg (by simp [hx])]
      exact ih
    | some y =>
      rw [filterMap_cons_some hx, filter_cons_of_pos (by simp [hx])]
      exact .cons hx ih

/-! ## Lists of names -/

/-- Lists of names that are asked for. -/
structure NameLists where
  excludedDirs : Option (List String) := none
  excludedFiles : Option (List String) := none
  includedDirs : Option (List String) := none
  includedFiles : Option (List String) := none

namespace NameLists

def toJson : Option (List String) → Json
  | none => .null
  | some names => .arr (names.map .str)

def wishes (w : NameLists) : Wishes :=
  ⟨toJson w.excludedDirs, toJson w.excludedFiles, toJson w.includedDirs, toJson w.includedFiles⟩

end NameLists

namespace Filter

def Named : Filter → Prop
  | .only directories endings =>
      ∃ ds es : List String, directories = ds.map .str ∧ endings = es.map .str
  | .without directories names =>
      ∃ ds ns : List String, directories = ds.map .str ∧ names = ns.map .str

theorem members_texts (names : List String) :
    members (.arr (names.map .str)) = .ok (names.map .str) := by
  rw [members, Json.elements, ok_bind]
  induction names with
  | nil => rfl
  | cons name names ih =>
    rw [map_cons, mapM_cons, ih]
    rfl

theorem asksFor_names (names : Option (List String)) :
    asksFor (NameLists.toJson names) = .ok (!(names.getD []).isEmpty) := by
  rcases names with _ | _ | ⟨name, names⟩ <;> rfl

theorem chosen_names (names : Option (List String)) :
    chosen (NameLists.toJson names) = .ok ((names.getD []).map .str) := by
  rcases names with _ | _ | ⟨name, names⟩
  · rfl
  · rfl
  · exact members_texts (name :: names)

theorem wished_names (names : Option (List String)) :
    wished (NameLists.toJson names) = .ok ((names.getD []).map .str) := by
  cases names with
  | none => rfl
  | some names => exact members_texts names

theorem ofWishes_names {settings : Fields} {dirs files : List String}
    (hdirs : configured settings "excluded_dirs" = .ok (dirs.map .str))
    (hfiles : configured settings "excluded_files" = .ok (files.map .str)) (w : NameLists) :
    ofWishes settings w.wishes =
      .ok (if w.includedDirs.getD [] = [] ∧ w.includedFiles.getD [] = [] then
        .without ((usualDirectories ++ dirs ++ w.excludedDirs.getD []).map .str)
          ((usualFiles ++ files ++ w.excludedFiles.getD []).map .str)
        else .only ((w.includedDirs.getD []).map .str) ((w.includedFiles.getD []).map .str)) := by
  have hwithout : withoutFor settings w.wishes =
      .ok (.without ((usualDirectories ++ dirs ++ w.excludedDirs.getD []).map .str)
        ((usualFiles ++ files ++ w.excludedFiles.getD []).map .str)) := by
    rw [withoutFor, NameLists.wishes, hdirs, ok_bind, hfiles, ok_bind, wished_names,
      ok_bind, wished_names, ok_bind, map_append, map_append,
      map_append, map_append]
    rfl
  have honly : onlyFor w.wishes =
      .ok (.only ((w.includedDirs.getD []).map .str) ((w.includedFiles.getD []).map .str)) := by
    rw [onlyFor, NameLists.wishes, chosen_names, ok_bind, chosen_names, ok_bind]
    rfl
  rw [ofWishes, including, hwithout, honly, NameLists.wishes, asksFor_names, ok_bind, asksFor_names]
  cases w.includedDirs.getD [] <;> cases w.includedFiles.getD [] <;> simp [ok_bind]

theorem ofWishes_named {settings : Fields} (w : NameLists)
    (hsettings : ∀ name ∈ ["excluded_dirs", "excluded_files"],
      ∃ names : List String, configured settings name = .ok (names.map .str)) :
    ∃ filter, ofWishes settings w.wishes = .ok filter ∧ filter.Named := by
  obtain ⟨dirs, hdirs⟩ := hsettings "excluded_dirs" (by simp)
  obtain ⟨files, hfiles⟩ := hsettings "excluded_files" (by simp)
  refine ⟨_, ofWishes_names hdirs hfiles w, ?_⟩
  split
  · exact ⟨_, _, rfl, rfl⟩
  · exact ⟨_, _, rfl, rfl⟩

theorem filterMap_asText? (names : List String) :
    (names.map Json.str).filterMap Json.asText? = names := by
  rw [filterMap_map]
  exact filterMap_some

theorem anyName_texts (fits : String → Bool) (other : Json → Result Bool) (names : List String) :
    anyName fits other (names.map .str) = .ok (names.any fits) := by
  have hnone : (names.map Json.str).find? (fun v => v.asText?.isNone) = none := by
    simp [Json.asText?]
  rw [anyName, filterMap_asText?, hnone]
  cases names.any fits <;> rfl

theorem Named.admits {filter : Filter} (h : filter.Named) (file : String) :
    ∃ b, filter.admits file = .ok b := by
  cases filter with
  | only directories endings =>
    obtain ⟨ds, es, rfl, rfl⟩ := h
    rw [Filter.admits, inside, anyName_texts, ok_bind, endsWithOne, anyName_texts]
    split
    · exact ⟨true, rfl⟩
    · exact ⟨_, rfl⟩
  | without directories names =>
    obtain ⟨ds, ns, rfl, rfl⟩ := h
    rw [Filter.admits, inside, anyName_texts, ok_bind]
    exact ⟨_, rfl⟩

end Filter

/-! ## Kinds of files -/

/-- A kind of files: whether they are code, and their ending. -/
structure Kind where
  code : Bool
  ending : String
  deriving DecidableEq

def kinds : List Kind :=
  codeEndings.map (⟨true, ·⟩) ++ textEndings.map (⟨false, ·⟩)

theorem nodup_kinds : kinds.Nodup := by
  decide

variable {k : Kind} {name : String} {d : Document}

theorem ending_of_mem_kinds (hk : k ∈ kinds) : k.ending ∈ codeEndings ++ textEndings := by
  have hall : ∀ k ∈ kinds, k.ending ∈ codeEndings ++ textEndings := by decide
  exact hall k hk

/-- A name has the ending of one kind at most: no ending is the end of another one. -/
theorem kind_unique {k' : Kind} (hk : k ∈ kinds) (hk' : k' ∈ kinds)
    (h : endsWith k.ending name = true) (h' : endsWith k'.ending name = true) : k = k' := by
  have hapart : ∀ k ∈ kinds, ∀ k' ∈ kinds, k.ending.toList <:+ k'.ending.toList → k = k' := by
    decide +kernel
  rw [endsWith, isSuffixOf_iff_suffix] at h h'
  rcases suffix_or_suffix_of_suffix h h' with hsuffix | hsuffix
  · exact hapart k hk k' hk' hsuffix
  · exact (hapart k' hk' k hk hsuffix).symm

namespace Kind

def limit (k : Kind) : Nat :=
  if k.code then 81920 else 8192

def documentOf? (k : Kind) (count : String → Nat) (tree : FileTree) (root : String)
    (accepts : String → Bool) (file : String) : Option Document :=
  if Text.endsWith k.ending file && accepts file then
    documentBy? count tree root k.code k.ending file
  else none

end Kind

theorem except_filterM_ok {ε : Type} {p : α → Except ε Bool} {b : α → Bool} {xs : List α}
    (h : ∀ x, p x = .ok (b x)) : xs.filterM p = .ok (xs.filter b) := by
  induction xs with
  | nil => rfl
  | cons x xs ih =>
    rw [except_filterM_cons, h x, ok_bind, ih, ok_bind, filter_cons]
    rfl

theorem documentsBy_eq {root : String} {filter : Filter} {accepts : String → Bool}
    (h : ∀ file, filter.admits file = .ok (accepts file)) :
    documentsBy count tree root filter =
      .ok (kinds.flatMap fun k =>
        (everything tree root).filterMap (k.documentOf? count tree root accepts)) := by
  have hof : ∀ code ending, documentsOfBy count tree root filter
      (everything tree root) code ending =
      .ok ((everything tree root).filterMap
        (Kind.documentOf? ⟨code, ending⟩ count tree root accepts)) := by
    intro code ending
    rw [documentsOfBy, except_filterM_ok h, ok_bind, filter_filter, filterMap_filter]
    refine congrArg Except.ok (filterMap_congr fun file _ => ?_)
    simp only [Kind.documentOf?, Bool.and_comm]
  have hmapM : ∀ (code : Bool) (endings : List String),
      endings.mapM (documentsOfBy count tree root filter (everything tree root) code) =
        .ok (endings.map fun ending => (everything tree root).filterMap
          (Kind.documentOf? ⟨code, ending⟩ count tree root accepts)) := by
    intro code endings
    induction endings with
    | nil => rfl
    | cons ending endings ih =>
      rw [mapM_cons, hof, ok_bind, ih]
      rfl
  rw [documentsBy, hmapM, ok_bind, hmapM, ok_bind]
  refine congrArg Except.ok ?_
  rw [kinds, flatMap_append, flatMap_map, flatMap_map, flatten_append, flatMap_def, flatMap_def]

/-! ## Files and their documents -/

theorem map_eq_ok {ε : Type} {x : Except ε α} {f : α → β} {b : β} :
    x.map f = .ok b ↔ ∃ a, x = .ok a ∧ b = f a := by
  cases x <;> simp [Except.map, eq_comm]

theorem content_readText_eq_ok {c : Content} {text : String} :
    c.readText = .ok text ↔
      ∃ cs, decode c.bytes = .ok cs ∧ text = ofList (unifyNewlines cs) := by
  have hmap : c.readText =
      (decode c.bytes).map fun cs => ofList (unifyNewlines cs) := by
    cases c with
    | text s =>
      rw [Content.bytes, decode_encode]
      rfl
    | octets bs => rfl
    | value v => rfl
  rw [hmap, map_eq_ok]

theorem readText_eq_ok {file text : String} :
    tree.readText file = .ok text ↔ ∃ c, tree.open? file = .ok c ∧ c.readText = .ok text := by
  rw [readText]
  cases tree.open? file with
  | error fault => simp [bind, Except.bind]
  | ok c =>
    rw [ok_bind]
    cases hc : c.readText with
    | error fault => simp [throw, throwThe, MonadExceptOf.throw, hc]
    | ok t => simp [pure, Except.pure, hc]

theorem documentBy?_eq_some {root ending file : String} {code : Bool} :
    documentBy? count tree root code ending file = some d ↔
      tree.readText file = .ok d.text ∧ count d.text ≤ Kind.limit ⟨code, ending⟩ ∧
        d = { text := d.text
              about := about code ending (relative tree.cwd file root) (count d.text) } := by
  rw [documentBy?]
  cases hread : tree.readText file with
  | error fault => simp
  | ok text =>
    dsimp only
    have hlimit : (if code then tokenLimit * 10 else tokenLimit) = Kind.limit ⟨code, ending⟩ := by
      cases code <;> rfl
    rw [hlimit]
    constructor
    · intro h
      split at h
      · cases h
      · next hcount =>
        obtain rfl := Option.some.inj h
        exact ⟨rfl, Nat.le_of_not_lt hcount, rfl⟩
    · rintro ⟨htext, hcount, hd⟩
      obtain rfl := Except.ok.inj htext
      rw [if_neg (Nat.not_lt_of_le hcount), ← hd]

theorem documentOf?_eq_none {root file : String} {accepts : String → Bool} (k : Kind)
    (h : ∀ c, tree.open? file ≠ .ok c) :
    k.documentOf? count tree root accepts file = none := by
  rw [Kind.documentOf?, ite_eq_right_iff]
  intro _
  refine Option.eq_none_iff_forall_not_mem.2 fun d hd => ?_
  obtain ⟨c, hopen, -⟩ := readText_eq_ok.1 (documentBy?_eq_some.1 hd).1
  exact h c hopen

/-- A file of a kind, along a way below the root of a repository, gives a document: it is visible,
its path can be opened, it is taken by the rule and holds a text that is not too long. The document
holds that text, with its line ends unified, and the way to the file. -/
structure Taken (count : String → Nat) (tree : FileTree) (root : String) (place : List String)
    (filter : Filter) (k : Kind) (way : List String) (d : Document) : Prop where
  above : ∀ front, front <+: way → front ≠ way → tree.IsDir (place ++ front)
  shown : ∀ name ∈ way, isShown name = true
  short : (∀ name ∈ way, name.utf8ByteSize ≤ nameLimit) ∧
    checkPath (Path.extend (trimmed root) way) = .ok ()
  ending : ∃ name, way.getLast? = some name ∧ Text.endsWith k.ending name = true
  accepted : filter.admits (Path.extend (trimmed root) way) = .ok true
  content : ∃ c m cs, tree.lookup? (place ++ way) = some (.file c m) ∧
    decode c.bytes = .ok cs ∧ d.text = ofList (Text.unifyNewlines cs)
  tokens : count d.text ≤ k.limit
  about : d = { text := d.text
                about := about k.code k.ending (Text.join "/" way) (count d.text) }

section

variable {count : String → Nat} {tree : FileTree} {root : String} {place : List String}
  {filter : Filter}

variable {way : List String}

theorem open?_extend {r : String} (hplain : Glob.Plain tree place) (hname : isName name = true)
    (hvisited : tree.Visited isShown r place way) {c : Content} :
    tree.open? (extend r (way ++ [name])) = .ok c ↔
      (∃ m, tree.lookup? (place ++ (way ++ [name])) = some (.file c m)) ∧
        name.utf8ByteSize ≤ nameLimit ∧ checkPath (extend r (way ++ [name])) = .ok () := by
  have hdir := hvisited.listed way (prefix_refl way)
  have hlink : ¬tree.IsLink (place ++ way ++ [name]) := by
    rw [append_assoc]
    exact hplain _ (by simp)
  obtain ⟨hresolve, hplace⟩ := directoryAt_eq_ok hdir
  simp only [open?_eq_ok, extend_concat, resolve_join_eq_ok hresolve hplace hname hlink,
    ← append_assoc]
  constructor
  · rintro ⟨_, m, ⟨rfl, hsize, hcheck⟩, hfile⟩
    exact ⟨⟨m, hfile⟩, hsize, hcheck⟩
  · rintro ⟨⟨m, hfile⟩, hsize, hcheck⟩
    exact ⟨_, m, ⟨rfl, hsize, hcheck⟩, hfile⟩

variable {accepts : String → Bool} (ht : tree.Orderly) (hroot : tree.directoryAt root = .ok place)
  (hplain : Glob.Plain tree place) (hadmits : ∀ file, filter.admits file = .ok (accepts file))
include ht hroot hplain hadmits

theorem documentOf?_extend (hk : k ∈ kinds) (hall : (way ++ [name]).all isName = true)
    (hvisited : tree.Visited isShown (trimmed root) place way) :
    k.documentOf? count tree root accepts (extend (trimmed root) (way ++ [name])) =
        some d ↔
      endsWith k.ending name = true ∧
        filter.admits (extend (trimmed root) (way ++ [name])) = .ok true ∧
        (∃ c m cs, tree.lookup? (place ++ (way ++ [name])) = some (.file c m) ∧
          decode c.bytes = .ok cs ∧ d.text = ofList (unifyNewlines cs)) ∧
        name.utf8ByteSize ≤ nameLimit ∧
        checkPath (extend (trimmed root) (way ++ [name])) = .ok () ∧
        count d.text ≤ k.limit ∧
        d = { text := d.text
              about := about k.code k.ending (join "/" (way ++ [name])) (count d.text) } := by
  have hne := ne_empty_of_directoryAt hroot
  have htrimmed := (trimmed_spec hne).1
  have hnames := hall
  rw [all_append, Bool.and_eq_true] at hnames
  have hname : isName name = true := by simpa using hnames.2
  have hending := endsWith_extend (ending_of_mem_kinds hk) htrimmed hnames.1 hname
  have hrelative := relative_trimmed ht.rooted hne (by simp) hall
  rw [Kind.documentOf?, hending, hadmits, Except.ok.injEq, Option.ite_none_right_eq_some,
    documentBy?_eq_some, hrelative, readText_eq_ok, Bool.and_eq_true]
  simp only [open?_extend hplain hname hvisited, content_readText_eq_ok]
  constructor
  · rintro ⟨⟨hends, haccepts⟩, ⟨c, ⟨⟨m, hfile⟩, hsize, hcheck⟩, cs, hcs, htext⟩, hcount, hd⟩
    exact ⟨hends, haccepts, ⟨c, m, cs, hfile, hcs, htext⟩, hsize, hcheck, hcount, hd⟩
  · rintro ⟨hends, haccepts, ⟨c, m, cs, hfile, hcs, htext⟩, hsize, hcheck, hcount, hd⟩
    exact ⟨⟨hends, haccepts⟩, ⟨c, ⟨⟨m, hfile⟩, hsize, hcheck⟩, cs, hcs, htext⟩, hcount, hd⟩

theorem taken_iff (hk : k ∈ kinds) :
    Taken count tree root place filter k way d ↔
      way.all isName = true ∧
        extend (trimmed root) way ∈ visible tree (trimmed root) ∧
        k.documentOf? count tree root accepts (extend (trimmed root) way) = some d := by
  have htop := directoryAt_trimmed hroot
  have hne := ne_empty_of_directoryAt htop
  constructor
  · intro h
    obtain ⟨last, hlast, hends⟩ := h.ending
    obtain ⟨front, rfl⟩ := getLast?_eq_some_iff.1 hlast
    obtain ⟨c, m, cs, hfile, hcs, htext⟩ := h.content
    have hall : (front ++ [last]).all isName = true := by
      have hplace := ht.isName_of_lookup? hfile
      rw [all_append, Bool.and_eq_true] at hplace
      exact hplace.2
    have hfront : front.all isName = true := by
      rw [all_append, Bool.and_eq_true] at hall
      exact hall.1
    have hvisited : tree.Visited isShown (trimmed root) place front := by
      refine (visited_iff htop hfront).2 ⟨fun name hname => ?_, fun part hpart => ?_, ?_⟩
      · exact ⟨h.shown name (mem_append_left _ hname),
          h.short.1 name (mem_append_left _ hname)⟩
      · refine h.above part (hpart.trans (prefix_append front [last])) ?_
        rintro rfl
        have hlength := hpart.length_le
        rw [length_append, length_singleton] at hlength
        omega
      · obtain ⟨s, hs, -⟩ := exists_join_eq (extend (trimmed root) front)
          (n := last) (by simpa using (all_eq_true.1 hall) last (by simp))
        have hcheck := h.short.2
        rw [extend_concat, hs] at hcheck
        exact checkPath_of_append (extend_ne_empty hne hfront) hcheck
    refine ⟨hall, (mem_visible ht hplain htop).2 ⟨front, last, hall, hvisited,
      h.shown last (by simp), ⟨c, m, hfile⟩, rfl⟩, ?_⟩
    exact (documentOf?_extend ht hroot hplain hadmits hk hall hvisited).2 ⟨hends, h.accepted,
      h.content, h.short.1 last (by simp), h.short.2, h.tokens, h.about⟩
  · rintro ⟨hall, hvisible, hd⟩
    obtain ⟨front, last, hall', hvisited, hshown, -, heq⟩ :=
      (mem_visible ht hplain htop).1 hvisible
    obtain rfl := extend_injective hne hall hall' heq
    obtain ⟨hends, haccepted, hcontent, hsize, hcheck, htokens, habout⟩ :=
      (documentOf?_extend ht hroot hplain hadmits hk hall hvisited).1 hd
    have hfront : front.all isName = true := by
      rw [all_append, Bool.and_eq_true] at hall
      exact hall.1
    obtain ⟨hnames, hdirs, -⟩ := (visited_iff htop hfront).1 hvisited
    refine ⟨fun part hpart hother => ?_, fun name hname => ?_, ⟨fun name hname => ?_, hcheck⟩,
      ⟨last, by simp, hends⟩, haccepted, hcontent, htokens, habout⟩
    · rcases prefix_concat_iff.1 hpart with rfl | hpart
      · exact absurd rfl hother
      · exact hdirs part hpart
    · rcases mem_append.1 hname with hname | hname
      · exact (hnames name hname).1
      · exact mem_singleton.1 hname ▸ hshown
    · rcases mem_append.1 hname with hname | hname
      · exact (hnames name hname).2
      · exact mem_singleton.1 hname ▸ hsize

omit hadmits in
theorem exists_ways :
    ∃ ways : List (List String), (∀ way ∈ ways, way.all isName = true) ∧
      visible tree (trimmed root) = ways.map (extend (trimmed root)) := by
  refine exists_eq_map fun file hfile => ?_
  obtain ⟨way, name, hall, -, -, -, rfl⟩ :=
    (mem_visible ht hplain (directoryAt_trimmed hroot)).1 hfile
  exact ⟨way ++ [name], hall, rfl⟩

theorem documentsBy_exact (count : String → Nat) (hpattern : isPattern root = false) :
    ∃ docs taken, documentsBy count tree root filter = .ok docs ∧
      List.Forall₂ (fun t d => Taken count tree root place filter t.1 t.2 d) taken docs ∧
      (∀ k way, (k, way) ∈ taken ↔
        k ∈ kinds ∧ ∃ d, Taken count tree root place filter k way d) ∧
      (taken.map (·.2)).Nodup ∧
      (taken.map fun t => (t.1, extend (trimmed root) t.2)).Sublist
        (kinds.product (visible tree (trimmed root))) := by
  obtain ⟨ways, hnames, hvisible⟩ := exists_ways ht hroot hplain
  have htop := directoryAt_trimmed hroot
  have hne := ne_empty_of_directoryAt htop
  have hways : ∀ way, way ∈ ways ↔ way.all isName = true ∧
      extend (trimmed root) way ∈ visible tree (trimmed root) := by
    intro way
    rw [hvisible, mem_map]
    constructor
    · exact fun h => ⟨hnames way h, way, h, rfl⟩
    · rintro ⟨hall, other, hother, heq⟩
      exact extend_injective hne (hnames other hother) hall heq ▸ hother
  let doc : Kind → List String → Option Document := fun k way =>
    k.documentOf? count tree root accepts (extend (trimmed root) way)
  have htaken : ∀ k ∈ kinds, ∀ way ∈ ways, ∀ d,
      doc k way = some d ↔ Taken count tree root place filter k way d := by
    intro k hk way hway d
    rw [taken_iff ht hroot hplain hadmits hk, ← and_assoc, ← hways way, and_iff_right hway]
  refine ⟨kinds.flatMap fun k => ways.filterMap (doc k),
    kinds.flatMap fun k => (ways.filter fun way => (doc k way).isSome).map fun way => (k, way),
    ?_, ?_, ?_, ?_, ?_⟩
  · rw [documentsBy_eq hadmits]
    refine congrArg Except.ok (flatMap_congr fun k _ => ?_)
    rw [filterMap_everything ht (fun p hp => documentOf?_eq_none k hp)
      (ne_empty_of_directoryAt hroot) hpattern hplain htop, hvisible, filterMap_map]
    rfl
  · refine forall₂_flatMap fun k hk => forall₂_map_left_iff.2 ?_
    have hmem : ∀ way ∈ ways.filter fun way => (doc k way).isSome, way ∈ ways := fun way h =>
      (mem_filter.1 h).1
    refine ((forall₂_and_left _ _).2 ⟨hmem, forall₂_filterMap (doc k) ways⟩).imp ?_
    rintro way d ⟨hway, hd⟩
    exact (htaken k hk way hway d).1 hd
  · intro k way
    simp only [mem_flatMap, mem_map, mem_filter, Prod.mk.injEq, Option.isSome_iff_exists]
    constructor
    · rintro ⟨j, hj, w, ⟨hw, d, hd⟩, rfl, rfl⟩
      exact ⟨hj, d, (htaken j hj w hw d).1 hd⟩
    · rintro ⟨hk, d, hd⟩
      have hway : way ∈ ways := by
        obtain ⟨hall, hmem, -⟩ := (taken_iff ht hroot hplain hadmits hk).1 hd
        exact (hways way).2 ⟨hall, hmem⟩
      exact ⟨k, hk, way, ⟨hway, d, (htaken k hk way hway d).2 hd⟩, rfl, rfl⟩
  · have hnodup : ways.Nodup :=
      Nodup.of_map _ (hvisible ▸ nodup_visible ht htop)
    simp only [map_flatMap, map_map, Function.comp_def, map_id']
    refine nodup_flatMap.2 ⟨fun k _ => hnodup.filter _, ?_⟩
    refine nodup_kinds.imp_of_mem fun {k k'} hk hk' hne way hway hway' => hne ?_
    -- A way of two kinds would end in a name with two endings.
    obtain ⟨hmem, hsome⟩ := mem_filter.1 hway
    obtain ⟨-, hsome'⟩ := mem_filter.1 hway'
    obtain ⟨d, hd⟩ := Option.isSome_iff_exists.1 hsome
    obtain ⟨d', hd'⟩ := Option.isSome_iff_exists.1 hsome'
    obtain ⟨name, hname, hends⟩ := ((htaken k hk way hmem d).1 hd).ending
    obtain ⟨name', hname', hends'⟩ := ((htaken k' hk' way hmem d').1 hd').ending
    obtain rfl := Option.some.inj (hname.symm.trans hname')
    exact kind_unique hk hk' hends hends'
  · simp only [map_flatMap, map_map, List.product, hvisible]
    refine List.Sublist.flatMap_right _ fun k _ => ?_
    exact filter_sublist.map _

end

/-- Reading a repository without links gives one document for each file that is taken, and no other.
The documents come in the order of the kinds, and of each kind in the order of the walk. -/
theorem read_exact {h : Host} {root : String} {place : List String} {settings : Fields}
    (count : String → Nat) (w : NameLists) (ht : h.tree.Orderly)
    (hroot : h.tree.directoryAt root = .ok place) (hpattern : isPattern root = false)
    (hplain : Glob.Plain h.tree place)
    (hsettings : ∀ name ∈ ["excluded_dirs", "excluded_files"],
      ∃ names : List String, configured settings name = .ok (names.map .str)) :
    ∃ filter docs taken, ofWishes settings w.wishes = .ok filter ∧
      (readBy count settings (.str root) w.wishes).on h = (.ok docs, h) ∧
      List.Forall₂ (fun t d => Taken count h.tree root place filter t.1 t.2 d) taken docs ∧
      (∀ k way, (k, way) ∈ taken ↔
        k ∈ kinds ∧ ∃ d, Taken count h.tree root place filter k way d) ∧
      (taken.map (·.2)).Nodup ∧
      (taken.map fun t => (t.1, Path.extend (trimmed root) t.2)).Sublist
        (kinds.product (visible h.tree (trimmed root))) := by
  obtain ⟨filter, hfilter, hnamed⟩ := ofWishes_named w hsettings
  choose accepts hadmits using hnamed.admits
  obtain ⟨docs, taken, hdocs, htaken⟩ :=
    documentsBy_exact ht hroot hplain hadmits count hpattern
  have hnul : root.toList.contains (Char.ofNat 0) = false := by
    have hcheck := (resolve_eq_ok.1 (directoryAt_eq_ok hroot).1).1
    simpa using (checkPath_eq_ok.1 hcheck).1
  refine ⟨filter, docs, taken, hfilter, ?_, htaken⟩
  rw [Database.readBy_on, hfilter, ok_bind, hnul, if_neg Bool.false_ne_true, hdocs]

/-! ### A small repository -/

def desk : Host where
  tree := {
    cwd := "/"
    entries := [(["r"], .directory none), (["r", ".d"], .directory none),
      (["r", ".d", "c.py"], .file (.text "c") none), (["r", "a.py"], .file (.text "x\r\ny") none),
      (["r", "b.md"], .file (.octets [255]) none), (["r", "s"], .directory none),
      (["r", "s", "b.py"], .file (.octets [98]) none)] }

theorem desk_orderly : desk.tree.Orderly :=
  ⟨by decide, by decide, by decide⟩

theorem desk_plain (place : List String) : Glob.Plain desk.tree place :=
  plain_of_entries (by simp [desk]) place

theorem desk_isDir : desk.tree.IsDir ["r"] :=
  ⟨none, rfl⟩

theorem texts_desk :
    texts ((readBy length [] (.str "./r/") ({} : NameLists).wishes).on desk).1 =
      some ["x\ny", "b"] := by
  decide +kernel

/-- Two code files are read; the hidden one and the octets that are no text are not. -/
theorem read_exact_desk :
    ∃ filter docs, ∃ taken : List (Kind × List String),
      ofWishes [] ({} : NameLists).wishes = .ok filter ∧
      (readBy length [] (.str "./r/") ({} : NameLists).wishes).on desk = (.ok docs, desk) ∧
      List.Forall₂ (fun t d => Taken length desk.tree "./r/"
        ["r"] filter t.1 t.2 d) taken docs ∧
      docs.map (·.text) = ["x\ny", "b"] := by
  have hroot : desk.tree.directoryAt "./r/" = .ok ["r"] := rfl
  have hsettings : ∀ name ∈ ["excluded_dirs", "excluded_files"],
      ∃ names : List String, configured [] name = .ok (names.map .str) :=
    fun name _ => ⟨[], rfl⟩
  obtain ⟨filter, docs, taken, hfilter, hrun, htaken, -⟩ :=
    read_exact length {} desk_orderly hroot (by decide) (desk_plain _) hsettings
  refine ⟨filter, docs, taken, hfilter, hrun, htaken, ?_⟩
  have htexts := texts_desk
  rw [hrun] at htexts
  exact Option.some.inj htexts

/-! ### A root that is nearly too long -/

/-- A way of so many steps that stay where they are, and one step into a directory. -/
def detour : Nat → String
  | 0 => "r"
  | n + 1 => "." ++ "/" ++ detour n

namespace detour

theorem relative (n : Nat) : isAbsolute (detour n) = false := by
  cases n with
  | zero => decide
  | succ n => rw [detour, String.append_assoc, isAbsolute_append (by decide)]; decide

theorem firm (n : Nat) : Path.Firm (detour n) := by
  induction n with
  | zero => exact isName.firm (by decide)
  | succ n ih => exact ih.append ("." ++ "/")

theorem size (n : Nat) : (detour n).utf8ByteSize = 2 * n + 1 := by
  induction n with
  | zero => rfl
  | succ n ih =>
    rw [detour, utf8ByteSize_append, utf8ByteSize_append, ih]
    show 1 + 1 + (2 * n + 1) = _
    omega

theorem letters (n : Nat) : ∀ c ∈ (detour n).toList, c = '.' ∨ c = '/' ∨ c = 'r' := by
  induction n with
  | zero => exact all_iff_forall_prop.1 (by decide)
  | succ n ih =>
    intro c hc
    rw [detour, String.toList_append, mem_append] at hc
    rcases hc with hc | hc
    · have hstep : ∀ c ∈ ("." ++ "/").toList, c = '.' ∨ c = '/' ∨ c = 'r' :=
        all_iff_forall_prop.1 (by decide)
      exact hstep c hc
    · exact ih c hc

theorem isPattern (n : Nat) : Glob.isPattern (detour n) = false := by
  rw [Glob.isPattern, any_eq_false]
  intro c hc
  rcases letters n c hc with rfl | rfl | rfl <;> decide

theorem components (n : Nat) : Path.components (detour n) = ["r"] := by
  induction n with
  | zero => decide
  | succ n ih =>
    rw [Path.components, relative, detour, splitOn_append Path.stroke, foldl_append]
    rwa [Path.components, relative] at ih

theorem resolve (hcwd : tree.cwd = "/") (hdir : tree.IsDir ["r"]) {n : Nat}
    (hn : 2 * n + 1 < pathLimit) : tree.resolve (detour n) = .ok ["r"] := by
  have hnamed : ∀ n, named (detour n) = List.replicate n "." ++ ["r"] := by
    intro n
    induction n with
    | zero => decide
    | succ n ih => rw [detour, named_append, ih]; rfl
  have hleads : ∀ n, tree.Leads linkLimit [] (List.replicate n "." ++ ["r"]) ["r"] := by
    intro n
    induction n with
    | zero =>
      exact .last linkLimit ⟨isDir_nil tree, by decide, by decide, by decide⟩
        (not_isLink_of_isDir hdir)
    | succ n ih => exact .stay (isDir_nil tree) (by decide) ih
  refine resolve_eq_ok.2 ⟨checkPath_eq_ok.2 ⟨fun hnul => ?_, (firm n).ne_empty, ?_⟩, ?_⟩
  · rcases letters n _ hnul with h | h | h <;> exact absurd h (by decide)
  · rwa [size]
  · rw [(firm n).steps, hnamed, origin, relative, hcwd]
    exact hleads n

theorem size_below (n : Nat) {way : List String} (hway : way.all isName = true) (hk : k ∈ kinds)
    (hname : way.getLast? = some name) (hends : endsWith k.ending name = true) :
    2 * n + 4 ≤ (extend (detour n) way).utf8ByteSize := by
  obtain ⟨front, rfl⟩ := getLast?_eq_some_iff.1 hname
  rw [all_append, Bool.and_eq_true] at hway
  have hn : isName name = true := by simpa using hway.2
  obtain ⟨s, hs⟩ := exists_extend_eq (detour n) hway.1
  have hending : 2 ≤ k.ending.utf8ByteSize := by
    have hall : ∀ k ∈ kinds, 2 ≤ k.ending.utf8ByteSize := by decide
    exact hall k hk
  have hlong : k.ending.utf8ByteSize ≤ name.utf8ByteSize := by
    rw [endsWith, isSuffixOf_iff_suffix] at hends
    obtain ⟨before, hbefore⟩ := hends
    have hsplit : name = ofList before ++ k.ending := by
      rw [← String.toList_inj, ← hbefore, String.toList_append, String.toList_ofList]
    rw [hsplit, utf8ByteSize_append]
    omega
  rw [extend_concat, ((firm n).firm_extend hway.1).join hn, hs, utf8ByteSize_append,
    utf8ByteSize_append, utf8ByteSize_append, size]
  have hstroke : "/".utf8ByteSize = 1 := rfl
  omega

theorem normalize_below (n : Nat) (hname : Path.isName name = true) :
    Path.normalize (Path.extend (detour n) [name]) = Text.join "/" ["r", name] := by
  have hrelative : Path.isAbsolute (Path.extend (detour n) [name]) = false :=
    (Path.isAbsolute_extend (detour n) (by simpa using hname)).trans (relative n)
  have hcomponents : Path.components (Path.extend (detour n) [name]) = ["r", name] := by
    rw [Path.components_extend (firm n).ne_empty (by simpa using hname), components]
    rfl
  have hsingle : Text.startsWith "//" (Path.extend (detour n) [name]) = false := by
    rw [Bool.eq_false_iff]
    intro hdouble
    have hpair := isPrefixOf_iff_prefix.1 hdouble
    have habsolute : Path.isAbsolute (Path.extend (detour n) [name]) = true :=
      isPrefixOf_iff_prefix.2 (List.IsPrefix.trans ⟨['/'], rfl⟩ hpair)
    rw [hrelative] at habsolute
    cases habsolute
  have hne : Text.join "/" ["r", name] ≠ "" := by
    rw [Text.join, String.intercalate_cons_cons]
    simp
  rw [Path.normalize, hsingle, hrelative, hcomponents]
  simp [hne]

theorem admits_below (n : Nat) :
    (Filter.without (usualDirectories.map .str) (usualFiles.map .str)).admits
      (extend (detour n) ["a.py"]) = .ok true := by
  have hparts : parts (extend (detour n) ["a.py"]) = ["r", "a.py"] := by
    rw [parts, normalize_below n (by decide)]
    decide
  have hbase : base (extend (detour n) ([] ++ ["a.py"])) = "a.py" :=
    base_extend (firm n).ne_empty rfl (by decide)
  rw [nil_append] at hbase
  rw [admits, inside, anyName_texts, ok_bind, isNamed, hparts, hbase]
  refine congrArg Except.ok ?_
  decide +kernel

theorem documents_below {n : Nat} (hn : 2 * n + 1 < pathLimit) (hlong : pathLimit ≤ 2 * n + 4)
    {filter : Filter} (hnamed : filter.Named) :
    documentsBy length desk.tree (detour n) filter = .ok [] := by
  choose accepts hadmits using hnamed.admits
  have hroot := directoryAt_of_isDir (resolve rfl desk_isDir hn) desk_isDir
  obtain ⟨docs, taken, hdocs, hall, hmem, -⟩ :=
    documentsBy_exact desk_orderly hroot (desk_plain _) hadmits length (isPattern n)
  have hnone : taken = [] := by
    refine eq_nil_iff_forall_not_mem.2 fun t ht => ?_
    obtain ⟨hk, d, hd⟩ := (hmem t.1 t.2).1 ht
    obtain ⟨name, hname, hends⟩ := hd.ending
    obtain ⟨hway, -⟩ := (taken_iff desk_orderly hroot (desk_plain _) hadmits hk).1 hd
    have hshort := (checkPath_eq_ok.1 hd.short.2).2.2
    rw [trimmed_of_firm (firm n)] at hshort
    have hsize := size_below n hway hk hname hends
    omega
  rw [hnone, forall₂_nil_left_iff] at hall
  rw [hdocs, hall]

end detour

/-- A root may be so long that no file below it can be opened. -/
theorem nothing_after_detour :
    ∃ filter, ofWishes [] ({} : NameLists).wishes = .ok filter ∧
      desk.tree.directoryAt (detour 2046) = .ok ["r"] ∧ isPattern (detour 2046) = false ∧
      Glob.Plain desk.tree ["r"] ∧
      desk.tree.lookup? (["r"] ++ ["a.py"]) = some (.file (.text "x\r\ny") none) ∧
      filter.admits (Path.extend (detour 2046) ["a.py"]) = .ok true ∧
      (readBy length [] (.str (detour 2046)) ({} : NameLists).wishes).on desk =
        (.ok [], desk) := by
  have hshort : 2 * 2046 + 1 < pathLimit := by decide
  have hlong : pathLimit ≤ 2 * 2046 + 4 := by decide
  -- The root stays a variable: unfolded it is a text of thousands of letters.
  generalize 2046 = n at hshort hlong ⊢
  have hroot : desk.tree.directoryAt (detour n) = .ok ["r"] :=
    directoryAt_of_isDir (detour.resolve rfl desk_isDir hshort) desk_isDir
  have hnul : (detour n).toList.contains (Char.ofNat 0) = false := by
    simpa using (checkPath_eq_ok.1 (resolve_eq_ok.1 (directoryAt_eq_ok hroot).1).1).1
  have hfilter : ofWishes [] ({} : NameLists).wishes = .ok (.without
      (usualDirectories.map .str ++ [] ++ []) (usualFiles.map .str ++ [] ++ [])) :=
        rfl
  simp only [List.append_nil] at hfilter
  have hnamed : (Filter.without (usualDirectories.map .str)
      (usualFiles.map .str)).Named := ⟨_, _, rfl, rfl⟩
  refine ⟨_, hfilter, hroot, detour.isPattern n, desk_plain _, rfl, detour.admits_below n, ?_⟩
  rw [Database.readBy_on, hfilter, ok_bind, hnul, if_neg Bool.false_ne_true,
    detour.documents_below hshort hlong hnamed]

end RepoWiki.Index
