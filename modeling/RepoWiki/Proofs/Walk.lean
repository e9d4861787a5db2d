import Mathlib.Data.List.Nodup
import RepoWiki.Proofs.Components
import RepoWiki.Proofs.FileTree
/-
Walks through a tree.

A walk comes to every directory below its root that can be listed at its place, along the names of
directories and never along a link (`mem_walk`). The files of a directory come before those below
it, and what is in a directory comes as it is listed there (`walk_ordered`). The depth of a walk is
bounded, but no path that long can be opened.
-/

namespace RepoWiki

open List RepoWiki.Path

namespace Path

theorem exists_join_eq (p : String) {n : String} (hn : isName n = true) :
    ∃ s, join p n = p ++ s ∧ 0 < s.utf8ByteSize := by
  have hpos : 0 < n.utf8ByteSize := by
    rw [Nat.pos_iff_ne_zero, Ne, String.utf8ByteSize_eq_zero_iff]
    exact isName.ne_empty hn
  rw [join, isName.relative hn, if_neg Bool.false_ne_true]
  split
  · exact ⟨n, rfl, hpos⟩
  · refine ⟨"/" ++ n, String.append_assoc, ?_⟩
    rw [String.utf8ByteSize_append]
    omega

theorem exists_extend_eq (p : String) {names : List String} (hn : names.all isName = true) :
    ∃ s, extend p names = p ++ s := by
  induction names generalizing p with
  | nil => exact ⟨"", String.append_empty.symm⟩
  | cons n names ih =>
    rw [all_cons, Bool.and_eq_true] at hn
    obtain ⟨s, hs, -⟩ := exists_join_eq p hn.1
    obtain ⟨t, ht⟩ := ih (join p n) hn.2
    exact ⟨s ++ t, by rw [extend_cons, ht, hs, String.append_assoc]⟩

theorem extend_injective {p : String} (hp : p ≠ "") {ns ms : List String}
    (hns : ns.all isName = true) (hms : ms.all isName = true)
    (h : extend p ns = extend p ms) : ns = ms := by
  have hcomponents := congrArg components h
  rw [components_extend hp hns, components_extend hp hms] at hcomponents
  exact append_cancel_left hcomponents

end Path

namespace FileTree

variable {tree : FileTree}

variable {name p : String} {place : List String} {enter : String → Bool}

/-! ## Trees in order -/

/-- A tree with one entry for each place, whose names are proper, and which is seen from a place
given from the top. -/
structure Orderly (tree : FileTree) : Prop where
  once : (tree.entries.map (·.1)).Nodup
  named : ∀ e ∈ tree.entries, e.1.all Path.isName = true
  rooted : Path.isAbsolute tree.cwd = true

theorem mem_namesAt {dir : List String} :
    name ∈ tree.namesAt dir ↔ ∃ e, tree.lookup? (dir ++ [name]) = some e := by
  refine ⟨exists_entry_of_mem_namesAt, ?_⟩
  rintro ⟨e, he⟩
  have hmem := mem_entries_of_lookup? (by simp) he
  refine (tree.order.perm _ _).mem_iff.2 (mem_filterMap.2 ⟨_, hmem, ?_⟩)
  simp

namespace Orderly

theorem isName_of_lookup? (ht : tree.Orderly) {e : Entry} (he : tree.lookup? place = some e) :
    place.all isName = true := by
  by_cases hplace : place = []
  · subst hplace
    rfl
  · exact ht.named _ (mem_entries_of_lookup? hplace he)

theorem isName_of_mem_namesAt (ht : tree.Orderly) {dir : List String}
    (h : name ∈ tree.namesAt dir) : isName name = true := by
  obtain ⟨e, he⟩ := mem_namesAt.1 h
  have hall := ht.isName_of_lookup? he
  rw [all_append, Bool.and_eq_true] at hall
  simpa using hall.2

theorem nodup_namesAt (ht : tree.Orderly) (dir : List String) : (tree.namesAt dir).Nodup := by
  rw [namesAt, (tree.order.perm _ _).nodup_iff, List.Nodup, pairwise_filterMap]
  refine (pairwise_map.1 ht.once).imp ?_
  -- Two entries in one directory with the same last name would be at the same place.
  rintro ⟨p, e⟩ ⟨q, f⟩ hne n hn m hm rfl
  simp only [Bool.and_eq_true, decide_eq_true_eq, isPrefixOf_iff_prefix,
    Option.ite_none_right_eq_some] at hn hm
  obtain ⟨⟨hp, way, rfl⟩, hn⟩ := hn
  obtain ⟨⟨hq, other, rfl⟩, hm⟩ := hm
  obtain ⟨a, rfl⟩ : ∃ a, way = [a] := length_eq_one_iff.1 (by simpa using hp)
  obtain ⟨b, rfl⟩ : ∃ b, other = [b] := length_eq_one_iff.1 (by simpa using hq)
  simp only [getLast?_append, getLast?_singleton, Option.some_or, Option.some.injEq]
    at hn hm
  exact hne (by rw [hn, hm])

end Orderly

/-! ## Below a directory -/

theorem directoryAt_of_isDirectory (h : tree.isDirectory p = true) :
    ∃ place, tree.directoryAt p = .ok place := by
  obtain ⟨place, hplace, hdir⟩ := isDir_of_isDirectory h
  exact ⟨place, directoryAt_of_isDir hplace hdir⟩

theorem directoryAt_below {n : String} {base : List String} (hp : tree.directoryAt p = .ok base)
    (hn : isName n = true) (hdir : tree.IsDir (base ++ [n])) :
    tree.directoryAt (join p n) = .ok place ↔
      place = base ++ [n] ∧ n.utf8ByteSize ≤ nameLimit ∧ checkPath (join p n) = .ok () := by
  obtain ⟨hresolve, hbase⟩ := directoryAt_eq_ok hp
  rw [← resolve_join_eq_ok hresolve hbase hn (not_isLink_of_isDir hdir)]
  constructor
  · exact fun h => (directoryAt_eq_ok h).1
  · intro h
    obtain ⟨rfl, -⟩ := (resolve_join_eq_ok hresolve hbase hn (not_isLink_of_isDir hdir)).1 h
    exact directoryAt_of_isDir h hdir

theorem size_lt_of_directoryAt (hp : tree.directoryAt p = .ok place) : p.utf8ByteSize < pathLimit :=
  (checkPath_eq_ok.1 (resolve_eq_ok.1 (directoryAt_eq_ok hp).1).1).2.2

theorem ne_empty_of_directoryAt (hp : tree.directoryAt p = .ok place) : p ≠ "" :=
  (checkPath_eq_ok.1 (resolve_eq_ok.1 (directoryAt_eq_ok hp).1).1).2.1

/-! ## Listings -/

/-- What a listing does not count as a directory: a file, or a link that leads to none. -/
def IsOther (tree : FileTree) (p : String) (place : List String) (name : String) : Prop :=
  (∃ c m, tree.lookup? (place ++ [name]) = some (.file c m)) ∨
    tree.IsLink (place ++ [name]) ∧ tree.isDirectory (Path.join p name) = false

theorem list_eq_ok (hp : tree.directoryAt p = .ok place) :
    ∃ listing, tree.list p = .ok listing ∧
      (∀ name, name ∈ listing.directories ∧ name ∉ listing.links ↔
        tree.IsDir (place ++ [name])) ∧
      (∀ name, name ∈ listing.others ↔ tree.IsOther p place name) ∧
      listing.directories.Sublist (tree.namesAt place) ∧
      listing.others.Sublist (tree.namesAt place) := by
  rw [list, hp, ok_bind]
  refine ⟨_, rfl, fun name => ?_, fun name => ?_, filter_sublist, filter_sublist⟩
  · simp only [mem_filter, mem_namesAt, IsDir]
    cases hfound : tree.lookup? (place ++ [name]) with
    | none => simp
    | some e => cases e <;> simp
  · simp only [mem_filter, mem_namesAt, IsOther, IsLink]
    cases hfound : tree.lookup? (place ++ [name]) with
    | none => simp
    | some e => cases e <;> simp

/-! ## Walks -/

/-- A walk from a directory comes along these names: each of them may be entered, and each way
along the first of them is a directory that can be listed. -/
structure Visited (tree : FileTree) (enter : String → Bool) (p : String) (place : List String)
    (way : List String) : Prop where
  entered : ∀ name ∈ way, enter name = true
  listed : ∀ front, front <+: way →
    tree.directoryAt (Path.extend p front) = .ok (place ++ front)

section

variable (hp : tree.directoryAt p = .ok place)
include hp

theorem visited_nil : tree.Visited enter p place [] := by
  refine ⟨fun name h => absurd h (by simp), fun front hfront => ?_⟩
  rw [prefix_nil] at hfront
  subst hfront
  rw [append_nil]
  exact hp

theorem visited_cons {way : List String} :
    tree.Visited enter p place (name :: way) ↔
      enter name = true ∧ tree.directoryAt (join p name) = .ok (place ++ [name]) ∧
        tree.Visited enter (join p name) (place ++ [name]) way := by
  constructor
  · rintro ⟨hentered, hlisted⟩
    refine ⟨hentered name mem_cons_self, hlisted [name] ⟨way, rfl⟩,
      fun other h => hentered other (mem_cons_of_mem name h), fun front hfront => ?_⟩
    have hmore := hlisted (name :: front) (cons_prefix_cons.2 ⟨rfl, hfront⟩)
    rwa [extend_cons, ← singleton_append, ← append_assoc] at hmore
  · rintro ⟨hname, -, hentered, hlisted⟩
    refine ⟨fun other h => ?_, fun front hfront => ?_⟩
    · rcases mem_cons.1 h with rfl | h
      · exact hname
      · exact hentered other h
    · rcases prefix_cons_iff.1 hfront with rfl | ⟨rest, rfl, hrest⟩
      · rw [append_nil]
        exact hp
      · rw [extend_cons, ← singleton_append, ← append_assoc]
        exact hlisted rest hrest

/-- A walk comes along names that it may enter and that lead from directory to directory, as long as
the path can be opened. -/
theorem visited_iff {way : List String} (hway : way.all isName = true) :
    tree.Visited enter p place way ↔
      (∀ name ∈ way, enter name = true ∧ name.utf8ByteSize ≤ nameLimit) ∧
        (∀ front, front <+: way → tree.IsDir (place ++ front)) ∧
          checkPath (extend p way) = .ok () := by
  constructor
  · intro h
    refine ⟨fun name hname => ⟨h.entered name hname, ?_⟩,
      fun front hfront => (directoryAt_eq_ok (h.listed front hfront)).2,
      (resolve_eq_ok.1 (directoryAt_eq_ok (h.listed way (prefix_refl way))).1).1⟩
    obtain ⟨front, rest, rfl⟩ := append_of_mem hname
    have habove := h.listed front (prefix_append front _)
    have hhere := h.listed (front ++ [name]) (by simp)
    have hn : isName name = true := all_eq_true.1 hway name hname
    rw [extend_concat, ← append_assoc] at hhere
    exact ((directoryAt_below habove hn (directoryAt_eq_ok hhere).2).1 hhere).2.1
  · rintro ⟨hnames, hdirs, hcheck⟩
    induction way generalizing p place with
    | nil => exact visited_nil hp
    | cons name way ih =>
      rw [all_cons, Bool.and_eq_true] at hway
      obtain ⟨henter, hsize⟩ := hnames name mem_cons_self
      have hjoin : checkPath (join p name) = .ok () := by
        obtain ⟨s, hs⟩ := exists_extend_eq (join p name) hway.2
        rw [extend_cons, hs] at hcheck
        exact checkPath_of_append (join_ne_empty (ne_empty_of_directoryAt hp) name) hcheck
      have hnext : tree.directoryAt (join p name) = .ok (place ++ [name]) :=
        (directoryAt_below hp hway.1 (hdirs [name] ⟨way, rfl⟩)).2 ⟨rfl, hsize, hjoin⟩
      refine (visited_cons hp).2 ⟨henter, hnext, ih hnext hway.2
        (fun n hn => hnames n (mem_cons_of_mem name hn)) (fun front hfront => ?_) hcheck⟩
      rw [append_assoc]
      exact hdirs (name :: front) (cons_prefix_cons.2 ⟨rfl, hfront⟩)

end

theorem walkFrom_of_error {fuel : Nat} {fault : Fault} (hp : tree.directoryAt p = .error fault) :
    tree.walkFrom enter fuel p = [] := by
  cases fuel with
  | zero => rfl
  | succ fuel =>
    rw [walkFrom, list, hp]
    rfl

def entered (enter : String → Bool) (listing : Listing) : List String :=
  listing.directories.filter fun name => enter name && !listing.links.contains name

theorem walkFrom_succ {fuel : Nat} {listing : Listing} (h : tree.list p = .ok listing) :
    tree.walkFrom enter (fuel + 1) p = (p, listing.others) ::
      (entered enter listing).flatMap fun name => tree.walkFrom enter fuel (join p name) := by
  rw [walkFrom, h]
  rfl

theorem mem_entered {listing : Listing}
    (hlisting : ∀ name, name ∈ listing.directories ∧ name ∉ listing.links ↔
      tree.IsDir (place ++ [name])) :
    name ∈ entered enter listing ↔ enter name = true ∧ tree.IsDir (place ++ [name]) := by
  rw [← hlisting, entered, mem_filter, and_left_comm]
  simp

/-! ### The order of a walk -/

/-- The order of the ways to files from a place: those in a directory as its names are listed, then
those below its directories, as these are listed. -/
inductive Before (tree : FileTree) : List String → List String → List String → Prop where
  | file {place : List String} {a b : String} (earlier : [a, b] <+ tree.namesAt place) :
      Before tree place [a] [b]
  | level {place : List String} {a b c : String} {way : List String} :
      Before tree place [a] (b :: c :: way)
  | directory {place : List String} {a b c d : String} {v w : List String}
      (earlier : [a, b] <+ tree.namesAt place) : Before tree place (a :: c :: v) (b :: d :: w)
  | inside {place : List String} {a : String} {v w : List String}
      (later : Before tree (place ++ [a]) v w) : Before tree place (a :: v) (a :: w)

theorem Orderly.ne_of_earlier (ht : tree.Orderly) {a b : String}
    (h : [a, b] <+ tree.namesAt place) : a ≠ b := by
  rintro rfl
  exact nodup_iff_sublist.1 (ht.nodup_namesAt place) a h

theorem Before.ne (ht : tree.Orderly) {v w : List String} (h : Before tree place v w) : v ≠ w := by
  induction h with
  | file earlier => exact fun heq => ht.ne_of_earlier earlier (List.cons.inj heq).1
  | level => simp
  | directory earlier => exact fun heq => ht.ne_of_earlier earlier (List.cons.inj heq).1
  | inside _ ih => exact fun heq => ih (List.cons.inj heq).2

/-- Of two files below a path the first one comes before the second. -/
def Comes (tree : FileTree) (p : String) (place : List String) (f g : String) : Prop :=
  ∃ v w, v.all Path.isName = true ∧ w.all Path.isName = true ∧ Before tree place v w ∧
    f = Path.extend p v ∧ g = Path.extend p w

theorem Comes.ne (ht : tree.Orderly) {f g : String} (hp : p ≠ "") (h : Comes tree p place f g) :
    f ≠ g := by
  obtain ⟨v, w, hv, hw, hbefore, rfl, rfl⟩ := h
  exact fun heq => hbefore.ne ht (extend_injective hp hv hw heq)

theorem Comes.below {f g : String} (hn : isName name = true)
    (h : Comes tree (join p name) (place ++ [name]) f g) : Comes tree p place f g := by
  obtain ⟨v, w, hv, hw, hbefore, rfl, rfl⟩ := h
  exact ⟨name :: v, name :: w, by rw [all_cons, hn, hv]; rfl, by rw [all_cons, hn, hw]; rfl,
    .inside hbefore, rfl, rfl⟩

section

variable {enter : String → Bool} (ht : tree.Orderly)
variable {place : List String} {fuel : Nat} {p : String}

include ht

theorem Orderly.isName_of_isDir (h : tree.IsDir (place ++ [name])) : isName name = true := by
  obtain ⟨m, hm⟩ := h
  exact ht.isName_of_mem_namesAt (mem_namesAt.2 ⟨_, hm⟩)

omit ht in
/-- One more name costs at least one octet, so a bound on the depth holds below as well. -/
theorem fuel_below (hfuel : pathLimit ≤ fuel + 1 + p.utf8ByteSize) (hname : isName name = true) :
    pathLimit ≤ fuel + (join p name).utf8ByteSize := by
  obtain ⟨s, hs, hpos⟩ := exists_join_eq p hname
  rw [hs, String.utf8ByteSize_append]
  omega

theorem mem_walkFrom {q : String} {files : List String} (hp : tree.directoryAt p = .ok place)
    (hfuel : pathLimit ≤ fuel + p.utf8ByteSize) :
    (q, files) ∈ tree.walkFrom enter fuel p ↔
      ∃ way, way.all isName = true ∧ tree.Visited enter p place way ∧ q = extend p way ∧
        ∃ listing, tree.list q = .ok listing ∧ files = listing.others := by
  induction fuel generalizing p place with
  | zero =>
    have hsize := size_lt_of_directoryAt hp
    omega
  | succ fuel ih =>
    obtain ⟨listing, hlist, hdirectories, -, -, -⟩ := list_eq_ok hp
    rw [walkFrom_succ hlist, mem_cons, mem_flatMap, Prod.mk.injEq]
    constructor
    · rintro (⟨rfl, rfl⟩ | ⟨name, hname, hmem⟩)
      · exact ⟨[], rfl, visited_nil hp, rfl, listing, hlist, rfl⟩
      · obtain ⟨henter, hdir⟩ := (mem_entered hdirectories).1 hname
        have hn := ht.isName_of_isDir hdir
        cases hplace : tree.directoryAt (join p name) with
        | error fault =>
          rw [walkFrom_of_error hplace] at hmem
          cases hmem
        | ok below =>
          obtain ⟨rfl, -⟩ := (directoryAt_below hp hn hdir).1 hplace
          obtain ⟨way, hway, hvisited, rfl, hfiles⟩ := (ih hplace (fuel_below hfuel hn)).1 hmem
          exact ⟨name :: way, by simp [hn, hway], (visited_cons hp).2 ⟨henter, hplace, hvisited⟩,
            rfl, hfiles⟩
    · rintro ⟨way, hway, hvisited, rfl, other, hother, rfl⟩
      cases way with
      | nil =>
        rw [extend_nil, hlist, Except.ok.injEq] at hother
        exact .inl ⟨rfl, by rw [hother]⟩
      | cons name way =>
        rw [all_cons, Bool.and_eq_true] at hway
        obtain ⟨henter, hplace, hrest⟩ := (visited_cons hp).1 hvisited
        have hdir := (directoryAt_eq_ok hplace).2
        exact .inr ⟨name, (mem_entered hdirectories).2 ⟨henter, hdir⟩,
          (ih hplace (fuel_below hfuel hway.1)).2 ⟨way, hway.2, hrest, rfl, other, hother, rfl⟩⟩

def pathsOf (visits : List (String × List String)) : List String :=
  visits.flatMap fun v => v.2.map (Path.join v.1)

theorem mem_pathsOf_walkFrom {file : String} (hp : tree.directoryAt p = .ok place)
    (hfuel : pathLimit ≤ fuel + p.utf8ByteSize) :
    file ∈ pathsOf (tree.walkFrom enter fuel p) ↔
      ∃ way name, (way ++ [name]).all isName = true ∧ tree.Visited enter p place way ∧
        tree.IsOther (extend p way) (place ++ way) name ∧
        file = extend p (way ++ [name]) := by
  rw [pathsOf, mem_flatMap]
  constructor
  · rintro ⟨⟨q, files⟩, hmem, hfile⟩
    obtain ⟨name, hname, rfl⟩ := mem_map.1 hfile
    obtain ⟨way, hway, hvisited, rfl, listing, hlist, rfl⟩ := (mem_walkFrom ht hp hfuel).1 hmem
    have hplace := hvisited.listed way (prefix_refl way)
    obtain ⟨other, hother, -, hothers, -, hsub⟩ := list_eq_ok hplace
    obtain rfl := Except.ok.inj (hother.symm.trans hlist)
    refine ⟨way, name, ?_, hvisited, (hothers name).1 hname, (extend_concat p way name).symm⟩
    rw [all_append, hway, all_cons, ht.isName_of_mem_namesAt (hsub.subset hname)]
    rfl
  · rintro ⟨way, name, hall, hvisited, hname, rfl⟩
    rw [all_append, Bool.and_eq_true] at hall
    obtain ⟨listing, hlist, -, hothers, -, -⟩ :=
      list_eq_ok (hvisited.listed way (prefix_refl way))
    exact ⟨(extend p way, listing.others),
      (mem_walkFrom ht hp hfuel).2 ⟨way, hall.1, hvisited, rfl, listing, hlist, rfl⟩,
      mem_map.2 ⟨name, (hothers name).2 hname, (extend_concat p way name).symm⟩⟩

theorem below_of_mem_pathsOf {file : String} (hfuel : pathLimit ≤ fuel + 1 + p.utf8ByteSize)
    (hdir : tree.IsDir (place ++ [name]))
    (h : file ∈ pathsOf (tree.walkFrom enter fuel (join p name))) :
    ∃ n rest, (name :: n :: rest).all isName = true ∧
      file = extend p (name :: n :: rest) := by
  have hname := ht.isName_of_isDir hdir
  cases hplace : tree.directoryAt (join p name) with
  | error fault =>
    rw [walkFrom_of_error hplace] at h
    cases h
  | ok below =>
    obtain ⟨way, last, hall, -, -, rfl⟩ :=
      (mem_pathsOf_walkFrom ht hplace (fuel_below hfuel hname)).1 h
    obtain ⟨n, rest, hrest⟩ := exists_cons_of_ne_nil (append_ne_nil_of_right_ne_nil way
      (cons_ne_nil last []))
    rw [hrest] at hall ⊢
    exact ⟨n, rest, by rw [all_cons, hname, hall]; rfl, rfl⟩

section

variable (hp : tree.directoryAt p = .ok place)
include hp

theorem walkFrom_ordered (hfuel : pathLimit ≤ fuel + p.utf8ByteSize) :
    (pathsOf (tree.walkFrom enter fuel p)).Pairwise (Comes tree p place) := by
  induction fuel generalizing p place with
  | zero => exact List.Pairwise.nil
  | succ fuel ih =>
    obtain ⟨listing, hlist, hdirectories, -, hsub, hothers⟩ := list_eq_ok hp
    have hsorted : (tree.namesAt place).Pairwise fun a b => [a, b] <+ tree.namesAt place :=
      pairwise_iff_forall_sublist.2 id
    have hproper : ∀ name ∈ listing.others, [name].all isName = true := by
      intro name hname
      simpa using ht.isName_of_mem_namesAt (hothers.subset hname)
    rw [walkFrom_succ hlist, pathsOf, flatMap_cons, flatMap_assoc, pairwise_append]
    refine ⟨?_, ?_, ?_⟩
    · refine pairwise_map.2 ((hsorted.sublist hothers).imp_of_mem fun {n m} hn hm hbefore => ?_)
      exact ⟨[n], [m], hproper n hn, hproper m hm, .file hbefore, rfl, rfl⟩
    · rw [pairwise_flatMap]
      refine ⟨fun name hname => ?_, ?_⟩
      · have hdir := ((mem_entered hdirectories).1 hname).2
        have hn := ht.isName_of_isDir hdir
        cases hplace : tree.directoryAt (join p name) with
        | error fault =>
          rw [walkFrom_of_error hplace]
          exact List.Pairwise.nil
        | ok below =>
          obtain ⟨rfl, -⟩ := (directoryAt_below hp hn hdir).1 hplace
          exact (ih hplace (fuel_below hfuel hn)).imp fun h => h.below hn
      · -- The first name below the directory tells which subtree comes first.
        have hentered := (hsorted.sublist hsub).sublist
          (filter_sublist (p := fun name => enter name && !listing.links.contains name))
        refine hentered.imp_of_mem fun {n m} hn hm hbefore f hf g hg => ?_
        obtain ⟨a, v, hv, rfl⟩ :=
          below_of_mem_pathsOf ht hfuel ((mem_entered hdirectories).1 hn).2 hf
        obtain ⟨b, w, hw, rfl⟩ :=
          below_of_mem_pathsOf ht hfuel ((mem_entered hdirectories).1 hm).2 hg
        exact ⟨_, _, hv, hw, .directory hbefore, rfl, rfl⟩
    · intro f hf g hg
      obtain ⟨n, hn, rfl⟩ := mem_map.1 hf
      obtain ⟨name, hname, hmem⟩ := mem_flatMap.1 hg
      obtain ⟨b, w, hw, rfl⟩ :=
        below_of_mem_pathsOf ht hfuel ((mem_entered hdirectories).1 hname).2 hmem
      exact ⟨[n], _, hproper n hn, hw, .level, rfl, rfl⟩

/-- A walk lists every file and every link to no directory, in each directory that it comes to. -/
theorem mem_walk {file : String} :
    file ∈ pathsOf (tree.walk enter p) ↔
      ∃ way name, (way ++ [name]).all isName = true ∧ tree.Visited enter p place way ∧
        tree.IsOther (extend p way) (place ++ way) name ∧
        file = extend p (way ++ [name]) :=
  mem_pathsOf_walkFrom ht hp (Nat.le_add_right _ _)

theorem walk_ordered :
    (pathsOf (tree.walk enter p)).Pairwise (Comes tree p place) :=
  walkFrom_ordered ht hp (Nat.le_add_right _ _)

theorem nodup_walk :
    (pathsOf (tree.walk enter p)).Nodup :=
  (walk_ordered ht hp).imp fun h => h.ne ht (ne_empty_of_directoryAt hp)

end

end

end FileTree
end RepoWiki
