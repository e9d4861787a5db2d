import RepoWiki.Proofs.Index.Preparation
/-
Calls for documents, one after the other on the same machine. Each call comes with its own wishes
and with its own answers of the services; what one call stores the next ones find.

An index is made once and used from then on, so the wishes of a later call have no say in what it
gets. What holds of every sequence of calls is that the documents of a call were stored before the
first one, or were made by some call so far, under the wishes of that one (`accepted_by_maker`).
-/

namespace RepoWiki.Index

open Database Document FileTree List Repository

variable {home : String} {tree : FileTree} {past : List (Visit × FileTree)}

/-- A call for the documents of a repository. -/
structure Visit where
  settings : Fields
  address : String
  hosting : Hosting
  token : Json := .null
  single : Option Bool := some false
  wishes : Wishes := {}
  /-- The machine and the services as they are for this call, but for the files and the home
  directory. -/
  outside : Host

namespace Visit

def host (v : Visit) (home : String) (tree : FileTree) : Host :=
  { v.outside with home, tree }

def name (v : Visit) : String :=
  storageName v.address v.hosting

def paths (v : Visit) (home : String) : Paths :=
  pathsOf (rootOf home) v.address v.hosting

def call (v : Visit) (home : String) (tree : FileTree) : Result (List Document) × FileTree :=
  match (prepare v.settings (.str v.address) v.hosting v.token v.single v.wishes).on
      (v.host home tree) with
  | (.ok (_, r), h) => (r, h.tree)
  | (.error fault, h) => (.error fault, h.tree)

def sight (v : Visit) (home : String) (tree : FileTree) : FileTree :=
  ((locate (.str v.address) v.hosting v.token).on (v.host home tree)).2.tree

def arriving (v : Visit) : List WorkFile :=
  Repository.arriving v.outside

def Splits (v : Visit) (whole piece : String) : Prop :=
  Database.Splits v.outside.library v.settings whole piece

/-! ## What a call can do -/

theorem sight_supplied (v : Visit) (home : String) (tree : FileTree) :
    Supplied (v.paths home).repository v.arriving tree (v.sight home tree) :=
  (locate_underway (v.host home tree) v.address v.hosting v.token).supplied

/-- The ways in which a call can end. -/
inductive Ends (v : Visit) (home : String) (tree : FileTree) :
    Result (List Document) → FileTree → Prop
  | failed (fault : Fault) : Ends v home tree (.error fault) (v.sight home tree)
  | stored {d : Document} {rest : List Document}
      (found : stored? (v.sight home tree) (v.paths home).database = some (d :: rest)) :
      Ends v home tree (.ok (d :: rest)) (v.sight home tree)
  | made {filter : Filter} {found made : List Document} {grown after : FileTree}
      (wished : Filter.ofWishes v.settings v.wishes = .ok filter)
      (read : documentsBy (v.outside.library.count v.single) (v.sight home tree)
        (v.paths home).repository filter = .ok found)
      (embedded : Database.Pieced v.outside.library v.settings found made)
      (growth : Grown (v.sight home tree) grown)
      (written : grown.write (v.paths home).database (.value (.arr (made.map pack))) =
        .ok after) :
      Ends v home tree (.ok made) after

theorem ends (v : Visit) (home : String) (tree : FileTree) :
    v.Ends home tree (v.call home tree).1 (v.call home tree).2 := by
  obtain ⟨db, r, m, hon, hcases⟩ := prepare_cases (v.host home tree) v.settings v.address
    v.hosting v.token v.single v.wishes
  have hcall : v.call home tree = (r, m.tree) := by rw [call, hon]
  rw [hcall]
  rcases hcases with ⟨fault, hr, hm⟩ | ⟨d, rest, hstored, hr, hm⟩ | hbuild
  · rw [hr, hm]
    exact .failed fault
  · rw [hr, hm]
    exact .stored hstored
  · cases r with
    | error fault =>
      rw [build_eq_error hbuild]
      exact .failed fault
    | ok made =>
      obtain ⟨filter, found, t, hfilter, hfound, hpieced, hgrown, hwritten⟩ :=
        build_eq_ok hbuild
      have hlibrary := (locate_underway (v.host home tree) v.address v.hosting
        v.token).library
      rw [hlibrary] at hfound hpieced
      exact .made hfilter hfound hpieced hgrown hwritten

end Visit

/-! ## Sequences -/

def trace (home : String) : FileTree → List Visit → List (Visit × FileTree)
  | _, [] => []
  | tree, v :: visits => (v, tree) :: trace home (v.call home tree).2 visits

theorem trace_invariant (inv : List (Visit × FileTree) → FileTree → Prop) {visits : List Visit}
    (past : List (Visit × FileTree))
    (step : ∀ past t v, v ∈ visits → inv past t → inv (past ++ [(v, t)]) (v.call home t).2)
    (start : inv past tree) {i : Nat} {v : Visit} {t : FileTree}
    (hi : (trace home tree visits)[i]? = some (v, t)) :
    v ∈ visits ∧ inv (past ++ (trace home tree visits).take i) t := by
  induction visits generalizing tree past i with
  | nil => simp [trace] at hi
  | cons w visits ih =>
    cases i with
    | zero =>
      obtain ⟨rfl, rfl⟩ : w = v ∧ tree = t := by simpa [trace] using hi
      simpa [trace] using start
    | succ i =>
      rw [trace, getElem?_cons_succ] at hi
      obtain ⟨hv, hinv⟩ := ih (past ++ [(w, tree)])
        (fun past t u hu => step past t u (mem_cons_of_mem w hu))
        (step past tree w mem_cons_self start) hi
      rw [append_assoc] at hinv
      exact ⟨mem_cons_of_mem w hv, hinv⟩

theorem exists_le_of_mem_take {α : Type} {calls : List α} {i : Nat} {last s : α}
    (hi : calls[i]? = some last) (hs : s ∈ calls.take i ++ [last]) :
    ∃ j ≤ i, calls[j]? = some s := by
  rcases mem_append.1 hs with hs | hs
  · obtain ⟨j, hj⟩ := mem_iff_getElem?.1 hs
    rw [getElem?_take] at hj
    split at hj
    · next hlt => exact ⟨j, Nat.le_of_lt hlt, hj⟩
    · simp at hj
  · exact ⟨i, Nat.le_refl i, mem_singleton.1 hs ▸ hi⟩

/-! ## Documents and the files they come from -/

theorem exists_file_of_mem_documents {count : String → Nat} {root : String} {filter : Filter}
    {found : List Document} {d : Document} (h : documentsBy count tree root filter = .ok found)
    (hd : d ∈ found) :
    ∃ file ∈ Glob.everything tree root, filter.admits file = .ok true ∧
      ∃ code ending, documentBy? count tree root code ending file = some d := by
  obtain ⟨code, hcode, h⟩ := except_bind_eq_ok.1 h
  obtain ⟨texts, htexts, h⟩ := except_bind_eq_ok.1 h
  rw [except_pure_eq_ok] at h
  rw [← h, mem_flatten] at hd
  obtain ⟨part, hpart, hd⟩ := hd
  obtain ⟨isCode, ending, hpart⟩ : ∃ isCode ending,
      documentsOfBy count tree root filter (Glob.everything tree root) isCode ending =
        .ok part := by
    rcases mem_append.1 hpart with hpart | hpart
    · obtain ⟨ending, _, hending⟩ := mem_of_mapM_eq_ok hcode hpart
      exact ⟨true, ending, hending⟩
    · obtain ⟨ending, _, hending⟩ := mem_of_mapM_eq_ok htexts hpart
      exact ⟨false, ending, hending⟩
  obtain ⟨taken, htaken, hpart⟩ := except_bind_eq_ok.1 hpart
  rw [except_pure_eq_ok] at hpart
  rw [← hpart, mem_filterMap] at hd
  obtain ⟨file, hfile, hdocument⟩ := hd
  obtain ⟨hmem, hadmits⟩ := mem_of_filterM_eq_ok htaken hfile
  exact ⟨file, (mem_filter.1 hmem).1, hadmits, isCode, ending, hdocument⟩

/-! ## Which wishes count -/

/-- A document that a call takes under its own wishes: a piece of a file that it admits, of the
files as it sees them. -/
def Visit.Accepts (v : Visit) (home : String) (tree : FileTree) (d : Document) : Prop :=
  ∃ filter, Filter.ofWishes v.settings v.wishes = .ok filter ∧
    ∃ file ∈ Glob.everything (v.sight home tree) (v.paths home).repository,
      filter.admits file = .ok true ∧
        ∃ code ending f, documentBy? (v.outside.library.count v.single) (v.sight home tree)
            (v.paths home).repository code ending file = some f ∧
          v.Splits f.text d.text ∧ d.about = f.about

theorem Visit.accepts_of_pieced {v : Visit} {filter : Filter} {found made : List Document}
    {d : Document} (hfilter : Filter.ofWishes v.settings v.wishes = .ok filter)
    (hread : documentsBy (v.outside.library.count v.single) (v.sight home tree)
      (v.paths home).repository filter = .ok found)
    (hmade : Database.Pieced v.outside.library v.settings found made) (hd : d ∈ made) :
    v.Accepts home tree d := by
  obtain ⟨f, hf, hsplits, habout⟩ := hmade d hd
  obtain ⟨file, hfile, hadmits, code, ending, hdocument⟩ := exists_file_of_mem_documents hread hf
  exact ⟨filter, hfilter, file, hfile, hadmits, code, ending, f, hdocument, hsplits, habout⟩

def GaveAccepted (home : String) (documents : List Document) (s : Visit × FileTree) : Prop :=
  (s.1.call home s.2).1 = .ok documents ∧ ∀ d ∈ documents, s.1.Accepts home s.2 d

def Held (tree : FileTree) (documents : List Document) : Prop :=
  ∃ p items m, tree.lookup? p = some (.file (.value (.arr items)) m) ∧
    items.mapM unpack? = some documents

/-- The documents of every stored index have a property. -/
def Stores (P : List Document → Prop) (tree : FileTree) : Prop :=
  ∀ documents, Held tree documents → P documents

theorem value_of_supplied {directory : String} {files : List WorkFile} {after : FileTree}
    (h : Supplied directory files tree after) {p : List String} {v : Json} {m : Option Int}
    (hp : after.lookup? p = some (.file (.value v) m)) :
    tree.lookup? p = some (.file (.value v) m) := by
  induction h with
  | same => exact hp
  | grown _ growth ih => exact ih (growth.file.1 hp)
  | @delivered t f _ _ ih =>
    rcases deliver_cases directory t f with hsame | ⟨grown, place, hgrown, hplace, hplanted⟩
    · rw [hsame] at hp
      exact ih hp
    · rw [hplanted] at hp
      by_cases hpp : p = place
      · rw [hpp, lookup?_putEntry_self hplace] at hp
        cases hitem : f.item <;> simp [hitem, WorkItem.entry] at hp
      · rw [lookup?_putEntry_ne hpp] at hp
        exact ih (hgrown.file.1 hp)

theorem mapM_unpack_map_pack (documents : List Document) :
    (documents.map pack).mapM unpack? = some documents := by
  induction documents with
  | nil => rfl
  | cons d documents ih => simp [ih]

theorem Stores.supplied {P : List Document → Prop} {directory : String} {files : List WorkFile}
    {after : FileTree} (hs : Stores P tree) (h : Supplied directory files tree after) :
    Stores P after := by
  rintro documents ⟨p, items, m, hp, hitems⟩
  exact hs documents ⟨p, items, m, value_of_supplied h hp, hitems⟩

/-- An index may be written through links, so its place is any; the others keep theirs. -/
theorem Stores.write {P : List Document → Prop} {t after : FileTree} {file : String}
    {documents : List Document} (hs : Stores P tree) (hgrown : Grown tree t) (hnew : P documents)
    (hw : t.write file (.value (.arr (documents.map pack))) = .ok after) :
    Stores P after := by
  obtain ⟨-, place, -, hplace, rfl⟩ := write_eq_ok hw
  rintro others ⟨p, items, m, hp, hitems⟩
  by_cases hpp : p = place
  · subst hpp
    rw [lookup?_putEntry_self (ne_nil_of_not_isDir hplace)] at hp
    obtain ⟨rfl, -⟩ : documents.map pack = items ∧ none = m := by simpa using hp
    rw [mapM_unpack_map_pack, Option.some.injEq] at hitems
    exact hitems ▸ hnew
  · rw [lookup?_putEntry_ne hpp] at hp
    exact hs others ⟨p, items, m, hgrown.file.1 hp, hitems⟩

theorem held_of_stored {file : String} {documents : List Document}
    (hs : stored? tree file = some documents) : Held tree documents := by
  unfold stored? at hs
  split at hs
  · next items hopen =>
    obtain ⟨place, m, -, hplace⟩ := open?_eq_ok.1 hopen
    exact ⟨place, items, m, hplace, hs⟩
  · simp at hs

/-- Every stored index was stored at the start or is the answer of a call so far. -/
def Indexed (home : String) (start : FileTree) (past : List (Visit × FileTree))
    (tree : FileTree) : Prop :=
  Stores (fun documents => Held start documents ∨ ∃ s ∈ past, GaveAccepted home documents s) tree

variable {start : FileTree}

theorem Indexed.weaken (h : Indexed home start past tree) (s : Visit × FileTree) :
    Indexed home start (past ++ [s]) tree := by
  intro documents hheld
  refine (h documents hheld).imp_right ?_
  rintro ⟨u, hu, hgave⟩
  exact ⟨u, mem_append_left [s] hu, hgave⟩

/-- A call gives documents that were stored at the start, or that it or a call before it made and
took, and stores nothing else. -/
theorem call_indexed (v : Visit) (h : Indexed home start past tree) :
    Indexed home start (past ++ [(v, tree)]) (v.call home tree).2 ∧
      ∀ documents, (v.call home tree).1 = .ok documents →
        Held start documents ∨ ∃ s ∈ past ++ [(v, tree)], GaveAccepted home documents s := by
  have hsight : Indexed home start (past ++ [(v, tree)]) (v.sight home tree) :=
    Stores.supplied (h.weaken _) (v.sight_supplied home tree)
  have hends := v.ends home tree
  generalize hcall : v.call home tree = outcome at hends ⊢
  obtain ⟨r, after⟩ := outcome
  cases hends with
  | failed fault => exact ⟨hsight, by simp⟩
  | @stored d rest found =>
    refine ⟨hsight, fun documents hdocuments => ?_⟩
    exact Except.ok.inj hdocuments ▸ hsight _ (held_of_stored found)
  | @made filter found made grown _ wished read embedded growth written =>
    have hgave : Held start made ∨ ∃ s ∈ past ++ [(v, tree)], GaveAccepted home made s :=
      .inr ⟨(v, tree), by simp, by rw [hcall], fun d hd =>
        v.accepts_of_pieced wished read embedded hd⟩
    refine ⟨hsight.write growth hgave written, fun documents hdocuments => ?_⟩
    exact Except.ok.inj hdocuments ▸ hgave

/-! ### A small machine -/

def plainSettings : Fields :=
  [("embedder", .obj [(Config.clientField, Config.ClientClass.google.mark),
    ("model_kwargs", .obj [])]), ("text_splitter", .obj [])]

/-- A call for a repository with one file of one octet. Only files of an ending are wanted. -/
def smallVisit (address : String) (octet : Nat) (ending : String) : Visit where
  settings := plainSettings
  address := address
  hosting := .github
  wishes := { includedFiles := .arr [.str ending] }
  outside := {
    tree := { cwd := "/", entries := [] }
    clones := [.done "" [⟨["a.py"], .octets [octet], by decide⟩]] }

def noFiles : FileTree :=
  { cwd := "/", entries := [] }

theorem noFiles_lookup? {p : List String} (hp : p ≠ []) : noFiles.lookup? p = none := by
  rw [lookup?_of_ne_nil hp]
  rfl

theorem not_held_noFiles (documents : List Document) : ¬Held noFiles documents := by
  rintro ⟨p, items, m, hp, -⟩
  by_cases hnil : p = []
  · simp [hnil] at hp
  · simp [noFiles_lookup? hnil] at hp

def texts (r : Result (List Document)) : Option (List String) :=
  r.toOption.map fun documents => documents.map text

theorem exists_of_texts_eq {r : Result (List Document)} {all : List String}
    (h : texts r = some all) :
    ∃ documents, r = .ok documents ∧ documents.map text = all := by
  cases r with
  | error fault => simp [texts, Except.toOption] at h
  | ok documents => exact ⟨documents, rfl, by simpa [texts, Except.toOption] using h⟩

theorem texts_of_second_call :
    texts ((smallVisit "http://h/o/r" 120 ".md").call ""
      ((smallVisit "http://h/o/r" 120 ".py").call "" noFiles).2).1 = some ["x"] := by
  decide +kernel

/-- The documents of a call were stored in a file before the first call, or were made by a call so
far under the wishes of that one, whatever is wished for now. Only where no index with documents is
stored are they made under its own wishes. -/
theorem accepted_by_maker {home : String} {tree : FileTree} {visits : List Visit} {i : Nat}
    {v : Visit} {t : FileTree} {documents : List Document}
    (made : (trace home tree visits)[i]? = some (v, t))
    (gives : (v.call home t).1 = .ok documents) :
    (Held tree documents ∨
        ∃ j ≤ i, ∃ w s, (trace home tree visits)[j]? = some (w, s) ∧
          (w.call home s).1 = .ok documents ∧ ∀ d ∈ documents, w.Accepts home s d) ∧
      ((∀ d rest, stored? (v.sight home t) (v.paths home).database ≠ some (d :: rest)) →
        ∀ d ∈ documents, v.Accepts home t d) := by
  constructor
  · have hinv : Indexed home tree ([] ++ (trace home tree visits).take i) t :=
      (trace_invariant (Indexed home tree) [] (fun past t v _ h => (call_indexed v h).1)
        (fun documents hheld => .inl hheld) made).2
    refine ((call_indexed v hinv).2 documents gives).imp_right ?_
    rintro ⟨⟨w, s⟩, hs, hgave, haccepts⟩
    obtain ⟨j, hj, hjs⟩ := exists_le_of_mem_take made hs
    exact ⟨j, hj, w, s, hjs, hgave, haccepts⟩
  · intro hstored
    have hends := v.ends home t
    rw [gives] at hends
    generalize (v.call home t).2 = after at hends
    cases hends with
    | stored found => exact absurd found (hstored _ _)
    | made wished read embedded => exact fun d hd => v.accepts_of_pieced wished read embedded hd

/-- The second of two calls, with the maker of its documents. -/
theorem accepted_by_maker_second_call :
    ∃ documents, documents.map text = ["x"] ∧
      ∃ j ≤ 1, ∃ w s,
        (trace "" noFiles [smallVisit "http://h/o/r" 120 ".py",
          smallVisit "http://h/o/r" 120 ".md"])[j]? = some (w, s) ∧
        (w.call "" s).1 = .ok documents ∧ ∀ d ∈ documents, w.Accepts "" s d := by
  obtain ⟨documents, hgives, htexts⟩ := exists_of_texts_eq texts_of_second_call
  exact ⟨documents, htexts, (accepted_by_maker rfl hgives).1.resolve_left (not_held_noFiles _)⟩

def Visit.takesNone (v : Visit) (home : String) (tree : FileTree) : Bool :=
  match Filter.ofWishes v.settings v.wishes with
  | .error _ => true
  | .ok filter =>
      (Glob.everything (v.sight home tree) (v.paths home).repository).all fun file =>
        match filter.admits file with
        | .ok true => false
        | _ => true

theorem Visit.not_accepts_of_takesNone {v : Visit} (h : v.takesNone home tree = true)
    (d : Document) : ¬v.Accepts home tree d := by
  rintro ⟨filter, hfilter, file, hfile, hadmits, -⟩
  rw [takesNone, hfilter] at h
  have := all_eq_true.1 h file hfile
  simp [hadmits] at this

/-- A call for a repository whose index is stored gets documents that its own wishes leave out. -/
theorem gives_what_is_not_wished :
    ∃ first second : Visit, first.address = second.address ∧ first.hosting = second.hosting ∧
      (∀ documents, ¬Held noFiles documents) ∧
      ∃ t documents d, (trace "" noFiles [first, second])[1]? = some (second, t) ∧
        (second.call "" t).1 = .ok documents ∧ d ∈ documents ∧ ¬second.Accepts "" t d := by
  obtain ⟨documents, hgives, htexts⟩ := exists_of_texts_eq texts_of_second_call
  have hnone : (smallVisit "http://h/o/r" 120 ".md").takesNone ""
      ((smallVisit "http://h/o/r" 120 ".py").call "" noFiles).2 = true := by
    decide +kernel
  obtain ⟨d, rest, rfl⟩ : ∃ d rest, documents = d :: rest := by
    cases documents with
    | nil => simp at htexts
    | cons d rest => exact ⟨d, rest, rfl⟩
  exact ⟨smallVisit "http://h/o/r" 120 ".py", smallVisit "http://h/o/r" 120 ".md", rfl, rfl,
    not_held_noFiles, _, d :: rest, d, rfl, hgives, List.mem_cons_self,
    Visit.not_accepts_of_takesNone hnone d⟩

end RepoWiki.Index
