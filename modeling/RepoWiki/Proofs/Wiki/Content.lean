import RepoWiki.Proofs.Json
import RepoWiki.Proofs.Run
import RepoWiki.Wiki.Content
/-
A wiki that is kept is the wiki that is found again. `Form.Lawful` pairs a reader with the writer
whose values it takes back; it passes from texts to lists, to forms inside forms and to the parts of
a wiki, up to `Stored.read_toJson`. The pages of a wiki are a list of named values, so this asks for
each name to be there once, which holds of every submission that was accepted
(`Submission.pages_nodup`).
-/

namespace RepoWiki

open Form Form.Checked List

namespace Form

variable {α β : Type}

variable {name : String} {fields : Fields}

/-! ## Readings -/

variable {x : Checked α} {read : Json → Checked α}

theorem seq_eq_ok {f : Checked (α → β)} {b : β} (h : f <*> x = ok b) :
    ∃ g a, f = ok g ∧ x = ok a ∧ g a = b := by
  cases f with
  | error ps =>
    cases x with
    | error qs => nomatch h
    | ok a => nomatch h
  | ok g =>
    cases x with
    | error qs => nomatch h
    | ok a => exact ⟨g, a, rfl, rfl, Except.ok.inj h⟩

theorem map_eq_ok {f : α → β} {b : β} (h : x.map f = ok b) :
    ∃ a, x = ok a ∧ f a = b := by
  cases x with
  | error ps => nomatch h
  | ok a => exact ⟨a, rfl, Except.ok.inj h⟩

theorem inside_eq_ok {a : α} (h : x.inside name = ok a) : x = ok a := by
  cases x with
  | error ps => nomatch h
  | ok b => exact h

/-! ## Readers and writers -/

/-- A reader takes back what a writer gives, which is never left open. -/
structure Lawful (read : Json → Checked α) (write : α → Json) : Prop where
  back : ∀ a, read (write a) = ok a
  ne_null : ∀ a, write a ≠ .null

namespace Lawful

variable {read : Json → Checked α} {write : α → Json}

theorem filled (h : Lawful read write) (a : α) : filled read (write a) = ok a := by
  rw [filled.eq_2 _ _ (h.ne_null a), h.back]

theorem optional (h : Lawful read write) (o : Option α) :
    optional read (.ofOption (o.map write)) = ok o := by
  cases o with
  | none => rfl
  | some a =>
    rw [Option.map_some, Json.ofOption, Option.getD_some, optional.eq_2 _ _ (h.ne_null a), h.back]
    rfl

theorem listFrom (h : Lawful read write) (as : List α) :
    ∀ n, Form.listFrom read n (as.map write) = ok as := by
  induction as with
  | nil => exact fun n => rfl
  | cons a as ih =>
    intro n
    rw [map_cons, Form.listFrom, h.filled, ih]
    rfl

theorem list (h : Lawful read write) : Lawful (list read) fun as => .arr (as.map write) :=
  ⟨fun as => h.listFrom as 0, fun _ => Json.noConfusion⟩

end Lawful

theorem text_lawful : Lawful text Json.str :=
  ⟨fun _ => rfl, fun _ => Json.noConfusion⟩

theorem texts_lawful : Lawful (list text) Json.texts :=
  text_lawful.list

theorem mapM_fieldOf? (fields : Fields) :
    (fields.map fun f => (Json.str f.1, f.2)).mapM fieldOf? = some fields := by
  induction fields with
  | nil => rfl
  | cons f fields ih =>
    rw [map_cons, mapM_cons, ih]
    rfl

theorem nested_obj (read : Fields → Checked α) (fields : Fields) :
    nested read (.obj fields) = read fields := by
  rw [nested, table?]
  simp only [mapM_fieldOf?]

theorem nested_lawful {read : Fields → Checked α} {write : α → Fields}
    (h : ∀ a, read (write a) = ok a) : Lawful (nested read) fun a => .obj (write a) :=
  ⟨fun a => (nested_obj read (write a)).trans (h a), fun _ => Json.noConfusion⟩

/-! ## Named values -/

theorem setNamed_of_not_mem {value : α} {done : List (String × α)} (h : name ∉ done.map Prod.fst) :
    setNamed name value done = done ++ [(name, value)] := by
  induction done with
  | nil => rfl
  | cons e done ih =>
    simp only [map_cons, mem_cons, not_or] at h
    rw [setNamed, if_neg (Ne.symm h.1), ih h.2, cons_append]

theorem setNamed_names (name : String) (value : α) (done : List (String × α)) :
    (setNamed name value done).map Prod.fst =
      if name ∈ done.map Prod.fst then done.map Prod.fst else done.map Prod.fst ++ [name] := by
  induction done with
  | nil => rfl
  | cons e done ih =>
    by_cases he : e.1 = name
    · simp [setNamed, he]
    · simp only [setNamed, he, if_false, map_cons, mem_cons, ih, Ne.symm he, false_or]
      split
      · rfl
      · rw [cons_append]

theorem foldl_setNamed_nodup (entries : List (String × α)) :
    ∀ done : List (String × α), (done.map Prod.fst).Nodup →
      ((entries.foldl (fun done e => setNamed e.1 e.2 done) done).map Prod.fst).Nodup := by
  induction entries with
  | nil => exact fun done h => h
  | cons e entries ih =>
    intro done h
    refine ih _ ?_
    rw [setNamed_names]
    split
    · exact h
    · next hnew =>
      rw [nodup_append]
      refine ⟨h, by simp, fun a ha b hb => ?_⟩
      rw [mem_singleton.1 hb]
      rintro rfl
      exact hnew ha

theorem foldl_setNamed (entries : List (String × α)) :
    ∀ done : List (String × α), ((done ++ entries).map Prod.fst).Nodup →
      entries.foldl (fun done e => setNamed e.1 e.2 done) done = done ++ entries := by
  induction entries with
  | nil => exact fun done _ => (append_nil done).symm
  | cons e entries ih =>
    intro done h
    have hnew : e.1 ∉ done.map Prod.fst := by
      rw [map_append, map_cons] at h
      exact fun hmem => (nodup_append.1 h).2.2 e.1 hmem e.1 mem_cons_self rfl
    rw [foldl_cons, setNamed_of_not_mem hnew, ih]
    · rw [append_assoc, singleton_append]
    · rwa [append_assoc, singleton_append]

theorem named_nodup {v : Json} {values : List (String × α)} (h : named read v = ok values) :
    (values.map Prod.fst).Nodup := by
  unfold named at h
  split at h
  · obtain ⟨entries, -, rfl⟩ := map_eq_ok h
    exact foldl_setNamed_nodup entries [] nodup_nil
  · nomatch h

theorem Lawful.namedFrom {write : α → Json} (h : Lawful read write) (values : List (String × α)) :
    Form.namedFrom read (values.map fun e => (.str e.1, write e.2)) = ok values := by
  induction values with
  | nil => rfl
  | cons e values ih =>
    rw [map_cons, Form.namedFrom, h.filled, ih]
    rfl

theorem Lawful.named {write : α → Json} (h : Lawful read write) {values : List (String × α)}
    (hnames : (values.map Prod.fst).Nodup) :
    Form.named read (.obj (values.map fun e => (e.1, write e.2))) = ok values := by
  have htable : table? (.obj (values.map fun e => (e.1, write e.2))) =
      some (values.map fun e => (Json.str e.1, write e.2)) := by
    rw [table?, map_map]
    rfl
  rw [Form.named, htable]
  dsimp only
  rw [h.namedFrom]
  exact congrArg Except.ok (foldl_setNamed values [] hnames)

/-! ## Places -/

theorem required_of {v : Json} {a : α} (hv : Fields.get? name fields = some v)
    (ha : filled read v = ok a) : required name read fields = ok a := by
  rw [required, hv]
  dsimp only
  rw [ha]
  rfl

theorem maybe_of {v : Json} {o : Option α} (hv : Fields.get? name fields = some v)
    (ho : optional read v = ok o) : maybe name read fields = ok o := by
  rw [maybe, maybeOr, hv]
  dsimp only
  rw [ho]
  rfl

theorem required_eq_ok {a : α} (h : required name read fields = ok a) :
    ∃ v, read v = ok a := by
  unfold required at h
  split at h
  · next v _ =>
    have hv := inside_eq_ok h
    unfold filled at hv
    split at hv
    · nomatch hv
    · exact ⟨v, hv⟩
  · nomatch inside_eq_ok h

end Form

namespace Wiki

open Json

/-! ## Parts of a wiki -/

theorem Page.lawful : Lawful Page.read Page.toJson := by
  refine nested_lawful fun p => ?_
  rw [Page.ofFields, required_of rfl (text_lawful.filled p.id),
    required_of rfl (text_lawful.filled p.title), required_of rfl (text_lawful.filled p.content),
    required_of rfl (texts_lawful.filled p.filePaths),
    required_of rfl (text_lawful.filled p.importance),
    required_of rfl (texts_lawful.filled p.relatedPages)]
  rfl

theorem Section.lawful : Lawful Section.read Section.toJson := by
  refine nested_lawful fun s => ?_
  rw [Section.ofFields, required_of rfl (text_lawful.filled s.id),
    required_of rfl (text_lawful.filled s.title), required_of rfl (texts_lawful.filled s.pages),
    maybe_of rfl (texts_lawful.optional s.subsections)]
  rfl

theorem Plan.lawful : Lawful Plan.read Plan.toJson := by
  refine nested_lawful fun p => ?_
  rw [Plan.ofFields, required_of rfl (text_lawful.filled p.id),
    required_of rfl (text_lawful.filled p.title),
    required_of rfl (text_lawful.filled p.description),
    required_of rfl (Page.lawful.list.filled p.pages),
    maybe_of rfl (Section.lawful.list.optional p.sections),
    maybe_of rfl (texts_lawful.optional p.rootSections)]
  rfl

theorem Subject.lawful : Lawful Subject.read Subject.toJson := by
  refine nested_lawful fun s => ?_
  rw [Subject.ofFields, required_of rfl (text_lawful.filled s.owner),
    required_of rfl (text_lawful.filled s.repo), required_of rfl (text_lawful.filled s.kind),
    maybe_of rfl (text_lawful.optional s.token), maybe_of rfl (text_lawful.optional s.localPath),
    maybe_of rfl (text_lawful.optional s.address)]
  rfl

theorem Stored.read_toJson {w : Stored} (h : (w.pages.map Prod.fst).Nodup) :
    Stored.read w.toJson = .ok w := by
  have hfields : Stored.ofFields
      [("wiki_structure", w.plan.toJson),
        ("generated_pages", .obj (w.pages.map fun p => (p.1, p.2.toJson))),
        ("repo_url", .ofText? w.address), ("repo", .ofOption (w.subject.map Subject.toJson)),
        ("provider", .ofText? w.provider), ("model", .ofText? w.model)] = ok w := by
    have hpages : filled (named Page.read) (.obj (w.pages.map fun p => (p.1, p.2.toJson))) =
        ok w.pages := Page.lawful.named h
    rw [Stored.ofFields, required_of rfl (Plan.lawful.filled w.plan), required_of rfl hpages,
      maybe_of rfl (text_lawful.optional w.address),
      maybe_of rfl (Subject.lawful.optional w.subject),
      maybe_of rfl (text_lawful.optional w.provider), maybe_of rfl (text_lawful.optional w.model)]
    rfl
  rw [Stored.read, Stored.toJson]
  change outcome "Wiki" (Stored.ofFields _) = _
  rw [hfields]
  rfl

theorem Submission.pages_nodup {v : Json} {s : Submission} (h : Submission.read v = .ok s) :
    (s.pages.map Prod.fst).Nodup := by
  obtain ⟨fields, -, h⟩ := except_bind_eq_ok.1 h
  have hfields : Submission.ofFields fields = ok s := by
    unfold outcome at h
    split at h
    · next hs => rw [← Except.ok.inj h, hs]; rfl
    · nomatch h
  obtain ⟨_, _, hprovider, -, rfl⟩ := seq_eq_ok hfields
  obtain ⟨_, _, hpart, -, rfl⟩ := seq_eq_ok hprovider
  obtain ⟨_, pages, hplan, hpages, rfl⟩ := seq_eq_ok hpart
  obtain ⟨_, _, hlanguage, -, rfl⟩ := seq_eq_ok hplan
  obtain ⟨_, _, hsubject, -, rfl⟩ := seq_eq_ok hlanguage
  obtain ⟨_, -, rfl⟩ := map_eq_ok hsubject
  obtain ⟨u, hu⟩ := required_eq_ok hpages
  exact named_nodup hu

/-! ## Wikis as texts -/

theorem indentedAscii_spaced : Style.indentedAscii.Spaced := by
  refine ⟨rfl, ⟨[], by decide, fun c hc => absurd hc not_mem_nil⟩, ⟨[' '], by decide, ?_⟩⟩
  intro c hc
  rw [mem_singleton.1 hc]
  rfl

theorem legible_ofOption {α : Type} {room : Nat} {write : α → Json}
    (h : ∀ a, Legible room (write a)) (o : Option α) :
    Legible room (.ofOption (o.map write)) := by
  cases o with
  | none => exact .null
  | some a => exact h a

theorem legible_list {α : Type} {room : Nat} {write : α → Json}
    (h : ∀ a, Legible room (write a)) (as : List α) : Legible (room + 1) (.arr (as.map write)) := by
  refine .arr fun v hv => ?_
  obtain ⟨a, -, rfl⟩ := mem_map.1 hv
  exact h a

theorem legible_texts (room : Nat) (xs : List String) : Legible (room + 1) (Json.texts xs) :=
  legible_list (fun s => .str s) xs

theorem Page.legible (room : Nat) (p : Page) : Legible (room + 2) p.toJson := by
  refine .obj (by simp) ?_
  simp only [mem_cons, not_mem_nil, or_false, forall_eq_or_imp, forall_eq]
  exact ⟨.str _, .str _, .str _, legible_texts room _, .str _, legible_texts room _⟩

theorem Section.legible (room : Nat) (s : Section) : Legible (room + 2) s.toJson := by
  refine .obj (by simp) ?_
  simp only [mem_cons, not_mem_nil, or_false, forall_eq_or_imp, forall_eq]
  exact ⟨.str _, .str _, legible_texts room _, legible_ofOption (legible_texts room) _⟩

theorem Plan.legible (room : Nat) (p : Plan) : Legible (room + 4) p.toJson := by
  refine .obj (by simp) ?_
  simp only [mem_cons, not_mem_nil, or_false, forall_eq_or_imp, forall_eq]
  exact ⟨.str _, .str _, .str _, legible_list (Page.legible room) _,
    legible_ofOption (legible_list (Section.legible room)) _,
    legible_ofOption (legible_texts (room + 2)) _⟩

theorem Subject.legible (room : Nat) (s : Subject) : Legible (room + 1) s.toJson := by
  refine .obj (by simp) ?_
  simp only [mem_cons, not_mem_nil, or_false, forall_eq_or_imp, forall_eq]
  exact ⟨.str _, .str _, .str _, legible_ofOption .str _, legible_ofOption .str _,
    legible_ofOption .str _⟩

theorem Stored.legible (room : Nat) {w : Stored} (h : (w.pages.map Prod.fst).Nodup) :
    Legible (room + 5) w.toJson := by
  have hpages : Legible (room + 4) (.obj (w.pages.map fun p => (p.1, p.2.toJson))) := by
    refine .obj (by simpa [map_map, Function.comp_def] using h) fun f hf => ?_
    obtain ⟨p, -, rfl⟩ := mem_map.1 hf
    exact p.2.legible (room + 1)
  refine .obj (by simp) ?_
  simp only [mem_cons, not_mem_nil, or_false, forall_eq_or_imp, forall_eq]
  exact ⟨w.plan.legible room, hpages, legible_ofOption .str _,
    legible_ofOption (Subject.legible (room + 3)) _, legible_ofOption .str _,
    legible_ofOption .str _⟩

end Wiki
end RepoWiki
