import RepoWiki.Proofs.Provider.DashScope
/-
Where the vectors of a reply are put.

Blank texts and values that are none are left out of the request, so the reply is shorter than the
list it stands for. The vectors are laid out by counting: the one for a text is as far down the
reply as there are usable texts before it (`refill_getElem?`).
-/

namespace RepoWiki.Provider.DashScope

open List

/-! ## Laying out -/

theorem refill_getElem? (n i : Nat) {texts : List Json} {found : List Embedded}
    (hcount : found.length = texts.countP isUsable) :
    ∃ data, refill (some n) i texts found = .ok data ∧ data.length = texts.length ∧
      ∀ j t, texts[j]? = some t → data[j]? =
        if isUsable t then found[(texts.take j).countP isUsable]?
        else some (.vector (zeros n) (.nat (i + j))) := by
  induction texts generalizing i found with
  | nil => exact ⟨[], rfl, rfl, by simp⟩
  | cons t texts ih =>
    cases ht : isUsable t with
    | true =>
      rw [countP_cons_of_pos ht] at hcount
      obtain ⟨e, found, rfl⟩ := exists_cons_of_length_eq_add_one hcount
      obtain ⟨data, hdata, hlength, hplaces⟩ := ih (i + 1) (by simpa using hcount)
      refine ⟨e :: data, by rw [refill_found ht, hdata, Except.map], by simp [hlength], ?_⟩
      intro j u hu
      cases j with
      | zero =>
        obtain rfl : t = u := by simpa using hu
        simp [ht]
      | succ j =>
        rw [getElem?_cons_succ] at hu ⊢
        rw [hplaces j u hu, take_succ_cons, countP_cons_of_pos ht,
          getElem?_cons_succ, show i + 1 + j = i + (j + 1) by omega]
    | false =>
      rw [countP_cons_of_neg (by simp [ht])] at hcount
      obtain ⟨data, hdata, hlength, hplaces⟩ := ih (i + 1) hcount
      refine ⟨.vector (zeros n) (.nat i) :: data, by rw [refill_zeros ht, hdata, Except.map],
        by simp [hlength], ?_⟩
      intro j u hu
      cases j with
      | zero =>
        obtain rfl : t = u := by simpa using hu
        simp [ht]
      | succ j =>
        rw [getElem?_cons_succ] at hu ⊢
        rw [hplaces j u hu, take_succ_cons, countP_cons_of_neg (by simp [ht]),
          show i + 1 + j = i + (j + 1) by omega]

theorem refill_of_usable (dimension : Option Nat) (i : Nat) {texts : List Json}
    {found : List Embedded} (hall : ∀ t ∈ texts, isUsable t = true)
    (hcount : found.length = texts.length) : refill dimension i texts found = .ok found := by
  induction texts generalizing i found with
  | nil => rw [eq_nil_of_length_eq_zero hcount]; rfl
  | cons t texts ih =>
    obtain ⟨e, found, rfl⟩ := exists_cons_of_length_eq_add_one hcount
    rw [refill_found (hall t mem_cons_self),
      ih (i + 1) (fun u hu => hall u (mem_cons_of_mem t hu)) (by simpa using hcount),
      Except.map]

/-! ## Replies -/

/-- A vector of a reply, and what the reply says about its position. -/
structure Told where
  values : List Json
  index : Json

def Told.embedded (e : Told) : Embedded :=
  .vector (.arr e.values) e.index

/-- A reply off which these vectors are read. -/
structure Gives (read : VectorReader) (reply : Json) (told : List Told) : Prop where
  spoken : reply.field? "raise" = none
  vectors : read reply = .ok (told.map fun e => (.arr e.values, e.index))

variable {told : List Told} {read : VectorReader}

theorem Gives.parseEmbeddings {reply : Json} (h : Gives read reply told) :
    parseEmbeddings read reply = { data := some (told.map Told.embedded) } := by
  have hmeasured : measured read reply = .ok (told.map fun e => (.arr e.values, e.index)) := by
    rw [measured, h.vectors, ok_bind]
    cases told <;> rfl
  rw [DashScope.parseEmbeddings, Provider.parseEmbeddings, hmeasured]
  simp [Embeddings.ofVectors, Told.embedded, Function.comp_def]

section

variable {arguments : Fields} {texts : List Json} {reply : Json} {first : Told} {others : List Told}

theorem assembled_of_gives (hgives : Gives read reply (first :: others))
    (hcount : (first :: others).length = texts.countP isUsable) (fallback : Option Nat) :
    ∃ data, assembled read fallback texts reply = .ok { data := some data } ∧
      data.length = texts.length ∧
      ∀ i t, texts[i]? = some t → data[i]? =
        if isUsable t then ((first :: others)[(texts.take i).countP isUsable]?).map Told.embedded
        else some (.vector (zeros first.values.length) (.nat i)) := by
  have hfound : ((first :: others).map Told.embedded).length = texts.countP isUsable := by
    rw [length_map, hcount]
  obtain ⟨data, hdata, hlength, hplaces⟩ := refill_getElem? first.values.length 0 hfound
  refine ⟨data, ?_, hlength, fun i t ht => ?_⟩
  · rw [assembled, hgives.parseEmbeddings]
    split
    · next hall =>
      -- Laying out would change nothing, so here too the data are those laid out.
      have hsent : ∀ t ∈ texts, isUsable t = true := length_filter_eq_length_iff.1 hall
      rw [refill_of_usable _ _ hsent (by rw [hfound, countP_eq_length_filter, hall])] at hdata
      rw [Except.ok.inj hdata]
    · have hdimension : dimension? { data := some ((first :: others).map Told.embedded) } =
          some first.values.length := rfl
      rw [hdimension, Option.some_or, Option.getD_some, hdata]
      rfl
  · rw [hplaces i t ht, getElem?_map, Nat.zero_add]

/-- Of a list of texts the usable ones are sent, in their order. If the library reads one vector for
each of them off the reply, every text gets an entry: a usable one the vector that was read for it,
any other one zeros, as many as the first vector has values. -/
theorem call_in_place {h : Host} {replies : List Json}
    (hinput : Fields.get? "input" arguments = some (.arr texts))
    (husable : ∃ t ∈ texts, isUsable t = true) (hmodel : h.model = reply :: replies)
    (hgives : Gives h.library.read reply (first :: others))
    (hcount : (first :: others).length = (texts.filter isUsable).length) :
    ∃ data k, (call arguments .embedder).on h = (.ok (.embeddings { data := some data }), k) ∧
      k.calls = h.calls ++ [⟨"embeddings",
        .obj (Fields.set "input" (.arr (texts.filter isUsable)) arguments)⟩] ∧
      data.length = texts.length ∧
      ∀ i t, texts[i]? = some t → data[i]? =
        if isUsable t then ((first :: others)[(texts.take i).countP isUsable]?).map Told.embedded
        else some (.vector (zeros first.values.length) (.nat i)) := by
  rw [← List.countP_eq_length_filter] at hcount
  obtain ⟨data, hdata, hlength, hplaces⟩ := assembled_of_gives hgives hcount none
  have hlisted : (Fields.get? "input" arguments).bind textsOf = some texts := by rw [hinput]; rfl
  have hembed := embed_of_usable hlisted husable none h
  rw [asking_replied hmodel hgives.spoken, ok_bind, hdata] at hembed
  exact ⟨data, _, call_of_embed hembed, rfl, hlength, hplaces⟩

end

def twoVectors : Json :=
  .obj [("data", .arr [.obj [("embedding", .arr [.int 1, .int 2]), ("index", .int 0)],
    .obj [("embedding", .arr [.int 3]), ("index", .int 1)]])]

/-- A blank text stands before the texts and a value that is none between them. -/
theorem call_in_place_gaps :
    ∃ data k, (call (embedding [.str " ", .str "a", .null, .str "b"]) .embedder).on
        (replying twoVectors) = (.ok (.embeddings { data := some data }), k) ∧
      k.calls = [⟨"embeddings", .obj (embedding [.str "a", .str "b"])⟩] ∧ data.length = 4 ∧
      data[0]? = some (.vector (.arr [.real 0, .real 0]) (.nat 0)) ∧
      data[3]? = some (.vector (.arr [.int 3]) (.int 1)) := by
  have hsent : [Json.str " ", .str "a", .null, .str "b"].filter isUsable =
      [.str "a", .str "b"] := rfl
  have husable : ∃ t ∈ [Json.str " ", .str "a", .null, .str "b"], isUsable t = true :=
    ⟨.str "a", by simp, by decide⟩
  have hgives : Gives (replying twoVectors).library.read twoVectors
      [⟨[.int 1, .int 2], .int 0⟩, ⟨[.int 3], .int 1⟩] :=
    ⟨rfl, rfl⟩
  have hmodel : (replying twoVectors).model = [twoVectors] := rfl
  have hinput : Fields.get? "input" (embedding [.str " ", .str "a", .null, .str "b"]) =
      some (.arr [.str " ", .str "a", .null, .str "b"]) := rfl
  obtain ⟨data, k, hcall, hcalls, hlength, hplaces⟩ :=
    call_in_place hinput husable hmodel hgives (by rw [hsent]; rfl)
  rw [hsent] at hcalls
  exact ⟨data, k, hcall, hcalls, hlength, hplaces 0 _ rfl, hplaces 3 _ rfl⟩

end RepoWiki.Provider.DashScope
