import RepoWiki.Proofs.Provider.Batch
/-
Which document gets which vector.

Texts go to the service in batches, and the vectors that come back are laid out over the documents
in turn. After a batch that failed the layout goes on behind as many documents as were asked to be
in a batch, although a batch never holds more than the limit; after a failure without a word it goes
on where it was. So, where failures say something, each document gets the vector of its own text as
long as the batches are of the size that was asked for, or nothing succeeds after a failure;
otherwise some document does not.
-/

namespace RepoWiki.Provider.Batch

open Document Json List Run

variable {outcome o : Result Embeddings} {old vectors : List Vector}
  {outs : List (Result Embeddings)} {b k : Nat} {texts : List Json}

/-! ## Batches -/

/-- The parts of a list, `m` items each; the last one may be shorter. -/
def parts {α : Type} (m : Nat) (items : List α) : List (List α) :=
  (List.range ((items.length + m - 1) / m)).map fun j => (items.drop (j * m)).take m

theorem parts_nil {α : Type} (k : Nat) : parts (k + 1) ([] : List α) = [] := by
  simp [parts]

theorem parts_cons {α : Type} (k : Nat) (x : α) (rest : List α) :
    parts (k + 1) (x :: rest) = (x :: rest.take k) :: parts (k + 1) (rest.drop k) := by
  have hcount : ((x :: rest).length + (k + 1) - 1) / (k + 1) =
      ((rest.drop k).length + (k + 1) - 1) / (k + 1) + 1 := by
    rw [length_cons, length_drop]
    by_cases hk : k ≤ rest.length
    · have hsum : rest.length + 1 + (k + 1) - 1 = rest.length - k + (k + 1) - 1 + (k + 1) := by
        omega
      rw [hsum, Nat.add_div_right _ k.succ_pos]
    · have hfirst : rest.length + 1 + (k + 1) - 1 = rest.length + (k + 1) := by omega
      have hnone : rest.length - k + (k + 1) - 1 = k := by omega
      rw [hfirst, hnone, Nat.add_div_right _ k.succ_pos, Nat.div_eq_of_lt (by omega),
        Nat.div_eq_of_lt k.lt_succ_self]
  rw [parts, hcount, range_succ_eq_map, map_cons, map_map]
  congr 1
  · simp
  · refine map_congr_left fun j _ => ?_
    have hplace : (j + 1) * (k + 1) = k + j * (k + 1) + 1 := by rw [Nat.succ_mul]; omega
    simp only [Function.comp, hplace, drop_succ_cons, drop_drop]

theorem slices_eq_parts {α : Type} (k : Nat) (items : List α) :
    slices k items = parts (k + 1) items := by
  induction items using slices.induct k with
  | case1 => rw [slices, parts_nil]
  | case2 x rest ih => rw [slices, parts_cons, ih]

theorem flatten_parts {α : Type} (k : Nat) (items : List α) :
    (parts (k + 1) items).flatten = items := by
  rw [← slices_eq_parts]
  induction items using slices.induct k with
  | case1 => rw [slices, flatten_nil]
  | case2 x rest ih => rw [slices, flatten_cons, ih, cons_append, take_append_drop]

theorem length_of_mem_parts {α : Type} {items part : List α} (h : part ∈ parts (k + 1) items) :
    part ≠ [] ∧ part.length ≤ k + 1 := by
  rw [← slices_eq_parts] at h
  induction items using slices.induct k with
  | case1 =>
    rw [slices] at h
    cases h
  | case2 x rest ih =>
    rw [slices, mem_cons] at h
    rcases h with rfl | h
    · exact ⟨cons_ne_nil x _, Nat.succ_le_succ (length_take_le k rest)⟩
    · exact ih h

theorem length_of_mem_dropLast_parts {α : Type} {items part : List α}
    (h : part ∈ (parts (k + 1) items).dropLast) : part.length = k + 1 := by
  rw [← slices_eq_parts] at h
  induction items using slices.induct k with
  | case1 =>
    rw [slices] at h
    cases h
  | case2 x rest ih =>
    rw [slices] at h
    cases hrest : slices k (rest.drop k) with
    | nil =>
      rw [hrest] at h
      cases h
    | cons next more =>
      have hlong : k < rest.length := by
        refine Nat.lt_of_not_le fun hle => ?_
        rw [drop_eq_nil_of_le hle, slices] at hrest
        cases hrest
      rw [hrest, dropLast_cons_cons, ← hrest, mem_cons] at h
      rcases h with rfl | h
      · rw [length_cons, length_take_of_le (Nat.le_of_lt hlong)]
      · exact ih h

/-! ## What comes of a batch -/

def outcomes (embed : Embed) : List (List Json) → Host → List (Result Embeddings)
  | [], _ => []
  | texts :: rest, h => ((embed texts).on h).1 :: outcomes embed rest ((embed texts).on h).2

theorem outcomes_length (embed : Embed) (batches : List (List Json)) (h : Host) :
    (outcomes embed batches h).length = batches.length := by
  induction batches generalizing h with
  | nil => rfl
  | cons texts rest ih => rw [outcomes, length_cons, ih, length_cons]

theorem mem_outcomes {embed : Embed} {batches : List (List Json)} {h : Host}
    (ho : o ∈ outcomes embed batches h) : ∃ texts k, o = ((embed texts).on k).1 := by
  induction batches generalizing h with
  | nil => cases ho
  | cons texts rest ih =>
    rcases mem_cons.1 ho with rfl | ho
    · exact ⟨texts, h, rfl⟩
    · exact ih ho

def settled : Result Embeddings → Embeddings
  | .ok e => e
  | .error fault => .failed fault.message

def handed (embed : Embed) (batches : List (List Json)) (h : Host) : Host :=
  batches.foldl (fun h texts => ((embed texts).on h).2) h

theorem embedOne_all {embed : Embed} {batches : List (List Json)} {h : Host}
    (hexit : ∀ fault, .error fault ∈ outcomes embed batches h → isExit fault = false) :
    (batches.mapM (embedOne embed)).on h =
      (.ok ((outcomes embed batches h).map settled), handed embed batches h) := by
  induction batches generalizing h with
  | nil => exact on_pure _ h
  | cons texts rest ih =>
    have hone : (embedOne embed texts).on h =
        (.ok (settled ((embed texts).on h).1), ((embed texts).on h).2) := by
      rcases hrun : (embed texts).on h with ⟨fault | e, k⟩
      · have hfault := hexit fault (by rw [outcomes, hrun]; exact mem_cons_self)
        rw [embedOne, on_orElse_error hrun hfault, on_pure]
        rfl
      · exact on_orElse_ok hrun _
    have hrest := ih (h := ((embed texts).on h).2) fun fault hf =>
      hexit fault (mem_cons_of_mem _ hf)
    rw [mapM_cons, on_bind_ok hone, on_bind_ok hrest, on_pure, outcomes, map_cons]
    rfl

def failed : Result Embeddings → Bool
  | .ok e => e.error.getD "" != ""
  | .error _ => true

/-- What may come of a batch of some texts: a fault, a report of an error, or a vector for each of
them in order. -/
inductive Sound (count : Nat) : Result Embeddings → Prop where
  | raised (fault : Fault) (hexit : isExit fault = false) : Sound count (.error fault)
  | reported (e : Embeddings) (hfailed : failed (.ok e) = true) : Sound count (.ok e)
  | embedded (e : Embeddings) (hdone : failed (.ok e) = false) (vectors : List (List Json × Json))
      (hdata : e.data = some (vectors.map fun v => .vector (.arr v.1) v.2))
      (hcount : vectors.length = count) : Sound count (.ok e)

def vectorAt (outcome : Result Embeddings) (place : Nat) : Json :=
  match outcome with
  | .ok e =>
      if failed (.ok e) then .arr []
      else ((e.data.getD [])[place]?.bind Embedded.values?).getD (.arr [])
  | .error _ => .arr []

theorem vectorAt_failed (hf : failed outcome = true) (place : Nat) :
    vectorAt outcome place = .arr [] := by
  cases outcome with
  | ok e => rw [vectorAt, if_pos hf]
  | error fault => rfl

def vectorsIn (count : Nat) (outcome : Result Embeddings) : List Json :=
  (List.range count).map (vectorAt outcome)

theorem vectorsIn_failed (hf : failed outcome = true) (count : Nat) :
    vectorsIn count outcome = replicate count (.arr []) := by
  refine eq_replicate_iff.2 ⟨by rw [vectorsIn, length_map, length_range], ?_⟩
  intro v hv
  obtain ⟨place, _, rfl⟩ := mem_map.1 hv
  exact vectorAt_failed hf place

/-! ## Laying out the vectors -/

def Spoken (outcome : Result Embeddings) : Prop :=
  ∀ fault, outcome = .error fault → fault.message ≠ ""

theorem exceeds_nat (limit b : Nat) : exceeds limit (.nat b) = .ok (decide (limit < b)) := by
  simp [exceeds, nat, asInt?]

theorem vectorsOf_failed (b left : Nat) (hf : failed outcome = true) (hspoken : Spoken outcome) :
    vectorsOf (.nat b) left (settled outcome) = .ok (replicate (min b left) (.arr [])) := by
  have herror : (settled outcome).error.getD "" ≠ "" := by
    cases outcome with
    | ok e => simpa [failed, settled] using hf
    | error fault => exact hspoken fault rfl
  rw [vectorsOf, if_pos herror, exceeds_nat, ok_bind]
  by_cases hb : left < b
  · simp [hb, Nat.min_eq_right (Nat.le_of_lt hb), Pure.pure, Except.pure]
  · simp [hb, Nat.min_eq_left (Nat.le_of_not_lt hb), asCount, nat, asInt?, Pure.pure, Except.pure]

theorem vectorsOf_embedded (asked : Json) (left : Nat) {count : Nat} (hs : Sound count outcome)
    (hf : failed outcome = false) :
    vectorsOf asked left (settled outcome) = .ok (vectorsIn count outcome) := by
  cases hs with
  | raised fault _ => cases hf
  | reported e hfailed => rw [hfailed] at hf; cases hf
  | embedded e hdone vectors hdata hcount =>
    have herror : ¬ e.error.getD "" ≠ "" := by simpa [failed] using hdone
    rw [settled, vectorsOf, if_neg herror, hdata]
    refine congrArg Except.ok (ext_getElem ?_ fun i hi _ => ?_)
    · simp [vectorsIn, hcount]
    · have hi' : i < vectors.length := by simpa using hi
      simp [vectorsIn, vectorAt, hdone, hdata, hi', Embedded.values?]

theorem drop_min_length {α : Type} (n : Nat) (items : List α) :
    items.drop (min n items.length) = items.drop n := by
  rcases Nat.le_total n items.length with hn | hn
  · rw [Nat.min_eq_left hn]
  · rw [Nat.min_eq_right hn, drop_length, drop_of_length_le hn]

theorem assign_cons {asked : Json} {e : Embeddings} {found : List Json}
    (hfound : vectorsOf asked old.length e = .ok found) (hle : found.length ≤ old.length)
    (rest : List Embeddings) :
    assign asked old (e :: rest) =
      (assign asked (old.drop found.length) rest).map (found.map .value ++ ·) := by
  rw [assign, hfound, ok_bind]
  simp only [take_of_length_le hle]
  cases assign asked (old.drop found.length) rest <;> rfl

theorem assign_failed (b : Nat) (hf : ∀ o ∈ outs, failed o = true)
    (hspoken : ∀ o ∈ outs, Spoken o) (old : List Vector) (rest : List Embeddings) :
    assign (.nat b) old (outs.map settled ++ rest) =
      (assign (.nat b) (old.drop (outs.length * b)) rest).map
        (replicate (min (outs.length * b) old.length) Vector.empty ++ ·) := by
  induction outs generalizing old with
  | nil => cases h : assign (.nat b) old rest <;> simp [h, Except.map]
  | cons o outs ih =>
    have hfound := vectorsOf_failed b old.length (hf o mem_cons_self)
      (hspoken o mem_cons_self)
    have hle : (replicate (min b old.length) (arr [])).length ≤ old.length :=
      length_replicate ▸ Nat.min_le_right b old.length
    rw [map_cons, cons_append, assign_cons hfound hle,
      ih (fun p hp => hf p (mem_cons_of_mem o hp))
        fun p hp => hspoken p (mem_cons_of_mem o hp)]
    have hcount : min ((outs.length + 1) * b) old.length =
        min b old.length + min (outs.length * b) (old.length - b) := by
      rw [Nat.succ_mul]
      omega
    rw [length_replicate, drop_min_length, drop_drop, length_drop,
      map_replicate, length_cons, hcount, Nat.succ_mul, Nat.add_comm b,
      ← replicate_append_replicate]
    cases assign (.nat b) (old.drop (outs.length * b + b)) rest with
    | error fault => rfl
    | ok vectors => exact congrArg Except.ok (append_assoc _ _ _).symm

theorem assign_failed_at (hf : ∀ o ∈ outs, failed o = true) (hspoken : ∀ o ∈ outs, Spoken o)
    {rest : List Embeddings}
    (hassign : assign (.nat b) old (outs.map settled ++ rest) = .ok vectors) {i : Nat}
    (hi : i < outs.length * b) (hold : i < old.length) :
    vectors[i]? = some .empty := by
  rw [assign_failed b hf hspoken] at hassign
  cases hrest : assign (.nat b) (old.drop (outs.length * b)) rest with
  | error fault => rw [hrest] at hassign; cases hassign
  | ok later =>
    rw [hrest] at hassign
    have hin : i < min (outs.length * b) old.length := Nat.lt_min.2 ⟨hi, hold⟩
    rw [← Except.ok.inj hassign, getElem?_append_left (by rwa [length_replicate]),
      getElem?_replicate, if_pos hin]

def ownVector (m : Nat) (outs : List (Result Embeddings)) (i : Nat) : Json :=
  (outs[i / m]?.map fun o => vectorAt o (i % m)).getD (.arr [])

def ownVectors (m : Nat) (outs : List (Result Embeddings)) (n : Nat) : List Json :=
  (List.range n).map (ownVector m outs)

theorem ownVectors_cons (k : Nat) (o : Result Embeddings) (outs : List (Result Embeddings))
    (n : Nat) :
    ownVectors (k + 1) (o :: outs) n =
      vectorsIn (min (k + 1) n) o ++ ownVectors (k + 1) outs (n - (k + 1)) := by
  refine ext_getElem ?_ fun i hi _ => ?_
  · simp [ownVectors, vectorsIn]
    omega
  · have hn : i < n := by simpa [ownVectors] using hi
    rw [getElem_append]
    split
    · next hfirst =>
      have hk : i < k + 1 := by simp [vectorsIn] at hfirst; omega
      simp [ownVectors, vectorsIn, ownVector, Nat.div_eq_of_lt hk, Nat.mod_eq_of_lt hk]
    · next hlater =>
      have hk : k + 1 ≤ i := by simp [vectorsIn] at hlater; omega
      obtain ⟨j, rfl⟩ := Nat.exists_eq_add_of_le hk
      have hj : k + 1 + j - min (k + 1) n = j := by omega
      simp [ownVectors, vectorsIn, ownVector, hj]

theorem ownVectors_failed (hf : ∀ o ∈ outs, failed o = true) (m n : Nat) :
    ownVectors m outs n = replicate n (.arr []) := by
  refine eq_replicate_iff.2 ⟨by rw [ownVectors, length_map, length_range], ?_⟩
  intro v hv
  obtain ⟨i, _, rfl⟩ := mem_map.1 hv
  unfold ownVector
  cases ho : outs[i / m]? with
  | none => rfl
  | some o => exact vectorAt_failed (hf o (mem_of_getElem? ho)) _

theorem length_le_parts {α : Type} (k : Nat) (items : List α) :
    items.length ≤ (parts (k + 1) items).length * (k + 1) := by
  induction items using slices.induct k with
  | case1 => exact Nat.zero_le _
  | case2 x rest ih =>
    rw [parts_cons, length_cons, length_cons, Nat.succ_mul]
    rw [length_drop] at ih
    omega

theorem mul_lt_of_lt_parts {α : Type} {j : Nat} {items : List α}
    (hj : j < (parts (k + 1) items).length) : j * (k + 1) < items.length := by
  rw [parts, length_map, length_range,
    Nat.lt_div_iff_mul_lt (Nat.zero_lt_of_ne_zero k.succ_ne_zero : 0 < k + 1)] at hj
  omega

def FailedLast (outs : List (Result Embeddings)) : Prop :=
  outs.Pairwise fun o p => failed o = true → failed p = true

theorem FailedLast.all (h : FailedLast (o :: outs)) (hf : failed o = true) :
    ∀ p ∈ o :: outs, failed p = true := by
  intro p hp
  rcases mem_cons.1 hp with rfl | hp
  · exact hf
  · exact (pairwise_cons.1 h).1 p hp hf

theorem FailedLast.of_all (h : ∀ o ∈ outs, failed o = true) :
    FailedLast outs := by
  induction outs with
  | nil => exact List.Pairwise.nil
  | cons o outs ih =>
    exact pairwise_cons.2 ⟨fun p hp _ => h p (mem_cons_of_mem o hp),
      ih fun p hp => h p (mem_cons_of_mem o hp)⟩

theorem assign_own_cons (hs : Sound (min (k + 1) old.length) o) (hspoken : Spoken o)
    (hsize : failed o = true → b = k + 1) :
    assign (.nat b) old ((o :: outs).map settled) =
        .ok ((ownVectors (k + 1) (o :: outs) old.length).map .value) ↔
      assign (.nat b) (old.drop (k + 1)) (outs.map settled) =
        .ok ((ownVectors (k + 1) outs (old.drop (k + 1)).length).map .value) := by
  have hfound : vectorsOf (.nat b) old.length (settled o) =
      .ok (vectorsIn (min (k + 1) old.length) o) := by
    cases hf : failed o with
    | false => exact vectorsOf_embedded _ _ hs hf
    | true => rw [vectorsOf_failed b old.length hf hspoken, vectorsIn_failed hf, hsize hf]
  have hlength : (vectorsIn (min (k + 1) old.length) o).length = min (k + 1) old.length := by
    simp [vectorsIn]
  rw [map_cons, assign_cons hfound (by omega), hlength, drop_min_length, ownVectors_cons,
    map_append, length_drop]
  cases assign (.nat b) (old.drop (k + 1)) (outs.map settled) with
  | error fault => simp [Except.map]
  | ok vectors => simp [Except.map]

/-- Each text gets its own vector if batches have the size that was asked for, or nothing succeeds
after a failure. -/
theorem assign_own (hb : k + 1 ≤ b) (hold : old.length = texts.length)
    (hlen : outs.length = (parts (k + 1) texts).length)
    (hsound : ∀ x ∈ (parts (k + 1) texts).zip outs, Sound x.1.length x.2)
    (hspoken : ∀ o ∈ outs, Spoken o) (hplace : b = k + 1 ∨ FailedLast outs) :
    assign (.nat b) old (outs.map settled) =
      .ok ((ownVectors (k + 1) outs texts.length).map .value) := by
  induction texts using slices.induct k generalizing old outs with
  | case1 =>
    rw [parts_nil] at hlen
    rw [length_eq_zero_iff.1 hlen, length_eq_zero_iff.1 hold]
    rfl
  | case2 x rest ih =>
    have hcount := length_le_parts k (x :: rest)
    rw [← hlen] at hcount
    rw [parts_cons] at hlen hsound
    obtain ⟨o, os, rfl⟩ := exists_cons_of_length_eq_add_one hlen
    by_cases hstop : failed o = true → b = k + 1
    · have hmin : (x :: rest.take k).length = min (k + 1) old.length := by
        simp [hold]
      have hs : Sound (min (k + 1) old.length) o :=
        hmin ▸ hsound (x :: rest.take k, o) mem_cons_self
      have hold' : (old.drop (k + 1)).length = (rest.drop k).length := by simp [hold]
      rw [← hold, assign_own_cons hs (hspoken o mem_cons_self) hstop, hold']
      exact ih hold' (Nat.succ.inj hlen) (fun y hy => hsound y (mem_cons_of_mem _ hy))
        (fun p hp => hspoken p (mem_cons_of_mem o hp))
        (hplace.imp_right fun h => (pairwise_cons.1 h).2)
    · -- A failure before the last one is laid out too far, over batches that failed as well.
      obtain ⟨hf, hne⟩ := Classical.not_imp.1 hstop
      have hall := (hplace.resolve_left hne).all hf
      have hreach : old.length ≤ (o :: os).length * b :=
        hold ▸ Nat.le_trans hcount (Nat.mul_le_mul_left _ hb)
      have hassign := assign_failed b hall hspoken old []
      rw [append_nil, drop_of_length_le hreach, Nat.min_eq_right hreach] at hassign
      rw [hassign, ownVectors_failed hall, hold]
      simp [assign, Except.map, Vector.empty]

def Full (count : Nat) (outcome : Result Embeddings) : Prop :=
  failed outcome = false → ∀ place < count, vectorAt outcome place ≠ .arr []

theorem exists_first_success (h : ∃ o ∈ outs, failed o = false) :
    ∃ before o after, outs = before ++ o :: after ∧ (∀ p ∈ before, failed p = true) ∧
      failed o = false := by
  obtain ⟨o, ho⟩ := Option.isSome_iff_exists.1
    (find?_isSome.2 (by simpa using h) : (outs.find? fun o => !failed o).isSome = true)
  obtain ⟨hdone, before, after, houts, hbefore⟩ := find?_eq_some_iff_append.1 ho
  exact ⟨before, o, after, houts, by simpa using hbefore, by simpa using hdone⟩

/-- After a failure, where more was asked to be in a batch than there was, the first text of the
next batch that succeeded is left without its vector. -/
theorem assign_past_failure (hb : k + 1 < b) (hold : old.length = texts.length)
    (hlen : (o :: outs).length = (parts (k + 1) texts).length)
    (hfull : ∀ x ∈ (parts (k + 1) texts).zip (o :: outs), Full x.1.length x.2)
    (hspoken : ∀ p ∈ o :: outs, Spoken p) (hf : failed o = true)
    (hdone : ∃ p ∈ outs, failed p = false) :
    assign (.nat b) old ((o :: outs).map settled) ≠
      .ok ((ownVectors (k + 1) (o :: outs) texts.length).map .value) := by
  obtain ⟨before, s, after, rfl, hbefore, hs⟩ := exists_first_success hdone
  have hall : ∀ p ∈ o :: before, failed p = true := by
    intro p hp
    rcases mem_cons.1 hp with rfl | hp
    · exact hf
    · exact hbefore p hp
  have hl : before.length + 1 < (parts (k + 1) texts).length := by
    rw [← hlen]
    simp
  have hn := mul_lt_of_lt_parts hl
  have hspoken' : ∀ p ∈ o :: before, Spoken p := fun p hp =>
    hspoken p (by rw [← cons_append]; exact mem_append_left _ hp)
  intro hassign
  rw [← cons_append, map_append] at hassign
  -- The first text of the batch that succeeded has a vector, and gets an empty one.
  have hempty := assign_failed_at hall hspoken' hassign
    (Nat.mul_lt_mul_of_pos_left hb before.length.succ_pos) (hold ▸ hn)
  have hown : ownVector (k + 1) (o :: (before ++ s :: after)) ((before.length + 1) * (k + 1)) =
      vectorAt s 0 := by
    simp [ownVector, Nat.mul_div_cancel _ k.succ_pos]
  have hfirst : vectorAt s 0 = .arr [] := by
    simpa [ownVectors, hn, hown, Vector.empty] using hempty
  have hpair : ((parts (k + 1) texts)[before.length + 1], s) ∈
      (parts (k + 1) texts).zip (o :: (before ++ s :: after)) := by
    refine mem_iff_getElem.2 ⟨before.length + 1, ?_, ?_⟩
    · simp at hl ⊢
      omega
    · simp
  exact hfull _ hpair hs 0 (by simp [parts]; omega) hfirst

theorem assign_not_own (hb : k + 1 < b) (hold : old.length = texts.length)
    (hlen : outs.length = (parts (k + 1) texts).length)
    (hsound : ∀ x ∈ (parts (k + 1) texts).zip outs, Sound x.1.length x.2)
    (hfull : ∀ x ∈ (parts (k + 1) texts).zip outs, Full x.1.length x.2)
    (hspoken : ∀ o ∈ outs, Spoken o) (hplace : ¬ FailedLast outs) :
    assign (.nat b) old (outs.map settled) ≠
      .ok ((ownVectors (k + 1) outs texts.length).map .value) := by
  induction texts using slices.induct k generalizing old outs with
  | case1 =>
    rw [parts_nil] at hlen
    rw [length_eq_zero_iff.1 hlen] at hplace
    exact absurd List.Pairwise.nil hplace
  | case2 x rest ih =>
    cases outs with
    | nil => exact absurd List.Pairwise.nil hplace
    | cons o os =>
      cases hf : failed o with
      | true =>
        refine assign_past_failure hb hold hlen hfull hspoken hf ?_
        refine Classical.byContradiction fun hnone => hplace (.of_all fun p hp => ?_)
        rcases mem_cons.1 hp with rfl | hp
        · exact hf
        · exact Bool.of_not_eq_false fun hp' => hnone ⟨p, hp, hp'⟩
      | false =>
        rw [parts_cons] at hlen hsound hfull
        have hmin : (x :: rest.take k).length = min (k + 1) old.length := by simp [hold]
        have hs : Sound (min (k + 1) old.length) o :=
          hmin ▸ hsound (x :: rest.take k, o) mem_cons_self
        have hold' : (old.drop (k + 1)).length = (rest.drop k).length := by simp [hold]
        have hsize : failed o = true → b = k + 1 := fun hfo => by simp [hf] at hfo
        rw [← hold, Ne, assign_own_cons hs (hspoken o mem_cons_self) hsize, hold']
        exact ih hold' (Nat.succ.inj hlen) (fun y hy => hsound y (mem_cons_of_mem _ hy))
          (fun y hy => hfull y (mem_cons_of_mem _ hy))
          (fun p hp => hspoken p (mem_cons_of_mem o hp))
          (fun h => hplace (pairwise_cons.2 ⟨fun p _ hfo => by simp [hf] at hfo, h⟩))

/-! ## Documents -/

theorem size_nat (b : Nat) : size (.nat b) = .ok (.nat (min b 25)) := by
  rw [size, show limit = ((25 : Nat) : Int) from rfl, exceeds_nat, ok_bind]
  by_cases hb : 25 < b
  · rw [Nat.min_eq_right (Nat.le_of_lt hb)]
    simp [hb, nat, Pure.pure, Except.pure]
  · rw [Nat.min_eq_left (Nat.le_of_not_lt hb)]
    simp [hb, Pure.pure, Except.pure]

theorem batches_nat {m : Nat} (hm : 0 < m) (texts : List Json) :
    batches (.nat m) (.arr texts) = .ok (parts m texts) := by
  obtain ⟨k, rfl⟩ := Nat.exists_eq_succ_of_ne_zero (Nat.ne_of_gt hm)
  rw [← slices_eq_parts]
  rfl

theorem stored?_of_not_exists {tree : FileTree} {file : String} (h : tree.exists? file = false) :
    stored? tree file = none := by
  cases hopen : tree.open? file with
  | error fault => rw [stored?, hopen]
  | ok c =>
    obtain ⟨place, m, hplace, hfile⟩ := FileTree.open?_eq_ok.1 hopen
    simp [FileTree.exists?, FileTree.find?, hplace, hfile] at h

theorem run_outcomes {embed : Embed} {label : Label} (again : Bool) {h : Host} (hb : 0 < b)
    (hstored : again = true ∨ stored? h.tree (path label.stem) = none)
    (houts : outs = outcomes embed (parts (min b 25) texts) h)
    (hexit : ∀ fault, .error fault ∈ outs → isExit fault = false) :
    (run embed (.nat (min b 25)) label again (.arr texts)).on h =
      (.ok (outs.map settled), { handed embed (parts (min b 25) texts) h with
        tree := leave (path label.stem) (outs.map settled)
          (handed embed (parts (min b 25) texts) h).tree }) := by
  subst houts
  have hbatches : batches (.nat (min b 25)) (listed (.arr texts)) = .ok (parts (min b 25) texts) :=
    batches_nat (by omega) texts
  rw [run_fresh embed (.nat (min b 25)) again (.arr texts) hstored, fresh, on_lift_bind, hbatches,
    next_ok, embedOne_all hexit]

theorem embedDocuments_on {embed : Embed} {label : Label} (again : Bool)
    (documents : List Document) (hb : 0 < b) {h : Host}
    (hfile : h.tree.exists? (path label.stem) = false)
    (houts : outs = outcomes embed (parts (min b 25) (documents.map fun d => .str d.text)) h)
    (hexit : ∀ fault, .error fault ∈ outs → isExit fault = false) :
    ((embedDocuments embed (.nat b) label again documents).on h).1 = do
      let vectors ← assign (.nat b) (documents.map vector) (outs.map settled)
      vectors.forM checkVector
      return documents.zipWith (fun d v => { d with vector := v }) vectors := by
  have hrun := run_outcomes again hb (.inr (stored?_of_not_exists hfile)) houts hexit
  rw [embedDocuments, vectorsFor, size_nat, bind_assoc, on_lift_bind, next_ok, bind_assoc,
    on_bind_ok hrun, bind_assoc, on_lift_bind]
  cases assign (.nat b) (documents.map vector) (outs.map settled) with
  | error fault => rfl
  | ok vectors =>
    rw [next_ok, bind_assoc, on_lift_bind, ok_bind]
    cases vectors.forM checkVector with
    | error fault => rfl
    | ok u => exact congrArg Prod.fst (on_pure _ _)

theorem assign_length {asked : Json} {results : List Embeddings}
    (h : assign asked old results = .ok vectors) : vectors.length = old.length := by
  induction results generalizing old vectors with
  | nil =>
    obtain rfl := Except.ok.inj h
    rfl
  | cons e results ih =>
    obtain ⟨found, -, h⟩ := except_bind_eq_ok.1 h
    obtain ⟨later, hlater, h⟩ := except_bind_eq_ok.1 h
    rw [except_pure_eq_ok] at h
    rw [← h, length_append, length_map, ih hlater, length_drop, length_take]
    omega

theorem vectorAt_list {count : Nat} (hs : Sound count outcome) (place : Nat) :
    ∃ values, vectorAt outcome place = .arr values := by
  cases hs with
  | raised fault _ => exact ⟨[], rfl⟩
  | reported e hfailed => exact ⟨[], vectorAt_failed hfailed place⟩
  | embedded e hdone vectors hdata hcount =>
    rw [vectorAt, hdone, hdata]
    cases hv : vectors[place]? with
    | none => exact ⟨[], by simp [hv]⟩
    | some v => exact ⟨v.1, by simp [hv, Embedded.values?]⟩

theorem forM_checkVector (h : ∀ v ∈ vectors, ∃ values, v = .value (.arr values)) :
    vectors.forM checkVector = .ok () := by
  induction vectors with
  | nil => rfl
  | cons v vectors ih =>
    obtain ⟨values, rfl⟩ := h v mem_cons_self
    have hcheck : checkVector (.value (.arr values)) = .ok () := by
      rw [checkVector]
      split <;> rfl
    rw [List.forM, hcheck, ok_bind]
    exact ih fun w hw => h w (mem_cons_of_mem _ hw)

def withOwn (m : Nat) (outs : List (Result Embeddings)) (documents : List Document) :
    List Document :=
  documents.mapIdx fun i d => { d with vector := .value (ownVector m outs i) }

theorem zipWith_eq_withOwn {m : Nat} {documents : List Document}
    (hlength : vectors.length = documents.length) :
    documents.zipWith (fun d v => { d with vector := v }) vectors = withOwn m outs documents ↔
      vectors = (ownVectors m outs documents.length).map .value := by
  constructor
  · intro h
    refine ext_getElem (by simp [ownVectors, hlength]) fun i hi _ => ?_
    have hd : i < documents.length := hlength ▸ hi
    have hi' := congrArg (fun ds => ds[i]?.map vector) h
    simpa [withOwn, ownVectors, getElem?_zipWith, hi, hd] using hi'
  · rintro rfl
    refine ext_getElem (by simp [withOwn, ownVectors]) fun i hi _ => ?_
    simp [withOwn, ownVectors]

/-- What may come of the batches of some documents: each outcome is sound, and its fault, if it is
one, says something. -/
def Behaves (batches : List (List Json)) (outs : List (Result Embeddings)) : Prop :=
  ∀ x ∈ batches.zip outs, Sound x.1.length x.2 ∧ Spoken x.2

theorem Behaves.of_mem {batches : List (List Json)} (h : Behaves batches outs)
    (hlen : outs.length = batches.length) (ho : o ∈ outs) :
    (∃ count, Sound count o) ∧ Spoken o := by
  obtain ⟨i, hi, rfl⟩ := mem_iff_getElem.1 ho
  have hx : (batches[i], outs[i]) ∈ batches.zip outs :=
    mem_iff_getElem.2 ⟨i, by simp; omega, by simp⟩
  exact ⟨⟨batches[i].length, (h _ hx).1⟩, (h _ hx).2⟩

section Outcomes

variable {embed : Embed} {label : Label} (again : Bool) (documents : List Document) {b : Nat}
  {h : Host} {batches : List (List Json)} {outs : List (Result Embeddings)}

theorem embedDocuments_eq_withOwn_iff (hb : 0 < b)
    (hfile : h.tree.exists? (path label.stem) = false)
    (hbatches : batches = parts (min b 25) (documents.map fun d => .str d.text))
    (houts : outs = outcomes embed batches h) (hbehaves : Behaves batches outs) :
    ((embedDocuments embed (.nat b) label again documents).on h).1 =
        .ok (withOwn (min b 25) outs documents) ↔
      assign (.nat b) (documents.map vector) (outs.map settled) =
        .ok ((ownVectors (min b 25) outs documents.length).map .value) := by
  have hlen : outs.length = batches.length := houts ▸ outcomes_length embed batches h
  have hexit : ∀ fault, .error fault ∈ outs → isExit fault = false := by
    intro fault hf
    obtain ⟨⟨count, hs⟩, -⟩ := hbehaves.of_mem hlen hf
    cases hs with
    | raised _ hexit => exact hexit
  rw [embedDocuments_on again documents hb hfile (hbatches ▸ houts) hexit]
  constructor
  · intro hdone
    obtain ⟨vectors, hassign, hrest⟩ := except_bind_eq_ok.1 hdone
    obtain ⟨-, -, hzip⟩ := except_bind_eq_ok.1 hrest
    have hlength : vectors.length = documents.length := by
      rw [assign_length hassign, length_map]
    rw [hassign, (zipWith_eq_withOwn hlength).1 (except_pure_eq_ok.1 hzip)]
  · intro hassign
    have hlists : ∀ v ∈ (ownVectors (min b 25) outs documents.length).map Vector.value,
        ∃ values, v = .value (.arr values) := by
      intro v hv
      obtain ⟨w, hw, rfl⟩ := mem_map.1 hv
      obtain ⟨i, -, rfl⟩ := mem_map.1 hw
      unfold ownVector
      cases ho : outs[i / min b 25]? with
      | none => exact ⟨[], rfl⟩
      | some o =>
        obtain ⟨⟨count, hs⟩, -⟩ := hbehaves.of_mem hlen (mem_of_getElem? ho)
        obtain ⟨values, hvalues⟩ := vectorAt_list hs (i % min b 25)
        exact ⟨values, congrArg Vector.value hvalues⟩
    rw [hassign, ok_bind, forM_checkVector hlists, ok_bind, except_pure_eq_ok]
    exact (zipWith_eq_withOwn (by simp [ownVectors])).2 rfl

/-- Where no results are kept, each document gets the vector of its own text, and the empty one if
its batch failed, as long as the size that was asked for is within the limit or nothing succeeds
after a failure. Where no vector of a text is empty itself, that is the only case. -/
theorem embedDocuments_own (hb : 0 < b) (hfile : h.tree.exists? (path label.stem) = false)
    (hbatches : batches = parts (min b 25) (documents.map fun d => .str d.text))
    (houts : outs = outcomes embed batches h) (hbehaves : Behaves batches outs) :
    (b ≤ 25 ∨ FailedLast outs →
      ((embedDocuments embed (.nat b) label again documents).on h).1 =
        .ok (withOwn (min b 25) outs documents)) ∧
    ((∀ x ∈ batches.zip outs, Full x.1.length x.2) →
      ((embedDocuments embed (.nat b) label again documents).on h).1 =
        .ok (withOwn (min b 25) outs documents) → b ≤ 25 ∨ FailedLast outs) := by
  have hlen : outs.length = batches.length := houts ▸ outcomes_length embed batches h
  have hspoken : ∀ o ∈ outs, Spoken o := fun o ho => (hbehaves.of_mem hlen ho).2
  have hold : (documents.map vector).length =
      (documents.map fun d => str d.text).length := by
    rw [List.length_map, List.length_map]
  rw [embedDocuments_eq_withOwn_iff again documents hb hfile hbatches houts hbehaves,
    ← List.length_map (fun d : Document => str d.text)]
  obtain ⟨k, hk⟩ : ∃ k, min b 25 = k + 1 := Nat.exists_eq_succ_of_ne_zero (by omega)
  rw [hk] at hbatches ⊢
  subst hbatches
  constructor
  · intro hplace
    exact assign_own (by omega) hold hlen (fun x hx => (hbehaves x hx).1) hspoken
      (hplace.imp_left fun hle => by omega)
  · intro hfull hassign
    refine Classical.byContradiction fun hplace => ?_
    obtain ⟨hlarge, hmixed⟩ := not_or.1 hplace
    exact assign_not_own (by omega) hold hlen (fun x hx => (hbehaves x hx).1) hfull hspoken hmixed
      hassign

end Outcomes

/-! ## One text more than a batch holds -/

def single : Embeddings :=
  { data := some [.vector (.arr [.int 1]) (.int 0)] }

def narrow (fault : Fault) : Embed := fun texts =>
  if texts.length = 1 then pure single else throw fault

theorem parts_one_more (h : texts.length = k + 2) :
    ∃ first last, parts (k + 1) texts = [first, [last]] ∧ first.length = k + 1 := by
  obtain ⟨x, rest, rfl⟩ := exists_cons_of_length_eq_add_one h
  have hrest : rest.length = k + 1 := Nat.succ.inj h
  obtain ⟨last, hlast⟩ := length_eq_one_iff.1
    (by rw [length_drop]; omega : (rest.drop k).length = 1)
  refine ⟨x :: rest.take k, last, ?_, by simp; omega⟩
  rw [parts_cons, hlast, parts_cons, take_nil, drop_nil, parts_nil]

theorem narrow_outcomes (hk : 0 < k) (h : texts.length = k + 2) (fault : Fault) (host : Host) :
    outcomes (narrow fault) (parts (k + 1) texts) host = [.error fault, .ok single] := by
  obtain ⟨first, last, hparts, hfirst⟩ := parts_one_more h
  have hmany : narrow fault first = throw fault := if_neg (by omega)
  have hone : narrow fault [last] = pure single := if_pos rfl
  rw [hparts, outcomes, outcomes, outcomes, hmany, hone, on_throw, on_pure]

def tooMany : Fault :=
  .value "too many"

theorem tooMany_spoken : Spoken (.error tooMany) := by
  rintro fault ⟨⟩
  decide

theorem narrow_behaves (h : texts.length = k + 2) :
    Behaves (parts (k + 1) texts) [.error tooMany, .ok single] := by
  obtain ⟨first, last, hparts, -⟩ := parts_one_more h
  intro x hx
  rw [hparts] at hx
  rcases mem_cons.1 hx with rfl | hx
  · exact ⟨.raised _ rfl, tooMany_spoken⟩
  · obtain rfl := mem_singleton.1 hx
    refine ⟨.embedded single (by decide) [([.int 1], .int 0)] rfl rfl, ?_⟩
    rintro fault ⟨⟩

def documentsOf (count : Nat) : List Document :=
  (List.range count).map fun i => { text := toString i }

def clearHost : Host :=
  { tree := workplace }

def usual : Label :=
  ⟨"default", "Embedder"⟩

theorem clearHost_file : clearHost.tree.exists? (path usual.stem) = false := by
  decide

theorem length_texts (count : Nat) :
    ((documentsOf count).map fun d => str d.text).length = count := by
  simp [documentsOf]

/-- Whatever the embedder does with them, it is handed consecutive slices of the texts, none of them
empty or longer than the size and the limit, and there is one result for each slice in order. -/
theorem run_slices {embed : Embed} {label : Label} {again : Bool} {h : Host} (hb : 0 < b)
    (hstored : again = true ∨ stored? h.tree (path label.stem) = none)
    (hexit : ∀ texts k fault, ((embed texts).on k).1 = .error fault → isExit fault = false) :
    size (.nat b) = .ok (.nat (min b 25)) ∧ ∃ slices : List (List Json),
      slices.flatten = texts ∧ (∀ slice ∈ slices, slice ≠ [] ∧ slice.length ≤ min b 25) ∧
      (∀ slice ∈ slices.dropLast, slice.length = min b 25) ∧
      (run embed (.nat (min b 25)) label again (.arr texts)).on h =
        (.ok ((outcomes embed slices h).map settled), { handed embed slices h with
          tree := leave (path label.stem) ((outcomes embed slices h).map settled)
            (handed embed slices h).tree }) := by
  obtain ⟨k, hk⟩ : ∃ k, min b 25 = k + 1 := Nat.exists_eq_succ_of_ne_zero (by omega)
  have hrun : (run embed (.nat (min b 25)) label again (.arr texts)).on h = _ :=
    run_outcomes again hb hstored rfl fun fault hf => by
      obtain ⟨slice, k, ho⟩ := mem_outcomes hf
      exact hexit slice k fault ho.symm
  refine ⟨size_nat b, parts (min b 25) texts, ?_, ?_, ?_, hrun⟩ <;> rw [hk]
  · exact flatten_parts k texts
  · exact fun _ => length_of_mem_parts
  · exact fun _ => length_of_mem_dropLast_parts

theorem run_slices_narrow :
    size (.nat 2) = .ok (.nat 2) ∧ ∃ slices : List (List Json),
      slices.flatten = [.str "a", .str "b", .str "c"] ∧
      (∀ slice ∈ slices, slice ≠ [] ∧ slice.length ≤ 2) ∧
      (∀ slice ∈ slices.dropLast, slice.length = 2) ∧
      (run (narrow tooMany) (.nat 2) usual false (.arr [.str "a", .str "b", .str "c"])).on
        clearHost = (.ok ((outcomes (narrow tooMany) slices clearHost).map settled),
          { handed (narrow tooMany) slices clearHost with
            tree := leave (path usual.stem)
              ((outcomes (narrow tooMany) slices clearHost).map settled)
              (handed (narrow tooMany) slices clearHost).tree }) := by
  refine run_slices (by decide) (.inr (stored?_of_not_exists clearHost_file)) ?_
  intro texts k fault hfault
  rw [narrow, on_ite] at hfault
  split at hfault
  · rw [on_pure] at hfault
    cases hfault
  · rw [on_throw] at hfault
    obtain rfl := Except.error.inj hfault
    rfl

theorem embedDocuments_own_last_of_three :
    ((embedDocuments (narrow tooMany) (.nat 2) usual false (documentsOf 3)).on clearHost).1 =
      .ok [{ text := "0", vector := .empty }, { text := "1", vector := .empty },
        { text := "2", vector := .value (.arr [.int 1]) }] :=
  (embedDocuments_own false (documentsOf 3) (by decide : 0 < 2) clearHost_file rfl
    (narrow_outcomes (by decide) (length_texts 3) tooMany clearHost).symm
    (narrow_behaves (length_texts 3))).1 (.inl (by decide))

theorem narrow_silent :
    ((embedDocuments (narrow (.value "")) (.nat 2) usual false (documentsOf 3)).on
      clearHost).1 =
      .ok [{ text := "0", vector := .value (.arr [.int 1]) }, { text := "1" },
        { text := "2" }] := by
  have hexit : ∀ fault, .error fault ∈ [(.error (.value "") : Result Embeddings), .ok single] →
      isExit fault = false := by
    simp [isExit]
  rw [embedDocuments_on false (documentsOf 3) (by decide : 0 < 2) clearHost_file
    (narrow_outcomes (by decide) (length_texts 3) _ clearHost).symm hexit]
  rfl

/-- The two ways in which vectors go to documents of other texts. -/
theorem vectors_astray :
    ((embedDocuments (narrow tooMany) (.nat 26) usual false (documentsOf 26)).on clearHost).1 ≠
        .ok (withOwn 25 [.error tooMany, .ok single] (documentsOf 26)) ∧
      ((embedDocuments (narrow (.value "")) (.nat 2) usual false (documentsOf 3)).on
        clearHost).1 ≠ .ok (withOwn 2 [.error (.value ""), .ok single] (documentsOf 3)) := by
  constructor <;> intro hown
  · have hassign : assign (.nat 26) ((documentsOf 26).map vector)
        ([.error tooMany].map settled ++ [single]) =
          .ok ((ownVectors 25 [.error tooMany, .ok single] (documentsOf 26).length).map .value) :=
      (embedDocuments_eq_withOwn_iff false (documentsOf 26) (by decide : 0 < 26) clearHost_file rfl
        (narrow_outcomes (by decide) (length_texts 26) tooMany clearHost).symm
        (narrow_behaves (length_texts 26))).1 hown
    have hlast := assign_failed_at (i := 25) (by decide)
      (fun o ho => mem_singleton.1 ho ▸ tooMany_spoken) hassign (by decide)
      (by simp [documentsOf])
    have hone : ownVector 25 [.error tooMany, .ok single] 25 = .arr [.int 1] := rfl
    simp [ownVectors, documentsOf, hone, Vector.empty] at hlast
  · have hfirst : (withOwn 2 [.error (.value ""), .ok single] (documentsOf 3))[0]? =
        some { text := "0", vector := .empty } := rfl
    rw [narrow_silent] at hown
    rw [← Except.ok.inj hown] at hfirst
    simp [Vector.empty] at hfirst

end RepoWiki.Provider.Batch
