import RepoWiki.Index.Validation
import RepoWiki.Proofs.Run
/-
Which documents pass the check of their vectors.

The sizes are gone through twice: once to find the most frequent one, and once more to keep the
documents that have it. The first pass leaves out empty vectors and the second does not, but it
looks for a size that is not zero, so both see the same documents. `Prevails` says which size is
looked for without either pass: it is had by most documents, and of several such sizes it is seen
first.
-/

namespace RepoWiki

open List

/-- The sizes of vectors. Nothing else has one: there may be no vector, or a value without a length,
or an array without dimensions. -/
inductive Vector.Measures : Vector → Nat → Prop where
  | list (items : List Json) : Measures (.value (.arr items)) items.length
  | text (s : String) : Measures (.value (.str s)) s.length
  | object (fields : Fields) : Measures (.value (.obj fields)) fields.length
  | array (outer : List Nat) (n : Nat) : Measures (.array (outer ++ [n])) n

namespace Vector

theorem size?_array (outer : List Nat) (n : Nat) :
    size? (.array (outer ++ [n])) = some (.ok n) := by
  rw [size?, getLast?_concat]

theorem size?_eq_ok_iff {v : Vector} {n : Nat} : v.size? = some (.ok n) ↔ v.Measures n := by
  constructor
  · intro h
    cases v with
    | missing => cases h
    | value v =>
      cases v with
      | arr items => cases h; exact .list items
      | str s => cases h; exact .text s
      | obj fields => cases h; exact .object fields
      | _ => cases h
    | array shape =>
      rcases eq_nil_or_concat shape with rfl | ⟨outer, m, rfl⟩
      · cases h
      · rw [concat_eq_append] at h ⊢
        rw [size?_array] at h
        cases h
        exact .array outer n
  · intro h
    cases h with
    | array outer => exact size?_array outer n
    | _ => rfl

def extent? (v : Vector) : Option Nat :=
  v.size?.bind Except.toOption

theorem extent?_eq_some_iff {v : Vector} {n : Nat} : v.extent? = some n ↔ v.Measures n := by
  rw [extent?, ← size?_eq_ok_iff]
  rcases v.size? with _ | ⟨_ | m⟩ <;> simp [Except.toOption]

instance (v : Vector) (n : Nat) : Decidable (v.Measures n) :=
  decidable_of_iff (v.extent? = some n) extent?_eq_some_iff

theorem Measures.unique {v : Vector} {n m : Nat} (hn : v.Measures n) (hm : v.Measures m) :
    n = m := by
  have h := size?_eq_ok_iff.2 hn
  rw [size?_eq_ok_iff.2 hm] at h
  cases h
  rfl

end Vector

namespace Index

variable {d : Document} {documents : List Document} {n m : Nat}

def howMany (documents : List Document) (n : Nat) : Nat :=
  documents.countP fun d => d.vector.Measures n

/-- The position of the first document with a vector of that size. -/
def firstWith (documents : List Document) (n : Nat) : Nat :=
  documents.findIdx fun d => d.vector.Measures n

/-- The size of most vectors, apart from zero. Of several such sizes it is the one seen first. -/
structure Prevails (documents : List Document) (n : Nat) : Prop where
  pos : 0 < n
  seen : ∃ d ∈ documents, d.vector.Measures n
  most : ∀ m, 0 < m → howMany documents m ≤ howMany documents n
  first : ∀ m, 0 < m → howMany documents m = howMany documents n →
    firstWith documents n ≤ firstWith documents m

/-! ## The sizes that are counted -/

theorem vectorSizes_of_measures (hd : d.vector.Measures n) (hn : 0 < n) :
    vectorSizes (d :: documents) = n :: vectorSizes documents := by
  rw [vectorSizes, filterMap_cons, Vector.size?_eq_ok_iff.2 hd]
  dsimp only
  rw [if_neg (by omega)]
  rfl

theorem vectorSizes_of_empty (hd : ∀ n, 0 < n → ¬d.vector.Measures n) :
    vectorSizes (d :: documents) = vectorSizes documents := by
  rw [vectorSizes, filterMap_cons]
  split
  · rfl
  · next k hk =>
    split at hk
    · next j hsize =>
      split at hk
      · cases hk
      · exact absurd (Vector.size?_eq_ok_iff.1 hsize) (hd j (by omega))
    · cases hk

theorem measures_or_empty (d : Document) :
    (∃ n, 0 < n ∧ d.vector.Measures n) ∨ ∀ n, 0 < n → ¬d.vector.Measures n := by
  by_cases h : ∃ n, 0 < n ∧ d.vector.Measures n
  · exact .inl h
  · exact .inr fun n hn hd => h ⟨n, hn, hd⟩

theorem mem_vectorSizes :
    n ∈ vectorSizes documents ↔ 0 < n ∧ ∃ d ∈ documents, d.vector.Measures n := by
  induction documents with
  | nil => simp [vectorSizes]
  | cons d documents ih =>
    rcases measures_or_empty d with ⟨k, hk, hd⟩ | hd
    · rw [vectorSizes_of_measures hd hk, mem_cons, ih]
      constructor
      · rintro (rfl | ⟨hn, e, he, hsize⟩)
        · exact ⟨hk, d, mem_cons_self, hd⟩
        · exact ⟨hn, e, mem_cons_of_mem d he, hsize⟩
      · rintro ⟨hn, e, he, hsize⟩
        rcases mem_cons.1 he with rfl | he
        · exact .inl (hsize.unique hd)
        · exact .inr ⟨hn, e, he, hsize⟩
    · rw [vectorSizes_of_empty hd, ih]
      constructor
      · rintro ⟨hn, e, he, hsize⟩
        exact ⟨hn, e, mem_cons_of_mem d he, hsize⟩
      · rintro ⟨hn, e, he, hsize⟩
        rcases mem_cons.1 he with rfl | he
        · exact absurd hsize (hd n hn)
        · exact ⟨hn, e, he, hsize⟩

theorem count_vectorSizes (hm : 0 < m) :
    (vectorSizes documents).count m = howMany documents m := by
  rw [howMany]
  induction documents with
  | nil => rfl
  | cons d documents ih =>
    rw [countP_cons]
    rcases measures_or_empty d with ⟨k, hk, hd⟩ | hd
    · rw [vectorSizes_of_measures hd hk, count_cons, ih]
      by_cases hkm : k = m
      · subst hkm
        simp [hd]
      · have hne : ¬d.vector.Measures m := fun h => hkm (hd.unique h)
        simp [hkm, hne]
    · simp [vectorSizes_of_empty hd, ih, hd m hm]

/-- Leaving documents out does not change which of two sizes is seen first. -/
theorem idxOf_vectorSizes_le_iff (hn : 0 < n) (hm : 0 < m) :
    (vectorSizes documents).idxOf n ≤ (vectorSizes documents).idxOf m ↔
      firstWith documents n ≤ firstWith documents m := by
  rw [firstWith, firstWith]
  induction documents with
  | nil => exact Iff.rfl
  | cons d documents ih =>
    rw [findIdx_cons, findIdx_cons]
    rcases measures_or_empty d with ⟨k, hk, hd⟩ | hd
    · rw [vectorSizes_of_measures hd hk, idxOf_cons, idxOf_cons]
      have hsame : ∀ j, d.vector.Measures j ↔ k = j :=
        fun j => ⟨hd.unique, fun h => h ▸ hd⟩
      by_cases hkn : k = n
      · simp [hsame, hkn]
      · by_cases hkm : k = m
        · subst hkm
          simp [hsame, beq_false_of_ne hkn, hkn]
        · simpa [hsame, beq_false_of_ne hkn, beq_false_of_ne hkm, hkn, hkm] using ih
    · simpa [vectorSizes_of_empty hd, hd n hn, hd m hm] using ih

/-! ## The most frequent size -/

/-- Among the sizes that have been seen none is more frequent in all, and of those that are as
frequent none comes before this one. -/
structure Foremost (all seen : List Nat) (n : Nat) : Prop where
  mem : n ∈ seen
  most : ∀ m ∈ seen, all.count m ≤ all.count n
  first : ∀ m ∈ seen, all.count m = all.count n → seen.idxOf n ≤ seen.idxOf m

theorem Foremost.step {all seen : List Nat} (h : Foremost all seen n) (m : Nat) :
    Foremost all (seen ++ [m]) (moreFrequent all n m) := by
  rw [moreFrequent]
  split
  · next hlt =>
    -- A size that is more frequent than all before cannot have been among them.
    have hnew : ∀ k ∈ seen, all.count k < all.count m := by
      intro k hk
      have := h.most k hk
      omega
    refine ⟨by simp, fun k hk => ?_, fun k hk hcount => ?_⟩
    · rcases mem_append.1 hk with hk | hk
      · exact Nat.le_of_lt (hnew k hk)
      · exact mem_singleton.1 hk ▸ Nat.le_refl _
    · rcases mem_append.1 hk with hk | hk
      · have := hnew k hk
        omega
      · exact mem_singleton.1 hk ▸ Nat.le_refl _
  · next hge =>
    refine ⟨mem_append_left _ h.mem, fun k hk => ?_, fun k hk hcount => ?_⟩
    · rcases mem_append.1 hk with hk | hk
      · exact h.most k hk
      · rw [mem_singleton.1 hk]
        omega
    · rw [idxOf_append, idxOf_append, if_pos h.mem]
      split
      · next hseen => exact h.first k hseen hcount
      · have := idxOf_lt_length_iff.2 h.mem
        omega

theorem Foremost.run {all seen : List Nat} (h : Foremost all seen n) (rest : List Nat) :
    Foremost all (seen ++ rest) (rest.foldl (moreFrequent all) n) := by
  induction rest generalizing seen n with
  | nil => rwa [append_nil]
  | cons m rest ih =>
    have hrest := ih (h.step m)
    rwa [append_assoc] at hrest

theorem foremost_of_commonSize? {sizes : List Nat} (h : commonSize? sizes = some n) :
    Foremost sizes sizes n := by
  cases sizes with
  | nil => cases h
  | cons k rest =>
    obtain rfl := Option.some.inj h
    have hstart : Foremost (k :: rest) [k] k := by
      refine ⟨mem_singleton_self k, fun m hm => ?_, fun m hm _ => ?_⟩
      · exact mem_singleton.1 hm ▸ Nat.le_refl _
      · exact mem_singleton.1 hm ▸ Nat.le_refl _
    exact hstart.run rest

theorem prevails_of_commonSize? (h : commonSize? (vectorSizes documents) = some n) :
    Prevails documents n := by
  have hforemost := foremost_of_commonSize? h
  obtain ⟨hpos, hseen⟩ := mem_vectorSizes.1 hforemost.mem
  refine ⟨hpos, hseen, fun m hm => ?_, fun m hm hcount => ?_⟩
  · rw [← count_vectorSizes hm, ← count_vectorSizes hpos]
    by_cases hmem : m ∈ vectorSizes documents
    · exact hforemost.most m hmem
    · rw [count_eq_zero.2 hmem]
      exact Nat.zero_le _
  · rw [← count_vectorSizes hm, ← count_vectorSizes hpos] at hcount
    have hmem : m ∈ vectorSizes documents := by
      rw [← count_pos_iff, hcount]
      exact count_pos_iff.2 hforemost.mem
    exact (idxOf_vectorSizes_le_iff hpos hm).1 (hforemost.first m hmem hcount)

/-! ## Documents that are kept -/

theorem keeps_eq (hd : ∃ fields, d.about = .obj fields) (size : Nat) :
    keeps size d = .ok (decide (d.vector.Measures size)) := by
  obtain ⟨fields, habout⟩ := hd
  rw [keeps, Document.askPath_of_obj habout]
  split
  · next hsize =>
    rw [decide_eq_false]
    intro h
    rw [Vector.size?_eq_ok_iff.2 h] at hsize
    cases hsize
  · next k hsize =>
    have hk := Vector.size?_eq_ok_iff.1 hsize
    split
    · next heq => rw [decide_eq_true (heq ▸ hk)]
    · next hne => rw [decide_eq_false fun h => hne (hk.unique h)]; rfl
  · next hsize =>
    rw [decide_eq_false]
    · rfl
    · intro h
      rw [Vector.size?_eq_ok_iff.2 h] at hsize
      cases hsize

section

variable (hknown : ∀ d ∈ documents, ∃ fields, d.about = .obj fields)
include hknown

theorem filterM_keeps (size : Nat) :
    documents.filterM (keeps size) =
      .ok (documents.filter fun d => d.vector.Measures size) := by
  induction documents with
  | nil => rfl
  | cons d documents ih =>
    have hrest := ih fun e he => hknown e (mem_cons_of_mem d he)
    rw [except_filterM_cons, keeps_eq (hknown d mem_cons_self), ok_bind, hrest,
      ok_bind, filter_cons]
    rfl

theorem validated_cases :
    (∃ n, Prevails documents n ∧
      validated documents = .ok (documents.filter fun d => d.vector.Measures n)) ∨
    (∀ d ∈ documents, ∀ n, d.vector.Measures n → n = 0) ∧ validated documents = .ok [] := by
  rw [validated]
  cases hcommon : commonSize? (vectorSizes documents) with
  | some n => exact .inl ⟨n, prevails_of_commonSize? hcommon, filterM_keeps hknown n⟩
  | none =>
    refine .inr ⟨fun d hd n hsize => ?_, rfl⟩
    have hnil : vectorSizes documents = [] := by
      cases hsizes : vectorSizes documents with
      | nil => rfl
      | cons k rest => rw [hsizes] at hcommon; cases hcommon
    by_cases hn : n = 0
    · exact hn
    · have hmem : n ∈ vectorSizes documents := mem_vectorSizes.2 ⟨by omega, d, hd, hsize⟩
      rw [hnil] at hmem
      cases hmem

theorem validated_of_same (hn : 0 < n)
    (hsame : ∀ d ∈ documents, d.vector.Measures n) : validated documents = .ok documents := by
  rcases validated_cases hknown with ⟨m, hm, hkept⟩ | ⟨hempty, hkept⟩
  · obtain ⟨d, hd, hsize⟩ := hm.seen
    obtain rfl := hsize.unique (hsame d hd)
    rw [hkept, filter_eq_self.2 fun e he => decide_eq_true (hsame e he)]
  · cases documents with
    | nil => exact hkept
    | cons d documents =>
      have := hempty d mem_cons_self n (hsame d mem_cons_self)
      omega

end

/-- Documents about which something is known are kept in their order if their vectors have the size
that prevails. None are kept exactly if no vector has a size but zero, and those that are kept pass
the check again. -/
theorem validated_prevailing (documents : List Document)
    (hknown : ∀ d ∈ documents, ∃ fields, d.about = .obj fields) :
    ∃ kept, validated documents = .ok kept ∧
      (kept ≠ [] → ∃ n, Prevails documents n ∧
        kept = documents.filter fun d => d.vector.Measures n) ∧
      (kept = [] ↔ ∀ d ∈ documents, ∀ n, d.vector.Measures n → n = 0) ∧
      validated kept = .ok kept := by
  rcases validated_cases hknown with ⟨n, hn, hkept⟩ | ⟨hempty, hkept⟩
  · refine ⟨_, hkept, fun _ => ⟨n, hn, rfl⟩, ?_, ?_⟩
    · obtain ⟨d, hd, hsize⟩ := hn.seen
      constructor
      · intro hnil
        exact absurd (decide_eq_true hsize) (List.filter_eq_nil_iff.1 hnil d hd)
      · intro hempty
        have := hempty d hd n hsize
        have := hn.pos
        omega
    · refine validated_of_same (fun d hd => hknown d (List.mem_filter.1 hd).1) hn.pos ?_
      exact fun d hd => of_decide_eq_true (List.mem_filter.1 hd).2
  · exact ⟨[], hkept, fun h => absurd rfl h, ⟨fun _ => hempty, fun _ => rfl⟩, rfl⟩

def bearing (text : String) (vector : Vector) : Document :=
  ⟨text, .obj [], vector⟩

/-- Vectors of two sizes, two of each, among others that are empty or have no size. -/
def mixed : List Document :=
  [bearing "none" .missing, bearing "point" (.array []), bearing "word" (.value (.str "abc")),
    bearing "pair" (.value (.arr [.int 0, .int 1])), bearing "table" (.array [3, 2]),
    bearing "blank" .empty, bearing "number" (.value (.int 3)), bearing "row" (.array [3])]

theorem validated_prevailing_mixed :
    ∃ kept, validated mixed = .ok kept ∧ kept ≠ [] ∧ validated kept = .ok kept := by
  obtain ⟨kept, hkept, -, hempty, hagain⟩ := validated_prevailing mixed fun d hd => by
    simp only [mixed, List.mem_cons, List.not_mem_nil, or_false] at hd
    rcases hd with rfl | rfl | rfl | rfl | rfl | rfl | rfl | rfl <;> exact ⟨[], rfl⟩
  refine ⟨kept, hkept, fun hnil => ?_, hagain⟩
  have hword := hempty.1 hnil (bearing "word" (.value (.str "abc"))) (by simp [mixed])
  exact absurd (hword 3 (.text "abc")) (by decide)

example : (validated mixed).map (·.map Document.text) = .ok ["word", "row"] := by
  rfl

end Index
end RepoWiki
