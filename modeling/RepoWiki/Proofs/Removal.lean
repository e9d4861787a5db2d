import RepoWiki.Text.Basic
/-
Taking every occurrence of a text out of another one.

`replaceAll old ""` works from left to right, and what it takes out at one place can bring together
what was apart. Two laws are enough to tell what is left. Nothing changes exactly if the text is not
there (`replaceAll_eq_self_iff`). And a text can be cut in two, each part by itself, where no
occurrence lies across the cut: that is so if the second part begins with a character which the text
to be taken out has nowhere but at its start (`replaceAll_append`).
-/

namespace RepoWiki.Text

open List

variable {old : String}

/-- What is left of some characters when every occurrence of `sep` is taken out. -/
def without (sep xs : List Char) : List Char :=
  (splitFrom sep 0 [] xs).flatten

variable {sep : List Char}

theorem flatten_splitFrom (skip : Nat) (piece xs : List Char) :
    (splitFrom sep skip piece xs).flatten = piece.reverse ++ without sep (xs.drop skip) := by
  induction xs generalizing skip piece with
  | nil => simp [splitFrom, without]
  | cons x xs ih =>
    cases skip with
    | succ skip => rw [splitFrom, ih, drop_succ_cons]
    | zero =>
      rw [drop_zero, without, splitFrom, splitFrom]
      split
      · rw [flatten_cons, flatten_cons, reverse_nil, nil_append]
      · rw [ih, ih, reverse_cons, reverse_singleton, append_assoc]

theorem without_cons_of_not {x : Char} {xs : List Char} (h : sep.isPrefixOf (x :: xs) = false) :
    without sep (x :: xs) = x :: without sep xs := by
  rw [without, splitFrom, if_neg (Bool.eq_false_iff.1 h), flatten_splitFrom]
  rfl

theorem without_self_append (hsep : sep ≠ []) (ys : List Char) :
    without sep (sep ++ ys) = without sep ys := by
  obtain ⟨c, rest, rfl⟩ := exists_cons_of_ne_nil hsep
  have hstarts : (c :: rest).isPrefixOf (c :: (rest ++ ys)) = true := by
    rw [← cons_append, isPrefixOf_iff_prefix]
    exact prefix_append _ _
  rw [cons_append, without, splitFrom, if_pos hstarts, flatten_cons, flatten_splitFrom]
  simp

theorem prefix_of_prefix_append {x : Char} {xs ys : List Char}
    (hseam : ∀ c ∈ ys.head?, c ∉ sep.tail) (h : sep <+: x :: xs ++ ys) : sep <+: x :: xs := by
  by_cases hlength : sep.length ≤ (x :: xs).length
  · exact prefix_of_prefix_length_le h (prefix_append _ _) hlength
  · -- The occurrence would have the first character behind the cut, and not at its start.
    exfalso
    obtain ⟨more, hmore⟩ := prefix_of_prefix_length_le (prefix_append _ ys) h (by omega)
    obtain ⟨rest, hrest⟩ := h
    have hsplit : more ++ rest = ys := by
      rw [← hmore, append_assoc] at hrest
      exact append_cancel_left hrest
    cases more with
    | nil => simp [← hmore] at hlength
    | cons c more =>
      refine hseam c (by rw [← hsplit]; rfl) ?_
      rw [← hmore]
      simp

theorem without_append (hsep : sep ≠ []) (xs : List Char) {ys : List Char}
    (hseam : ∀ c ∈ ys.head?, c ∉ sep.tail) :
    without sep (xs ++ ys) = without sep xs ++ without sep ys := by
  induction hn : xs.length using Nat.strongRecOn generalizing xs with
  | ind n ih =>
    cases xs with
    | nil => rfl
    | cons x xs =>
      by_cases hstarts : sep <+: x :: xs
      · obtain ⟨rest, hrest⟩ := hstarts
        have hshort : rest.length < n := by
          have := length_pos_iff.2 hsep
          rw [← hn, ← hrest, length_append]
          omega
        rw [← hrest, append_assoc, without_self_append hsep, without_self_append hsep,
          ih _ hshort rest rfl]
      · have hlong : ¬sep <+: x :: xs ++ ys := mt (prefix_of_prefix_append hseam) hstarts
        rw [← isPrefixOf_iff_prefix, Bool.not_eq_true] at hstarts hlong
        rw [without_cons_of_not hstarts, cons_append]
        rw [cons_append] at hlong
        rw [without_cons_of_not hlong, ih xs.length (by rw [← hn]; simp) xs rfl, cons_append]

theorem without_sublist (hsep : sep ≠ []) (xs : List Char) :
    (without sep xs).Sublist xs ∧
      (hasInfixList sep xs = true → (without sep xs).length < xs.length) := by
  have hpos := length_pos_iff.2 hsep
  induction hn : xs.length using Nat.strongRecOn generalizing xs with
  | ind n ih =>
    cases xs with
    | nil =>
      refine ⟨List.Sublist.refl _, fun hinside => ?_⟩
      rw [hasInfixList, List.isEmpty_iff] at hinside
      exact absurd hinside hsep
    | cons x xs =>
      by_cases hstarts : sep <+: x :: xs
      · obtain ⟨rest, hrest⟩ := hstarts
        have hlength : sep.length + rest.length = n := by
          rw [← hn, ← hrest, length_append]
        obtain ⟨hsub, -⟩ := ih rest.length (by omega) rest rfl
        have hle := hsub.length_le
        rw [← hrest, without_self_append hsep]
        exact ⟨hsub.trans (sublist_append_right _ _), fun _ => by omega⟩
      · rw [← isPrefixOf_iff_prefix, Bool.not_eq_true] at hstarts
        rw [length_cons] at hn
        obtain ⟨hsub, hlt⟩ := ih xs.length (by omega) xs rfl
        rw [without_cons_of_not hstarts, hasInfixList, hstarts, Bool.false_or, length_cons]
        exact ⟨hsub.cons_cons x, fun hinside => by have := hlt hinside; omega⟩

theorem without_of_not_hasInfix (xs : List Char) (h : hasInfixList sep xs = false) :
    without sep xs = xs := by
  induction xs with
  | nil => rfl
  | cons x xs ih =>
    rw [hasInfixList, Bool.or_eq_false_iff] at h
    rw [without_cons_of_not h.1, ih h.2]

/-! ## On texts -/

theorem toList_replaceAll_empty (old s : String) :
    (replaceAll old "" s).toList = without old.toList s.toList := by
  have hpieces : ∀ pieces : List (List Char),
      ([] : List Char).intercalate (List.map String.toList (pieces.map String.ofList)) =
        pieces.flatten := by
    intro pieces
    induction pieces with
    | nil => rfl
    | cons p pieces ih =>
      cases pieces with
      | nil => simp
      | cons q pieces =>
        rw [map_cons, map_cons, map_cons, map_cons, intercalate_cons_cons,
          ← map_cons, ← map_cons, ih]
        simp
  rw [replaceAll, join, String.toList_intercalate, String.toList_empty, splitOn, hpieces, without]

variable (hold : old ≠ "")
include hold

theorem replaceAll_self_append (t : String) :
    replaceAll old "" (old ++ t) = replaceAll old "" t := by
  rw [← String.toList_inj, toList_replaceAll_empty, toList_replaceAll_empty, String.toList_append,
    without_self_append (mt String.toList_eq_nil_iff.1 hold)]

theorem replaceAll_append (s : String) {t : String}
    (hseam : ∀ c ∈ t.toList.head?, c ∉ old.toList.tail) :
    replaceAll old "" (s ++ t) = replaceAll old "" s ++ replaceAll old "" t := by
  rw [← String.toList_inj, String.toList_append, toList_replaceAll_empty, toList_replaceAll_empty,
    toList_replaceAll_empty, String.toList_append,
    without_append (mt String.toList_eq_nil_iff.1 hold) _ hseam]

theorem replaceAll_sublist (s : String) :
    (replaceAll old "" s).toList.Sublist s.toList := by
  rw [toList_replaceAll_empty]
  exact (without_sublist (mt String.toList_eq_nil_iff.1 hold) _).1

theorem length_replaceAll_le (s : String) :
    (replaceAll old "" s).length ≤ s.length := by
  rw [← String.length_toList, ← String.length_toList]
  exact (replaceAll_sublist hold s).length_le

theorem length_replaceAll_lt {s : String} (h : hasInfix old s = true) :
    (replaceAll old "" s).length < s.length := by
  rw [← String.length_toList, ← String.length_toList, toList_replaceAll_empty]
  exact (without_sublist (mt String.toList_eq_nil_iff.1 hold) _).2 h

theorem replaceAll_eq_self_iff (s : String) :
    replaceAll old "" s = s ↔ hasInfix old s = false := by
  refine ⟨fun hsame => ?_, fun hfree => ?_⟩
  · by_cases hinside : hasInfix old s = true
    · have hlt := length_replaceAll_lt hold hinside
      rw [hsame] at hlt
      exact absurd hlt (Nat.lt_irrefl _)
    · exact Bool.eq_false_iff.2 hinside
  · rw [← String.toList_inj, toList_replaceAll_empty]
    exact without_of_not_hasInfix _ hfree

end RepoWiki.Text
