import RepoWiki.Proofs.Path
import RepoWiki.Proofs.Removal
/-
Where a text can occur.

A text without some character lies between two of them, so it cannot occur where all the pieces
between them are too short (`not_infix_of_pieces`). And no piece between the occurrences of a text
holds the text again (`not_infix_of_mem_splitFrom`). Both together tell when a text is gone after it
is exchanged for another one: if the other one begins and ends with a character that the text does
not have, and is too short between (`hasInfix_replaceAll`).
-/

namespace RepoWiki.Text

open List

theorem hasInfixList_iff {p cs : List Char} : hasInfixList p cs = true ↔ p <:+: cs := by
  induction cs with
  | nil => rw [hasInfixList, List.isEmpty_iff, infix_nil]
  | cons c cs ih =>
    rw [hasInfixList, Bool.or_eq_true, isPrefixOf_iff_prefix, ih, infix_cons_iff]

theorem hasInfix_eq_false {p s : String} : hasInfix p s = false ↔ ¬p.toList <:+: s.toList := by
  rw [← Bool.not_eq_true, hasInfix, hasInfixList_iff]

theorem hasInfix_of_startsWith {p s : String} (h : startsWith p s = true) : hasInfix p s = true :=
  hasInfixList_iff.2 <| IsPrefix.isInfix <| isPrefixOf_iff_prefix.1 h

theorem hasInfix_of_endsWith {p s : String} (h : endsWith p s = true) : hasInfix p s = true :=
  hasInfixList_iff.2 (isSuffixOf_iff_suffix.1 h).isInfix

/-! ## Around a character -/

section

variable {c : Char} {t : List Char}

theorem isInfix_or_isInfix (hc : c ∉ t) {a b : List Char} (h : t <:+: a ++ c :: b) :
    t <:+: a ∨ t <:+: b := by
  induction a with
  | nil =>
    rcases infix_cons_iff.1 h with h | h
    · cases t with
      | nil => exact .inl nil_infix
      | cons d t =>
        rw [cons_prefix_cons] at h
        exact absurd (h.1 ▸ mem_cons_self) hc
    · exact .inr h
  | cons d a ih =>
    rcases infix_cons_iff.1 h with h | h
    · refine .inl (prefix_of_prefix_append (fun e he => ?_) h).isInfix
      obtain rfl : c = e := by simpa using he
      intro hmem
      exact hc (mem_of_mem_tail hmem)
    · rcases ih h with h | h
      · exact .inl (infix_cons h)
      · exact .inr h

theorem not_infix_of_pieces (hc : c ∉ t) {m : List Char}
    (hm : ∀ p ∈ splitFrom [c] 0 [] m, p.length < t.length) : ¬t <:+: m := by
  induction hn : m.length using Nat.strongRecOn generalizing m with
  | ind n ih =>
    intro h
    by_cases hmem : c ∈ m
    · obtain ⟨a, b, rfl, ha⟩ := eq_append_cons_of_mem hmem
      rw [splitFrom_append, splitFrom_free [] ha, forall_mem_append] at hm
      rcases isInfix_or_isInfix hc h with h | h
      · have hlt := hm.1 a (by simp)
        have hle := h.length_le
        omega
      · refine ih b.length ?_ hm.2 rfl h
        rw [← hn, length_append, length_cons]
        omega
    · rw [splitFrom_free [] hmem] at hm
      have hlt := hm m (by simp)
      have hle := h.length_le
      omega

end

/-! ## Between occurrences -/

theorem splitFrom_skip (sep : List Char) (skip : Nat) (piece xs : List Char) :
    splitFrom sep skip piece xs = splitFrom sep 0 piece (xs.drop skip) := by
  induction xs generalizing skip with
  | nil => simp [splitFrom]
  | cons x xs ih =>
    cases skip with
    | zero => rfl
    | succ skip => rw [splitFrom, drop_succ_cons, ih]

/-- No occurrence of a text begins in what is read, not even one that ends in what is still to come.
-/
def NoStart (t read rest : List Char) : Prop :=
  ∀ a b, read = a ++ b → b ≠ [] → ¬t <+: b ++ rest

namespace NoStart

variable {t read rest : List Char}

theorem nil (t rest : List Char) : NoStart t [] rest := by
  intro a b hab hb
  rw [eq_comm, append_eq_nil_iff] at hab
  exact absurd hab.2 hb

theorem concat {x : Char} (h : NoStart t read (x :: rest)) (hx : ¬t <+: x :: rest) :
    NoStart t (read ++ [x]) rest := by
  intro a b hab hb
  obtain rfl | ⟨b, y, rfl⟩ := b.eq_nil_or_concat
  · exact absurd rfl hb
  · rw [concat_eq_append, ← append_assoc] at hab
    obtain ⟨hread, hxy⟩ := append_inj' hab rfl
    obtain rfl : x = y := by simpa using hxy
    rw [concat_eq_append, append_assoc]
    by_cases hnil : b = []
    · rwa [hnil]
    · exact h a b hread hnil

theorem not_isInfix (h : NoStart t read rest) (ht : t ≠ []) : ¬t <:+: read := by
  rintro ⟨a, b, rfl⟩
  refine h a (t ++ b) (append_assoc _ _ _) (by simp [ht]) ?_
  rw [append_assoc]
  exact prefix_append _ _

/-- A text that is not in what is read begins there only if it goes on behind it, which it cannot if
what is still to come starts with a character that the text has nowhere but at its start. -/
theorem of_not_isInfix (hseam : ∀ c ∈ rest.head?, c ∉ t.tail) (h : ¬t <:+: read) :
    NoStart t read rest := by
  intro a b hab hb hstarts
  obtain ⟨x, b, rfl⟩ := exists_cons_of_ne_nil hb
  obtain ⟨more, hmore⟩ := prefix_of_prefix_append hseam hstarts
  exact h ⟨a, more, by rw [hab, ← hmore, append_assoc]⟩

theorem head {x : Char} (h : NoStart t (x :: read) rest) : ¬t <+: x :: (read ++ rest) :=
  h [] (x :: read) rfl (cons_ne_nil x read)

theorem tail {x : Char} (h : NoStart t (x :: read) rest) : NoStart t read rest :=
  fun a b hab hb => h (x :: a) b (by rw [hab, cons_append]) hb

theorem cons {x : Char} (hx : ¬t <+: x :: (read ++ rest)) (h : NoStart t read rest) :
    NoStart t (x :: read) rest := by
  intro a b hab hb
  cases a with
  | nil =>
    obtain rfl : x :: read = b := hab
    exact hx
  | cons y a => exact h a b (List.cons.inj hab).2 hb

theorem append {more : List Char} (h : NoStart t read (more ++ rest))
    (hmore : NoStart t more rest) :
    NoStart t (read ++ more) rest := by
  induction read with
  | nil => exact hmore
  | cons x read ih =>
    rw [cons_append]
    refine cons ?_ (ih h.tail)
    rw [append_assoc]
    exact h.head

theorem exists_append (h : NoStart t read rest) {before after : List Char}
    (heq : read ++ rest = before ++ (t ++ after)) : ∃ more, rest = more ++ (t ++ after) := by
  rcases append_eq_append_iff.1 heq with ⟨more, -, hmore⟩ | ⟨more, rfl, hmore⟩
  · exact ⟨more, hmore⟩
  · by_cases hnil : more = []
    · exact ⟨[], by rw [hmore, hnil, nil_append, nil_append]⟩
    · refine absurd ?_ (h before more rfl hnil)
      rw [← hmore]
      exact prefix_append _ _

theorem infix_of_append (h : NoStart t read rest) (hin : t <:+: read ++ rest) : t <:+: rest := by
  obtain ⟨before, after, heq⟩ := hin
  obtain ⟨more, hmore⟩ := h.exists_append (heq.symm.trans (append_assoc _ _ _))
  exact ⟨more, after, (append_assoc _ _ _).trans hmore.symm⟩

theorem of_head {c : Char} (ht : t.head? = some c) (hc : c ∉ read) : NoStart t read rest := by
  rintro a b rfl hb
  obtain ⟨t, rfl⟩ := head?_eq_some_iff.1 ht
  obtain ⟨x, b, rfl⟩ := exists_cons_of_ne_nil hb
  rw [cons_append, cons_prefix_cons]
  rintro ⟨rfl, -⟩
  exact hc (mem_append_right a mem_cons_self)

theorem cutList (h : NoStart t read (t ++ rest)) (ht : t ≠ []) :
    cutList t (read ++ (t ++ rest)) = some (read, rest) := by
  induction read with
  | nil =>
    obtain ⟨c, t, rfl⟩ := exists_cons_of_ne_nil ht
    rw [nil_append, cons_append, Text.cutList, ← cons_append,
      if_pos <| isPrefixOf_iff_prefix.2 <| prefix_append _ _, drop_left]
  | cons x read ih =>
    rw [cons_append, Text.cutList, if_neg (mt isPrefixOf_iff_prefix.1 h.head), ih h.tail]
    rfl

end NoStart

theorem cutList_cases {t : List Char} (ht : t ≠ []) (cs : List Char) :
    cutList t cs = none ∧ ¬t <:+: cs ∨ ∃ read rest, cutList t cs = some (read, rest) ∧
      cs = read ++ (t ++ rest) ∧ NoStart t read (t ++ rest) := by
  induction cs with
  | nil =>
    rw [cutList, if_neg (mt List.isEmpty_iff.1 ht), infix_nil]
    exact .inl ⟨rfl, ht⟩
  | cons c cs ih =>
    rw [cutList, infix_cons_iff]
    split
    · next hstarts =>
      obtain ⟨rest, hrest⟩ := isPrefixOf_iff_prefix.1 hstarts
      exact .inr ⟨[], rest, by rw [← hrest, drop_left], hrest.symm, .nil t _⟩
    · next hstarts =>
      replace hstarts := mt isPrefixOf_iff_prefix.2 hstarts
      rcases ih with ⟨hnone, hinside⟩ | ⟨read, rest, hsome, rfl, hstart⟩
      · exact .inl ⟨by rw [hnone]; rfl, not_or.2 ⟨hstarts, hinside⟩⟩
      · exact .inr ⟨c :: read, rest, by rw [hsome]; rfl, rfl, .cons hstarts hstart⟩

section

variable {t : List Char} (ht : t ≠ [])
include ht

theorem not_infix_of_mem_splitFrom {piece xs p : List Char} (hpiece : NoStart t piece.reverse xs)
    (hp : p ∈ splitFrom t 0 piece xs) : ¬t <:+: p := by
  induction hn : xs.length using Nat.strongRecOn generalizing piece xs with
  | ind n ih =>
    cases xs with
    | nil =>
      rw [splitFrom, mem_singleton] at hp
      exact hp ▸ hpiece.not_isInfix ht
    | cons x xs =>
      rw [length_cons] at hn
      rw [splitFrom] at hp
      split at hp
      · rcases mem_cons.1 hp with rfl | hp
        · exact hpiece.not_isInfix ht
        · rw [splitFrom_skip] at hp
          have hshort : (xs.drop (t.length - 1)).length < n := by
            rw [length_drop]
            omega
          have hnone :
              NoStart t ([] : List Char).reverse (xs.drop (t.length - 1)) := NoStart.nil t _
          exact ih _ hshort hnone hp rfl
      · next hx =>
        have hnext : NoStart t (x :: piece).reverse xs := by
          rw [reverse_cons]
          exact hpiece.concat (mt isPrefixOf_iff_prefix.2 hx)
        exact ih xs.length (by omega) hnext hp rfl

variable {c : Char} (hc : c ∉ t) {m : List Char}
  (hm : ∀ p ∈ splitFrom [c] 0 [] m, p.length < t.length)
include hc hm

theorem not_infix_intercalate {pieces : List (List Char)} (hpieces : ∀ p ∈ pieces, ¬t <:+: p) :
    ¬t <:+: (c :: (m ++ [c])).intercalate pieces := by
  induction pieces with
  | nil =>
    intro h
    exact ht (infix_nil.1 (by simpa using h))
  | cons p pieces ih =>
    rw [forall_mem_cons] at hpieces
    cases pieces with
    | nil => simpa using hpieces.1
    | cons q pieces =>
      intro h
      rw [intercalate_cons_cons, append_assoc, cons_append, append_assoc] at h
      rcases isInfix_or_isInfix hc h with h | h
      · exact hpieces.1 h
      · rcases isInfix_or_isInfix hc h with h | h
        · exact not_infix_of_pieces hc hm h
        · exact ih hpieces.2 h

end

theorem hasInfix_replaceAll {old new : String} {c : Char} {m : List Char} (hold : old ≠ "")
    (hc : c ∉ old.toList) (hnew : new.toList = c :: (m ++ [c]))
    (hm : ∀ p ∈ splitFrom [c] 0 [] m, p.length < old.length) (s : String) :
    hasInfix old (replaceAll old new s) = false := by
  have hne : old.toList ≠ [] := mt String.toList_eq_nil_iff.1 hold
  rw [hasInfix_eq_false, replaceAll, join, String.toList_intercalate, hnew]
  refine not_infix_intercalate hne hc (by rwa [String.length_toList]) fun p hp => ?_
  simp only [splitOn, map_map, mem_map, Function.comp_apply, String.toList_ofList] at hp
  obtain ⟨q, hq, rfl⟩ := hp
  have hnone : NoStart old.toList ([] : List Char).reverse s.toList := NoStart.nil _ _
  exact not_infix_of_mem_splitFrom hne hnone hq

end RepoWiki.Text
