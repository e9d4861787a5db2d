import Mathlib.Data.List.DropRight
import Mathlib.Data.List.TakeWhile
import RepoWiki.Text.Basic
/-
Characters of a class are taken away at the ends of a text, and only there.
-/

namespace RepoWiki.Text

open List

variable {p : Char → Bool} {s : String}

variable {c : Char}

theorem trimBy_start {cs : List Char} (h : (trimBy p s).toList = c :: cs) : p c = false := by
  have hstarts : (trimBy p s).toList <+: s.toList.dropWhile p := by
    rw [trimBy, String.toList_ofList, dropEndWhile, ← reverse_suffix, reverse_reverse]
    exact dropWhile_suffix p
  rw [h] at hstarts
  obtain ⟨more, hmore⟩ := hstarts
  have hhead := head?_dropWhile_not p s.toList
  rw [← hmore] at hhead
  simpa using hhead

theorem trimBy_eq_empty : trimBy p s = "" ↔ ∀ c ∈ s.toList, p c = true := by
  rw [trimBy, String.ofList_eq_empty_iff, dropEndWhile, reverse_eq_nil_iff, dropWhile_eq_nil_iff]
  constructor
  · intro h c hc
    rw [← @takeWhile_append_dropWhile _ p s.toList, mem_append] at hc
    rcases hc with hc | hc
    · exact mem_takeWhile_imp hc
    · exact h c (mem_reverse.2 hc)
  · intro h c hc
    exact h c ((dropWhile_suffix p).subset (mem_reverse.1 hc))

theorem trimBy_around {t : String} {before after : List Char} (hbefore : ∀ c ∈ before, p c = true)
    (hafter : ∀ c ∈ after, p c = true) (h : s.toList = before ++ (t.toList ++ after)) :
    trimBy p s = trimBy p t := by
  rw [trimBy, trimBy, h, dropWhile_append_of_pos hbefore, dropWhile_append]
  split
  · next hall =>
    rw [dropWhile_eq_nil_iff.2 hafter, isEmpty_iff.1 hall]
  · rw [dropEndWhile, dropEndWhile, reverse_append,
      dropWhile_append_of_pos fun c hc => hafter c (mem_reverse.1 hc)]

theorem exists_around (p : Char → Bool) (s : String) :
    ∃ before after, (∀ c ∈ before, p c = true) ∧ (∀ c ∈ after, p c = true) ∧
      s.toList = before ++ ((trimBy p s).toList ++ after) := by
  refine ⟨s.toList.takeWhile p, ((s.toList.dropWhile p).reverse.takeWhile p).reverse,
    fun c => mem_takeWhile_imp, fun c hc => mem_takeWhile_imp (mem_reverse.1 hc), ?_⟩
  rw [trimBy, String.toList_ofList, dropEndWhile, ← reverse_append, takeWhile_append_dropWhile,
    reverse_reverse, takeWhile_append_dropWhile]

theorem trimBy_trimBy : trimBy p (trimBy p s) = trimBy p s := by
  obtain ⟨before, after, hbefore, hafter, hs⟩ := exists_around p s
  exact (trimBy_around hbefore hafter hs).symm

theorem trimBy_congr {q : Char → Bool} (h : ∀ c ∈ s.toList, p c = q c) :
    trimBy p s = trimBy q s := by
  have hdrop : ∀ cs : List Char, (∀ c ∈ cs, p c = q c) → cs.dropWhile p = cs.dropWhile q := by
    intro cs hcs
    induction cs with
    | nil => rfl
    | cons c cs ih =>
      rw [forall_mem_cons] at hcs
      rw [dropWhile_cons, dropWhile_cons, hcs.1, ih hcs.2]
  rw [trimBy, trimBy, hdrop s.toList h, dropEndWhile, dropEndWhile, hdrop]
  intro c hc
  exact h c ((dropWhile_suffix q).subset (mem_reverse.1 hc))

theorem mem_trimBy {before after : List Char} (h : s.toList = before ++ c :: after)
    (hbefore : ∃ d ∈ before, p d = false) (hafter : ∃ d ∈ after, p d = false) :
    c ∈ (trimBy p s).toList := by
  have hsome : ∀ {cs : List Char}, (∃ d ∈ cs, p d = false) → (cs.dropWhile p).isEmpty = false := by
    rintro cs ⟨d, hd, hp⟩
    rw [isEmpty_eq_false_iff, ne_eq, dropWhile_eq_nil_iff]
    intro hall
    rw [hall d hd] at hp
    cases hp
  have hafter' : ∃ d ∈ after.reverse, p d = false := by simpa using hafter
  rw [trimBy, String.toList_ofList, h, dropWhile_append, hsome hbefore, dropEndWhile,
    if_neg Bool.false_ne_true, reverse_append, reverse_cons, append_assoc,
    dropWhile_append, hsome hafter', if_neg Bool.false_ne_true]
  simp

theorem dropWhile_append_cons (hc : p c = false) (xs ys : List Char) :
    (xs ++ c :: ys).dropWhile p = xs.dropWhile p ++ c :: ys := by
  rw [dropWhile_append]
  split
  · next hall =>
    rw [isEmpty_iff.1 hall, dropWhile_cons, hc]
    rfl
  · rfl

theorem dropEndWhile_append_cons (hc : p c = false) (xs ys : List Char) :
    dropEndWhile p (xs ++ c :: ys) = xs ++ c :: dropEndWhile p ys := by
  rw [dropEndWhile, reverse_append, reverse_cons, append_assoc, singleton_append,
    dropWhile_append_cons hc, dropEndWhile]
  simp

/-! ## At the end only -/

theorem trimEndBy_append_of_all {t : String} (ht : ∀ c ∈ t.toList, p c = true) :
    trimEndBy p (s ++ t) = trimEndBy p s := by
  rw [trimEndBy, trimEndBy, dropEndWhile, dropEndWhile, String.toList_append, reverse_append,
    dropWhile_append_of_pos fun c hc => ht c (mem_reverse.1 hc)]

theorem trimEndBy_append_of_last (hs : s.toList.getLast? = some c) (hc : p c = false) (t : String) :
    trimEndBy p (s ++ t) = s ++ trimEndBy p t := by
  obtain ⟨front, hfront⟩ := getLast?_eq_some_iff.1 hs
  have hstop : s.toList.reverse.dropWhile p = s.toList.reverse := by
    rw [hfront, reverse_concat, dropWhile_cons, hc, if_neg Bool.false_ne_true]
  rw [← String.toList_inj, String.toList_append, trimEndBy, trimEndBy, String.toList_ofList,
    String.toList_ofList, dropEndWhile, dropEndWhile, String.toList_append, reverse_append,
    dropWhile_append, hstop]
  split
  · next hall => rw [isEmpty_iff.1 hall, reverse_reverse, reverse_nil, append_nil]
  · rw [reverse_append, reverse_reverse]

theorem trimEndBy_eq_self_iff :
    trimEndBy p s = s ↔ ∀ c ∈ s.toList.getLast?, p c = false := by
  have hright : dropEndWhile p s.toList = s.toList.rdropWhile p := rfl
  rw [← String.toList_inj, trimEndBy, String.toList_ofList, hright, rdropWhile_eq_self_iff]
  constructor
  · intro h c hc
    obtain ⟨hne, rfl⟩ := mem_getLast?_eq_getLast hc
    simpa using h hne
  · intro h hne
    simpa using h _ (getLast?_eq_getLast_of_ne_nil hne)

end RepoWiki.Text
