import Mathlib.Data.Bool.AllAny
import RepoWiki.Proofs.Path
import RepoWiki.Proofs.Run
import RepoWiki.Url
/-
Addresses that are put together are taken apart again. An address of a scheme, an authority and a
path, in which none of the marks occurs that would end one of the parts early, has just these parts
(`ofText_parts`). A host without marks is an authority of its own (`ofText_spelled`).
-/

namespace RepoWiki

open List Text
open String (ofList ofList_toList toList_append toList_inj)

variable {p : Char → Bool}

namespace Text

variable {c : Char}

variable {s : String}

variable {sep : String}

theorem cut?_append (hs : Sole c sep) (h : c ∉ s.toList) (t : String) :
    cut? sep (s ++ sep ++ t) = some (s, t) := by
  rw [Sole] at hs
  simp only [cut?, toList_append, hs, append_assoc, singleton_append,
    cutList_append _ h, Option.map_some, ofList_toList]

theorem cut?_free (hs : Sole c sep) (h : c ∉ s.toList) : cut? sep s = none := by
  rw [Sole] at hs
  rw [cut?, hs, cutList_free h, Option.map_none]

theorem hasInfix_free (hs : Sole c sep) (h : c ∉ s.toList) : hasInfix sep s = false := by
  rw [Sole] at hs
  rw [hasInfix, hs]
  generalize s.toList = cs at h
  induction cs with
  | nil => rfl
  | cons d cs ih =>
    rw [mem_cons, not_or] at h
    simp [hasInfixList, List.isPrefixOf, h.1, ih h.2]

theorem exists_cutLast? (hs : Sole c sep) (h : c ∈ s.toList) :
    ∃ a b, c ∉ b.toList ∧ s = a ++ sep ++ b ∧ cutLast? sep s = some (a, b) := by
  obtain ⟨xs, ys, hsplit, hfree⟩ := eq_append_cons_of_mem (mem_reverse.2 h)
  have hs' : s = ofList ys.reverse ++ sep ++ ofList xs.reverse := by
    rw [← toList_inj, ← reverse_inj, hsplit]
    rw [Sole] at hs
    simp [hs]
  have hlast : c ∉ (ofList xs.reverse).toList := by simpa using hfree
  exact ⟨_, _, hlast, hs', hs' ▸ cutLast?_append hs _ hlast⟩

theorem oneOf_eq_false {set : String} : oneOf set c = false ↔ c ∉ set.toList := by
  simp [oneOf]

theorem trimBy_append {before after : String} (hs : s ≠ "")
    (hbefore : ∀ c ∈ before.toList, p c = true) (hafter : ∀ c ∈ after.toList, p c = true)
    (hhead : ∀ c ∈ s.toList.head?, p c = false) (hlast : ∀ c ∈ s.toList.getLast?, p c = false) :
    trimBy p (before ++ s ++ after) = s := by
  have hdrop : ∀ cs ds : List Char, cs ≠ [] → (∀ c ∈ cs.head?, p c = false) →
      (cs ++ ds).dropWhile p = cs ++ ds := by
    intro cs ds hcs hfirst
    cases cs with
    | nil => exact absurd rfl hcs
    | cons d cs =>
      rw [cons_append, dropWhile_cons, hfirst d rfl, if_neg Bool.false_ne_true]
  have hne : s.toList ≠ [] := mt String.toList_eq_nil_iff.1 hs
  have hend := hdrop s.toList.reverse [] (by simpa using hne) (by simpa using hlast)
  rw [append_nil] at hend
  rw [trimBy, dropEndWhile, toList_append, toList_append, append_assoc,
    dropWhile_append_of_pos hbefore, hdrop _ _ hne hhead, reverse_append,
    dropWhile_append_of_pos (by simpa using hafter), hend, reverse_reverse,
    ofList_toList]

theorem trimBy_eq_self (hs : s ≠ "") (hhead : ∀ c ∈ s.toList.head?, p c = false)
    (hlast : ∀ c ∈ s.toList.getLast?, p c = false) : trimBy p s = s := by
  have htrim : trimBy p ("" ++ s ++ "") = s :=
    trimBy_append hs (by simp) (by simp) hhead hlast
  simpa using htrim

end Text

namespace Url

variable {scheme host : String}

/-- A scheme as it may be written. -/
structure SchemeText (scheme : String) : Prop where
  start : ∃ c ∈ scheme.toList.head?, c.isAlpha = true
  chars : scheme.toList.all isSchemeChar = true

/-- A scheme as it is written in small letters. -/
structure IsScheme (scheme : String) : Prop where
  start : ∃ c ∈ scheme.toList.head?, c.isAlpha = true
  chars : scheme.toList.all isSchemeChar = true
  small : Text.lower scheme = scheme

theorem IsScheme.text (h : IsScheme scheme) : SchemeText scheme :=
  ⟨h.start, h.chars⟩

def isAuthorityChar (c : Char) : Bool :=
  !oneOf "/?#\t\r\n" c

def isHostChar (c : Char) : Bool :=
  !oneOf "/?#[]\t\r\n" c && !hiddenMarks.contains c.toNat

def isPathChar (c : Char) : Bool :=
  !oneOf "?#;\t\r\n" c

theorem not_mem_of_all {s : String} (h : s.toList.all p = true) {c : Char} (hc : p c = false) :
    c ∉ s.toList := by
  intro hmem
  rw [all_eq_true.1 h c hmem] at hc
  cases hc

theorem colon : Sole ':' ":" :=
  rfl

theorem semicolon : Sole ';' ";" :=
  rfl

theorem queryMark : Sole '?' "?" :=
  rfl

theorem fragmentMark : Sole '#' "#" :=
  rfl

theorem authorityChars (h : host.toList.all isHostChar = true) :
    host.toList.all isAuthorityChar = true := by
  rw [all_eq_true] at h ⊢
  intro c hc
  have hchar := h c hc
  rw [isHostChar, Bool.and_eq_true, Bool.not_eq_true', oneOf_eq_false] at hchar
  rw [isAuthorityChar, Bool.not_eq_true', oneOf_eq_false]
  intro hmem
  have hsub : ∀ d ∈ "/?#\t\r\n".toList, d ∈ "/?#[]\t\r\n".toList :=
    all_iff_forall_prop.1 (by decide)
  exact hchar.1 (hsub c hmem)

theorem cutScheme_eq (h : SchemeText scheme) (rest : String) :
    cutScheme (scheme ++ ":" ++ rest) = (lower scheme, rest) := by
  obtain ⟨c, hc, halpha⟩ := h.start
  obtain ⟨cs, hcs⟩ : ∃ cs, scheme.toList = c :: cs := by
    cases hs : scheme.toList with
    | nil => simp [hs] at hc
    | cons d ds =>
      obtain rfl : d = c := by simpa [hs] using hc
      exact ⟨ds, rfl⟩
  have hchars := h.chars
  rw [hcs] at hchars
  rw [cutScheme, cut?_append colon (not_mem_of_all h.chars (by decide))]
  dsimp only
  rw [hcs]
  dsimp only
  rw [halpha, hchars, Bool.and_self, if_pos rfl]

theorem cutAuthority_eq {authority path : String}
    (hauthority : authority.toList.all isAuthorityChar = true)
    (hpath : path.toList.head? = some '/') :
    cutAuthority ("//" ++ authority ++ path) = (authority, path) := by
  have hinside : ∀ c ∈ authority.toList, (!oneOf "/?#" c) = true := by
    intro c hc
    have hchar := all_eq_true.1 hauthority c hc
    rw [isAuthorityChar, Bool.not_eq_true', oneOf_eq_false] at hchar
    rw [Bool.not_eq_true', oneOf_eq_false]
    refine fun hmem => hchar ?_
    have hsub : ∀ d ∈ "/?#".toList, d ∈ "/?#\t\r\n".toList :=
      all_iff_forall_prop.1 (by decide)
    exact hsub c hmem
  have hslashes : ("//" ++ authority ++ path).toList =
      '/' :: '/' :: (authority.toList ++ path.toList) := by
    simp
  rw [cutAuthority, hslashes]
  change (ofList ((authority.toList ++ path.toList).takeWhile _),
    ofList ((authority.toList ++ path.toList).dropWhile _)) = _
  rw [takeWhile_append_of_pos hinside, dropWhile_append_of_pos hinside]
  cases hcs : path.toList with
  | nil => simp [hcs] at hpath
  | cons d cs =>
    obtain rfl : d = '/' := by simpa [hcs] using hpath
    have hmark : (!oneOf "/?#" '/') = false := by decide
    rw [takeWhile_cons, dropWhile_cons, hmark, if_neg Bool.false_ne_true,
      if_neg Bool.false_ne_true, append_nil, ofList_toList, ← hcs, ofList_toList]

theorem checkBrackets_eq_ok (hhost : host.toList.all isHostChar = true) :
    checkBrackets host = .ok () := by
  have hleft : hasInfix "[" host = false :=
    hasInfix_free (show Sole '[' "[" from rfl) (not_mem_of_all hhost (by decide))
  have hright : hasInfix "]" host = false :=
    hasInfix_free (show Sole ']' "]" from rfl) (not_mem_of_all hhost (by decide))
  rw [checkBrackets, hleft, hright]

theorem checkMarks_eq_ok {authority : String}
    (h : ∀ c ∈ authority.toList, hiddenMarks.contains c.toNat = false) :
    checkMarks authority = .ok () := by
  have hnone : (authority.toList.any fun c => hiddenMarks.contains c.toNat) = false := by
    rw [any_eq_false]
    intro c hc
    rw [h c hc]
    exact Bool.false_ne_true
  rw [checkMarks, hnone, if_neg Bool.false_ne_true]

theorem dropParameters_eq_self (scheme : String) {path : String}
    (hchars : path.toList.all isPathChar = true) : dropParameters scheme path = path := by
  have hfree : ';' ∉ path.toList := not_mem_of_all hchars (by decide)
  rw [dropParameters]
  split
  · by_cases hstroke : '/' ∈ path.toList
    · obtain ⟨before, last, -, hpath, hcut⟩ := exists_cutLast? Path.stroke hstroke
      have hlast : ';' ∉ last.toList := by
        intro hmem
        apply hfree
        rw [hpath, toList_append]
        exact mem_append_right _ hmem
      rw [hcut]
      dsimp only
      rw [cut?_free semicolon hlast, Option.map_none, Option.getD_none, ← hpath]
    · rw [cutLast?_free Path.stroke hstroke]
      dsimp only
      rw [cut?_free semicolon hfree, Option.map_none, Option.getD_none]
  · rfl

theorem toNat_of_isAlpha {c : Char} (h : c.isAlpha = true) :
    65 ≤ c.toNat ∧ c.toNat ≤ 90 ∨ 97 ≤ c.toNat ∧ c.toNat ≤ 122 := by
  have hcase : (decide (c.val ≥ 'A'.val ∧ c.val ≤ 'Z'.val) ||
      (decide (c.val ≥ 'a'.val) && decide (c.val ≤ 'z'.val))) = true := h
  simp only [Bool.or_eq_true, Bool.and_eq_true, decide_eq_true_eq, ge_iff_le,
    UInt32.le_iff_toNat_le] at hcase
  exact hcase

theorem isLeadIn_of_isAlpha {c : Char} (h : c.isAlpha = true) : isLeadIn c = false := by
  rw [isLeadIn, decide_eq_false_iff_not]
  have hcode := toNat_of_isAlpha h
  omega

theorem SchemeText.dropWhile_isLeadIn (h : SchemeText scheme) (cs : List Char) :
    (scheme.toList ++ cs).dropWhile isLeadIn = scheme.toList ++ cs := by
  obtain ⟨c, hc, halpha⟩ := h.start
  cases hs : scheme.toList with
  | nil => simp [hs] at hc
  | cons d ds =>
    obtain rfl : d = c := by simpa [hs] using hc
    rw [cons_append, dropWhile_cons, isLeadIn_of_isAlpha halpha, if_neg Bool.false_ne_true]

section

variable {scheme authority path : String} (hscheme : SchemeText scheme)
  (hauthority : authority.toList.all isAuthorityChar = true)
  (hpath : path.toList.all isPathChar = true)
include hscheme hauthority hpath

theorem cleaned_spelled :
    ((scheme ++ "://" ++ authority ++ path).toList.dropWhile isLeadIn).filter
      (fun c => !oneOf "\t\r\n" c) = (scheme ++ "://" ++ authority ++ path).toList := by
  have hdrop : (scheme ++ "://" ++ authority ++ path).toList.dropWhile isLeadIn =
      (scheme ++ "://" ++ authority ++ path).toList := by
    rw [toList_append, toList_append, toList_append, append_assoc,
      append_assoc, hscheme.dropWhile_isLeadIn]
  rw [hdrop, filter_eq_self]
  intro c hc
  rw [Bool.not_eq_true', oneOf_eq_false]
  intro hmem
  have hout : ∀ d ∈ "\t\r\n".toList, isSchemeChar d = false ∧ d ∉ "://".toList ∧
      isAuthorityChar d = false ∧ isPathChar d = false :=
    all_iff_forall_prop.1 (by decide)
  obtain ⟨h1, h2, h3, h4⟩ := hout c hmem
  simp only [toList_append, mem_append] at hc
  rcases hc with ((hc | hc) | hc) | hc
  · exact not_mem_of_all hscheme.chars h1 hc
  · exact h2 hc
  · exact not_mem_of_all hauthority h3 hc
  · exact not_mem_of_all hpath h4 hc

theorem ofText_parts (hbrackets : checkBrackets authority = .ok ())
    (hmarks : checkMarks authority = .ok ()) (hstart : path.toList.head? = some '/') :
    ofText (scheme ++ "://" ++ authority ++ path) =
      .ok ⟨lower scheme, authority, path, "", ""⟩ := by
  have hcolon : scheme ++ "://" ++ authority ++ path =
      scheme ++ ":" ++ ("//" ++ authority ++ path) := by
    rw [← toList_inj]
    simp
  have hwhole : ofList (((scheme ++ "://" ++ authority ++ path).toList.dropWhile
      isLeadIn).filter fun c => !oneOf "\t\r\n" c) =
        scheme ++ ":" ++ ("//" ++ authority ++ path) := by
    rw [cleaned_spelled hscheme hauthority hpath, ofList_toList, hcolon]
  rw [ofText]
  dsimp only
  rw [hwhole, cutScheme_eq hscheme]
  dsimp only
  rw [cutAuthority_eq hauthority hstart]
  dsimp only
  rw [hbrackets, ok_bind, cut?_free fragmentMark (not_mem_of_all hpath (by decide)),
    Option.getD_none]
  dsimp only
  rw [cut?_free queryMark (not_mem_of_all hpath (by decide)), Option.getD_none]
  dsimp only
  rw [hmarks, ok_bind, dropParameters_eq_self _ hpath]
  rfl

end

theorem ofText_spelled {path : String} (hscheme : IsScheme scheme)
    (hhost : host.toList.all isHostChar = true) (hstart : path.toList.head? = some '/')
    (hpath : path.toList.all isPathChar = true) :
    ofText (scheme ++ "://" ++ host ++ path) = .ok ⟨scheme, host, path, "", ""⟩ := by
  have hmarks : ∀ c ∈ host.toList, hiddenMarks.contains c.toNat = false := by
    intro c hc
    have hchar := all_eq_true.1 hhost c hc
    rw [isHostChar, Bool.and_eq_true, Bool.not_eq_true', Bool.not_eq_true'] at hchar
    exact hchar.2
  rw [ofText_parts hscheme.text (authorityChars hhost) hpath (checkBrackets_eq_ok hhost)
    (checkMarks_eq_ok hmarks) hstart, hscheme.small]

end Url
end RepoWiki
