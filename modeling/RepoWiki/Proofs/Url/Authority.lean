import Mathlib.Data.List.TakeWhile
import RepoWiki.Proofs.Json.Number
import RepoWiki.Proofs.Text.Occurrence
import RepoWiki.Proofs.Url
/-
Hosts and ports. A host is a name, or an address in brackets, which may hold the colon that sets off
a port elsewhere. An authority that is put together from a host and a port passes the checks on
authorities, and the port is found in it again (`port?_authority`).
-/

namespace RepoWiki

open List Text

/-! ## Numbers -/

variable {c : Char}

namespace Text

theorem digit?_of_isDigit (h : Json.isDigit c = true) : digit? c = some (c.toNat - '0'.toNat) := by
  have hrange : 48 ≤ c.toNat ∧ c.toNat ≤ 57 := by
    rw [Json.isDigit, Bool.and_eq_true, decide_eq_true_eq, decide_eq_true_eq] at h
    exact h
  have hzero : (decide (0x30 ≤ c.toNat) && decide (c.toNat < 0x30 + 10)) = true := by
    rw [Bool.and_eq_true, decide_eq_true_eq, decide_eq_true_eq]
    omega
  show ((0x30 :: zeroDigits.tail).find? fun z =>
    decide (z ≤ c.toNat) && decide (c.toNat < z + 10)).map (c.toNat - ·) = _
  rw [find?_cons, hzero]
  rfl

variable {cs : List Char}

theorem linesBetween_of_free (h : '_' ∉ cs) : linesBetween cs = true := by
  induction cs with
  | nil => rfl
  | cons c cs ih =>
    rw [mem_cons, not_or] at h
    rw [linesBetween]
    · exact ih h.2
    · exact fun hline => h.1 hline.symm

theorem filterMap_digit? (h : Json.Digits cs) :
    cs.filterMap digit? = cs.map fun c => c.toNat - '0'.toNat := by
  induction cs with
  | nil => rfl
  | cons c cs ih =>
    rw [filterMap_cons_some (digit?_of_isDigit (h c mem_cons_self)), map_cons,
      ih fun d hd => h d (mem_cons_of_mem c hd)]

theorem readNat_digits (hcs : cs ≠ []) (hdigits : Json.Digits cs)
    (hlength : cs.length ≤ digitLimit) : readNat cs = .ok (Json.digitValue cs) := by
  have hrun : cs.takeWhile isDigitOrLine = cs := by
    rw [takeWhile_eq_self_iff]
    intro c hc
    rw [isDigitOrLine, digit?_of_isDigit (hdigits c hc), Option.isSome_some, Bool.or_true]
  have hline : '_' ∉ cs := fun hmem => absurd (hdigits _ hmem) (by decide)
  have hhead : (cs.head? == some '_') = false := by
    rw [beq_eq_false_iff_ne]
    exact fun hfirst => hline (mem_of_mem_head? hfirst)
  have hempty : cs.isEmpty = false := by simpa using hcs
  rw [readNat, hrun, hempty, hhead, linesBetween_of_free hline,
    filterMap_digit? hdigits, length_map,
    if_neg (by decide), if_neg (by omega), if_neg (by omega), foldl_map, Json.digitValue]

theorem readNat_toString {n : Nat} (h : n ≤ 65535) : readNat (toString n).toList = .ok n := by
  have hwritten : (toString n).toList = Nat.toDigits 10 n := by
    rw [Nat.toString_eq_repr, Nat.toList_repr]
  have hlength : (Nat.toDigits 10 n).length ≤ 5 :=
    (Nat.length_toDigits_le_iff (by decide) (by decide)).2 (by omega)
  have hne : Nat.toDigits 10 n ≠ [] := length_pos_iff.1 Nat.length_toDigits_pos
  rw [hwritten, readNat_digits hne (Json.digits_toDigits n) (by rw [digitLimit]; omega),
    Json.digitValue_toDigits]

end Text

/-! ## Hosts -/

namespace Url

def isPlainChar (c : Char) : Bool :=
  isAuthorityChar c && !hiddenMarks.contains c.toNat && c != '@'

/-- A host: a name, or an address in brackets. -/
inductive IsHost : String → Prop where
  | name {host : String} (ne_empty : host ≠ "")
      (chars : host.toList.all (fun c => isPlainChar c && !oneOf ":[]" c) = true) : IsHost host
  | bracketed {inside : String} (address : checkBracketed inside = .ok ())
      (chars : inside.toList.all (fun c => isPlainChar c && !oneOf "[]" c) = true) :
      IsHost ("[" ++ inside ++ "]")

def portText : Option Nat → String
  | none => ""
  | some n => ":" ++ toString n

theorem leftBracket : Sole '[' "[" :=
  rfl

theorem rightBracket : Sole ']' "]" :=
  rfl

theorem at_ : Sole '@' "@" :=
  rfl

theorem mem_portText {port : Option Nat} (hc : c ∈ (portText port).toList) :
    c = ':' ∨ Json.isDigit c = true := by
  cases port with
  | none => cases hc
  | some n =>
    rw [portText, String.toList_append, mem_append] at hc
    rcases hc with hc | hc
    · exact .inl (by simpa using hc)
    · rw [Nat.toString_eq_repr, Nat.toList_repr] at hc
      exact .inr (Json.digits_toDigits n c hc)

theorem not_mem_portText (hcolon : c ≠ ':') (hdigit : Json.isDigit c = false) (port : Option Nat) :
    c ∉ (portText port).toList := by
  intro hc
  rcases mem_portText hc with h | h
  · exact hcolon h
  · rw [hdigit] at h
    cases h

theorem isPlainChar_of_isDigit (h : Json.isDigit c = true) : isPlainChar c = true := by
  have hrange : 48 ≤ c.toNat ∧ c.toNat ≤ 57 := by
    rw [Json.isDigit, Bool.and_eq_true, decide_eq_true_eq, decide_eq_true_eq] at h
    exact h
  have hall : ∀ n < 58, 48 ≤ n → isPlainChar (Char.ofNat n) = true := by decide
  rw [← Char.ofNat_toNat c]
  exact hall _ (by omega) hrange.1

theorem plain_portText (port : Option Nat) : (portText port).toList.all isPlainChar = true := by
  rw [all_eq_true]
  intro c hc
  rcases mem_portText hc with rfl | hdigit
  · decide
  · exact isPlainChar_of_isDigit hdigit

theorem all_left {p q : Char → Bool} {cs : List Char} (h : cs.all (fun c => p c && q c) = true) :
    cs.all p = true := by
  rw [all_eq_true] at h ⊢
  exact fun c hc => (Bool.and_eq_true _ _ ▸ h c hc : _ ∧ _).1

namespace IsHost

variable {host : String}

theorem plain (h : IsHost host) : host.toList.all isPlainChar = true := by
  cases h with
  | name ne_empty chars => exact all_left chars
  | bracketed address chars =>
    rw [String.toList_append, String.toList_append, all_append, all_append, all_left chars]
    decide

theorem ne_empty (h : IsHost host) : host ≠ "" := by
  cases h with
  | name ne_empty chars => exact ne_empty
  | bracketed address chars => simp

end IsHost

theorem plain_cases {cs : List Char} (h : cs.all isPlainChar = true) :
    cs.all isAuthorityChar = true ∧
      (∀ c ∈ cs, hiddenMarks.contains c.toNat = false) ∧ '@' ∉ cs := by
  refine ⟨all_left (all_left h), fun c hc => ?_, fun hc => ?_⟩
  · have hchar := all_eq_true.1 (all_left h) c hc
    rw [Bool.and_eq_true, Bool.not_eq_true'] at hchar
    exact hchar.2
  · exact absurd (all_eq_true.1 h '@' hc) (by decide)

theorem hasInfix_append (a sep b : String) : hasInfix sep (a ++ sep ++ b) = true := by
  refine hasInfixList_iff.2 ⟨a.toList, b.toList, ?_⟩
  rw [String.toList_append, String.toList_append]

theorem bracketed_append (inside after : String) :
    "[" ++ inside ++ "]" ++ after = "" ++ "[" ++ (inside ++ "]" ++ after) := by
  simp [String.append_assoc]

def portDigits : Option Nat → String
  | none => ""
  | some n => toString n

theorem cut?_portText {s : String} (h : ':' ∉ s.toList) (port : Option Nat) :
    ((cut? ":" (s ++ portText port)).getD (s ++ portText port, "")).2 = portDigits port := by
  cases port with
  | none => rw [portText, String.append_empty, cut?_free colon h, Option.getD_none, portDigits]
  | some n =>
    rw [portText, ← String.append_assoc, cut?_append colon h, Option.getD_some, portDigits]

section

variable {host : String} (h : IsHost host) (port : Option Nat)
include h

theorem plain_authority : (host ++ portText port).toList.all isPlainChar = true := by
  rw [String.toList_append, all_append, h.plain, plain_portText]
  rfl

theorem checkBrackets_authority : checkBrackets (host ++ portText port) = .ok () := by
  have hport : ∀ {c : Char}, c = '[' ∨ c = ']' → c ∉ (portText port).toList := by
    intro c hc
    rcases hc with rfl | rfl <;> exact not_mem_portText (by decide) (by decide) port
  rw [checkBrackets]
  cases h with
  | name ne_empty chars =>
    have hfree : ∀ {c : Char}, c = '[' ∨ c = ']' → c ∉ (host ++ portText port).toList := by
      intro c hc
      rw [String.toList_append, mem_append, not_or]
      refine ⟨not_mem_of_all chars ?_, hport hc⟩
      rcases hc with rfl | rfl <;> decide
    rw [hasInfix_free leftBracket (hfree (.inl rfl)), hasInfix_free rightBracket (hfree (.inr rfl))]
  | @bracketed inside address chars =>
    rw [hasInfix_append ("[" ++ inside) "]", bracketed_append, hasInfix_append "" "["]
    dsimp only
    rw [cut?_append leftBracket (by simp), Option.map_some, Option.getD_some,
      cut?_append rightBracket (not_mem_of_all chars (by decide)), Option.map_some,
      Option.getD_some, address]

theorem hostAndPort_authority {u : Url} (hu : u.authority = host ++ portText port) :
    u.hostAndPort.2 = portDigits port := by
  have hat : '@' ∉ (host ++ portText port).toList := (plain_cases (plain_authority h port)).2.2
  rw [hostAndPort, hu, cutLast?_free at_ hat, Option.map_none, Option.getD_none]
  cases h with
  | name ne_empty chars =>
    have hbracket : '[' ∉ (host ++ portText port).toList := by
      rw [String.toList_append, mem_append, not_or]
      exact ⟨not_mem_of_all chars (by decide), not_mem_portText (by decide) (by decide) port⟩
    rw [cut?_free leftBracket hbracket]
    exact cut?_portText (not_mem_of_all chars (by decide)) port
  | @bracketed inside address chars =>
    rw [bracketed_append, cut?_append leftBracket (by simp)]
    dsimp only
    rw [cut?_append rightBracket (not_mem_of_all chars (by decide)), Option.getD_some]
    dsimp only
    cases port with
    | none => rfl
    | some n =>
      have hcolon : portText (some n) = "" ++ ":" ++ toString n := by simp [portText]
      rw [hcolon, cut?_append colon (by simp)]
      rfl

theorem port?_authority (hport : ∀ n ∈ port, n ≤ 65535) {u : Url}
    (hu : u.authority = host ++ portText port) : u.port? = .ok port := by
  rw [port?, hostAndPort_authority h port hu]
  cases port with
  | none => rfl
  | some n =>
    have hle : n ≤ 65535 := hport n rfl
    have hdigits : (toString n).toList.all Char.isDigit = true := by
      rw [all_eq_true, Nat.toString_eq_repr, Nat.toList_repr]
      intro c hc
      rw [← Json.isDigit_eq]
      exact Json.digits_toDigits n c hc
    rw [portDigits]
    split
    · next hempty =>
      have hread := readNat_toString hle
      rw [hempty] at hread
      cases hread
    · rw [hdigits, if_pos rfl, readNat_toString hle]
      dsimp only
      rw [if_pos hle]

end

end Url
end RepoWiki
