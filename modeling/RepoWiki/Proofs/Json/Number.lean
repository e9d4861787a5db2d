import Mathlib.Algebra.Group.Nat.Defs
import RepoWiki.Json.Reader
/-
Reading a number from its spelling.

A number is a sign, a whole part, places after a point and an exponent, each of which may be
missing but the whole part. `numberAt_parts` puts together what is read of each of them; the other
statements say what becomes of the spellings in use: `numberAt_whole` of a whole number,
`numberAt_places` of a number with a point, `numberAt_power` of one with an exponent.
-/

namespace RepoWiki.Json

open List

variable {cs ds rest whole : List Char}

/-! ## Digits -/

def Digits (cs : List Char) : Prop :=
  ∀ c ∈ cs, isDigit c = true

theorem Digits.append (hc : Digits cs) (hd : Digits ds) : Digits (cs ++ ds) := by
  intro c hmem
  rcases mem_append.1 hmem with h | h
  · exact hc c h
  · exact hd c h

theorem digits_zeros (n : Nat) : Digits (replicate n '0') := by
  intro c hc
  rw [eq_of_mem_replicate hc]
  rfl

theorem isDigit_eq (c : Char) : isDigit c = c.isDigit := by
  rw [isDigit, Char.isDigit]
  rfl

theorem digits_toDigits (n : Nat) : Digits (Nat.toDigits 10 n) := by
  intro c hc
  rw [isDigit_eq]
  exact Nat.isDigit_of_mem_toDigits (by decide) (by decide) hc

theorem digitValue_eq (cs : List Char) : digitValue cs = Nat.ofDigitChars 10 cs 0 := by
  rw [digitValue, Nat.ofDigitChars_eq_foldl]
  congr 1
  funext n c
  rw [Nat.mul_comm]

theorem digitValue_toDigits (n : Nat) : digitValue (Nat.toDigits 10 n) = n := by
  rw [digitValue_eq, Nat.ofDigitChars_ten_toDigits]

theorem digitValue_append (cs ds : List Char) :
    digitValue (cs ++ ds) = digitValue cs * 10 ^ ds.length + digitValue ds := by
  rw [digitValue_eq, digitValue_eq, digitValue_eq, Nat.ofDigitChars_append,
    Nat.ofDigitChars_eq_ofDigitChars_zero, Nat.mul_comm]

theorem digitValue_zeros (n : Nat) : digitValue (replicate n '0') = 0 := by
  rw [digitValue_eq, Nat.ofDigitChars_replicate_zero, Nat.mul_zero]

theorem digitValue_lt (h : Digits cs) : digitValue cs < 10 ^ cs.length := by
  induction cs with
  | nil => decide
  | cons c cs ih =>
    have hc : c.toNat - '0'.toNat < 10 := by
      have := h c mem_cons_self
      rw [isDigit_eq, Char.isDigit_iff_toNat] at this
      have hzero : '0'.toNat = 48 := rfl
      have hnine : '9'.toNat = 57 := rfl
      omega
    have hcs : digitValue cs < 10 ^ cs.length := ih fun d hd => h d (mem_cons_of_mem c hd)
    have hone : digitValue [c] = c.toNat - '0'.toNat := by simp [digitValue]
    rw [← singleton_append, digitValue_append, length_append, length_singleton, hone,
      Nat.pow_add, Nat.pow_one]
    calc (c.toNat - '0'.toNat) * 10 ^ cs.length + digitValue cs
        < (c.toNat - '0'.toNat) * 10 ^ cs.length + 10 ^ cs.length := Nat.add_lt_add_left hcs _
      _ = (c.toNat - '0'.toNat + 1) * 10 ^ cs.length := (Nat.succ_mul _ _).symm
      _ ≤ 10 * 10 ^ cs.length := Nat.mul_le_mul_right _ hc

theorem span_digits (hd : Digits ds) (hrest : ∀ c ∈ rest.head?, isDigit c = false) :
    (ds ++ rest).takeWhile isDigit = ds ∧ (ds ++ rest).dropWhile isDigit = rest := by
  rw [takeWhile_append_of_pos hd, dropWhile_append_of_pos hd]
  cases rest with
  | nil => exact ⟨append_nil ds, rfl⟩
  | cons c rest =>
    have hc : ¬isDigit c = true := by simp [hrest c rfl]
    rw [takeWhile_cons_of_neg hc, dropWhile_cons_of_neg hc, append_nil]
    exact ⟨rfl, rfl⟩

/-! ## Parts of a number -/

/-- A zero, or digits that do not begin with one. -/
inductive Whole : List Char → Prop where
  | zero : Whole ['0']
  | more {c : Char} {ds : List Char} (lead : c ≠ '0') (digits : Digits (c :: ds)) : Whole (c :: ds)

theorem Whole.digits (h : Whole cs) : Digits cs := by
  cases h with
  | zero => exact digits_zeros 1
  | more _ digits => exact digits

theorem toDigits_lead {n : Nat} (hn : 0 < n) :
    ∃ c ds, Nat.toDigits 10 n = c :: ds ∧ c ≠ '0' := by
  induction n using Nat.strongRecOn with
  | ind n ih =>
    by_cases hlt : n < 10
    · refine ⟨n.digitChar, [], Nat.toDigits_of_lt_base hlt, ?_⟩
      have hall : ∀ d, d < 10 → 0 < d → Nat.digitChar d ≠ '0' := by decide
      exact hall n hlt hn
    · obtain ⟨c, ds, hds, hc⟩ := ih (n / 10) (by omega) (by omega)
      exact ⟨c, ds ++ [(n % 10).digitChar],
        by rw [Nat.toDigits_of_base_le (by decide) (by omega), hds, cons_append], hc⟩

theorem whole_toDigits_append {n : Nat} (hn : 0 < n) (hd : Digits ds) :
    Whole (Nat.toDigits 10 n ++ ds) := by
  have hdigits := (digits_toDigits n).append hd
  obtain ⟨c, cs, hcs, hc⟩ := toDigits_lead hn
  rw [hcs, cons_append] at hdigits ⊢
  exact .more hc hdigits

theorem whole_toDigits (n : Nat) : Whole (Nat.toDigits 10 n) := by
  by_cases hn : n = 0
  · rw [hn, Nat.toDigits_zero]
    exact .zero
  · rw [← append_nil (Nat.toDigits 10 n)]
    exact whole_toDigits_append (Nat.pos_of_ne_zero hn) fun c hc => absurd hc not_mem_nil

theorem wholePart?_append (h : Whole whole) (hrest : ∀ c ∈ rest.head?, isDigit c = false) :
    wholePart? (whole ++ rest) = some (whole, rest) := by
  cases h with
  | zero => rfl
  | @more c ds lead digits =>
    obtain ⟨htake, hdrop⟩ := span_digits (fun d hd => digits d (mem_cons_of_mem c hd)) hrest
    have hc := digits c mem_cons_self
    rw [cons_append, wholePart?.eq_def]
    simp [hc, htake, hdrop]

theorem fraction_point {places : List Char} (hplaces : places ≠ []) (hdigits : Digits places)
    (hrest : ∀ c ∈ rest.head?, isDigit c = false) :
    fraction ('.' :: (places ++ rest)) = (places, rest) := by
  obtain ⟨c, ds, rfl⟩ := exists_cons_of_ne_nil hplaces
  obtain ⟨htake, hdrop⟩ := span_digits (fun d hd => hdigits d (mem_cons_of_mem c hd)) hrest
  rw [cons_append, fraction, if_pos (hdigits c mem_cons_self), htake, hdrop]

theorem fraction_none (hrest : ∀ c ∈ rest.head?, c ≠ '.') :
    fraction rest = ([], rest) := by
  cases rest with
  | nil => rfl
  | cons c rest => simp [fraction, hrest c rfl]

theorem exponent_none (hrest : ∀ c ∈ rest.head?, c ≠ 'e' ∧ c ≠ 'E') :
    exponent rest = (none, rest) := by
  cases rest with
  | nil => rfl
  | cons c rest => simp [exponent, (hrest c rfl).1, (hrest c rfl).2]

theorem exponent_mark (negative : Bool) (hds : ds ≠ []) (hdigits : Digits ds)
    (hrest : ∀ c ∈ rest.head?, isDigit c = false) :
    exponent ('e' :: (if negative then '-' else '+') :: (ds ++ rest)) =
      (some (if negative then -(digitValue ds : Int) else digitValue ds, 2 + ds.length), rest) := by
  obtain ⟨htake, hdrop⟩ := span_digits hdigits hrest
  cases negative <;> simp [exponent, htake, hdrop, hds]

/-! ## Numbers -/

def Stops (rest : List Char) : Prop :=
  ∀ c ∈ rest.head?, isDigit c = false ∧ c ≠ '.' ∧ c ≠ 'e' ∧ c ≠ 'E'

theorem Stops.digit (h : Stops rest) : ∀ c ∈ rest.head?, isDigit c = false :=
  fun c hc => (h c hc).1

theorem Stops.fraction (h : Stops rest) : fraction rest = ([], rest) :=
  fraction_none fun c hc => (h c hc).2.1

theorem Stops.exponent (h : Stops rest) : exponent rest = (none, rest) :=
  exponent_none fun c hc => (h c hc).2.2

def minus (negative : Bool) : List Char :=
  if negative then ['-'] else []

theorem numberAt_parts (negative : Bool) {after places late : List Char}
    {power : Option (Int × Nat)} (hwhole : Whole whole)
    (hafter : ∀ c ∈ after.head?, isDigit c = false) (hplaces : fraction after = (places, late))
    (hpower : exponent late = (power, rest)) (pos : Nat) :
    ∃ next, numberAt ⟨minus negative ++ (whole ++ after), pos⟩ =
      if places.isEmpty && power.isNone then
        if Text.digitLimit < whole.length then .error ⟨.tooManyDigits whole.length, pos⟩
        else
          .ok (.int (if negative then -(digitValue whole : Int) else digitValue whole),
            ⟨rest, next⟩)
      else
        let x := Decimal.nearest (digitValue (whole ++ places)) (power.elim 0 (·.1) - places.length)
        .ok (.real (if negative then -x else x), ⟨rest, next⟩) := by
  have hpart := wholePart?_append hwhole hafter
  refine ⟨pos + ((minus negative).length + whole.length +
    (if places.isEmpty then 0 else places.length + 1) + power.elim 0 (·.2)), ?_⟩
  cases negative with
  | true =>
    simp only [numberAt, minus, if_true, cons_append, nil_append, hpart, hplaces, hpower]
    rfl
  | false =>
    obtain ⟨c, ds, hcs⟩ : ∃ c ds, whole ++ after = c :: ds :=
      exists_cons_of_ne_nil (by cases hwhole <;> simp)
    have hc : c ≠ '-' := by
      rintro rfl
      cases hwhole with
      | zero => simp at hcs
      | more _ digits =>
        rw [cons_append] at hcs
        obtain ⟨rfl, -⟩ := cons.inj hcs
        exact absurd (digits _ mem_cons_self) (by decide)
    rw [hcs] at hpart
    rw [minus, if_neg Bool.false_ne_true, nil_append, hcs]
    unfold numberAt
    split
    next hsign =>
      split at hsign
      · next heq => exact absurd (cons.inj heq).1 hc
      · cases hsign
        simp only [hpart, hplaces, hpower]
        rfl

theorem numberAt_whole (negative : Bool) (hwhole : Whole whole) (hrest : Stops rest) (pos : Nat) :
    ∃ next, numberAt ⟨minus negative ++ (whole ++ rest), pos⟩ =
      if Text.digitLimit < whole.length then .error ⟨.tooManyDigits whole.length, pos⟩
      else
        .ok (.int (if negative then -(digitValue whole : Int) else digitValue whole),
          ⟨rest, next⟩) :=
  numberAt_parts negative hwhole hrest.digit hrest.fraction hrest.exponent pos

theorem numberAt_places (negative : Bool) {places : List Char} (hwhole : Whole whole)
    (hplaces : places ≠ []) (hdigits : Digits places) (hrest : Stops rest) (pos : Nat) :
    ∃ next, numberAt ⟨minus negative ++ (whole ++ '.' :: (places ++ rest)), pos⟩ =
      let x := Decimal.nearest (digitValue (whole ++ places)) (0 - places.length)
      .ok (.real (if negative then -x else x), ⟨rest, next⟩) := by
  have hpoint : ∀ c ∈ ('.' :: (places ++ rest)).head?, isDigit c = false := by
    rintro c ⟨⟩
    rfl
  obtain ⟨next, hnext⟩ := numberAt_parts negative hwhole hpoint
    (fraction_point hplaces hdigits hrest.digit) hrest.exponent pos
  refine ⟨next, hnext.trans ?_⟩
  rw [if_neg (by simp [hplaces])]
  rfl

/-! ## Values -/

theorem ne_of_isDigit {x d : Char} (hd : isDigit d = true) (hx : isDigit x = false) : x ≠ d := by
  rintro rfl
  rw [hd] at hx
  cases hx

theorem keyword?_number (negative : Bool) {d : Char} (hd : isDigit d = true) (rest : List Char)
    (pos : Nat) : keyword? ⟨minus negative ++ d :: rest, pos⟩ = none := by
  rw [keyword?, findSome?_eq_none_iff]
  intro word hword
  simp only [keywords, mem_cons, not_mem_nil, or_false] at hword
  cases negative with
  | true =>
    rcases hword with rfl | rfl | rfl | rfl | rfl | rfl <;>
      simp [minus, ne_of_isDigit hd (show isDigit 'I' = false from rfl)]
  | false =>
    rcases hword with rfl | rfl | rfl | rfl | rfl | rfl <;>
      simp [minus, ne_of_isDigit hd (show isDigit 'n' = false from rfl),
        ne_of_isDigit hd (show isDigit 't' = false from rfl),
        ne_of_isDigit hd (show isDigit 'f' = false from rfl),
        ne_of_isDigit hd (show isDigit 'N' = false from rfl),
        ne_of_isDigit hd (show isDigit 'I' = false from rfl),
        ne_of_isDigit hd (show isDigit '-' = false from rfl)]

theorem valueAt_number (negative : Bool) {d : Char} (hd : isDigit d = true) (rest : List Char)
    (fuel room pos : Nat) :
    valueAt (fuel + 1) room ⟨minus negative ++ d :: rest, pos⟩ =
      numberAt ⟨minus negative ++ d :: rest, pos⟩ := by
  have hword := keyword?_number negative hd rest pos
  cases negative with
  | true =>
    simp only [minus, if_true, cons_append, nil_append] at hword ⊢
    simp [valueAt, hword]
  | false =>
    simp only [minus, Bool.false_eq_true, if_false, nil_append] at hword ⊢
    simp [valueAt, hword, (ne_of_isDigit hd (show isDigit '"' = false from rfl)).symm,
      (ne_of_isDigit hd (show isDigit '\x7b' = false from rfl)).symm,
      (ne_of_isDigit hd (show isDigit '[' = false from rfl)).symm]

end RepoWiki.Json
