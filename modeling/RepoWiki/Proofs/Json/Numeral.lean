import Mathlib.Data.Bool.AllAny
import RepoWiki.Proofs.Decimal.Double
import RepoWiki.Proofs.Decimal.Shortest
import RepoWiki.Proofs.Json.Number
/-
Numbers that are written and read back.

A whole number is read from its digits, if they are not too many (`valueAt_int`). A double is read
back bit by bit (`valueAt_real`): its text spells a decimal that is rounded to it, in whichever of
the forms it is written (`spells_text`), and the words for what is no finite number are keywords.
-/

namespace RepoWiki.Json

open Decimal List

/-! ## Whole numbers -/

theorem toList_toString (n : Int) :
    (toString n).toList = minus (n < 0) ++ Nat.toDigits 10 n.natAbs := by
  cases n with
  | ofNat m =>
    rw [minus, if_neg (by simp), nil_append, ← Nat.toList_repr]
    rfl
  | negSucc m =>
    rw [minus, if_pos (by simp), ← Nat.toList_repr]
    show ("-" ++ Nat.repr (m + 1)).toList = _
    rw [String.toList_append]
    rfl

theorem valueAt_whole (negative : Bool) {whole after : List Char} (hwhole : Whole whole)
    (fuel room pos : Nat) :
    valueAt (fuel + 1) room ⟨minus negative ++ (whole ++ after), pos⟩ =
      numberAt ⟨minus negative ++ (whole ++ after), pos⟩ := by
  have hdigits := hwhole.digits
  cases hwhole with
  | zero => exact valueAt_number negative (show isDigit '0' = true from rfl) _ fuel room pos
  | more lead digits =>
    exact valueAt_number negative (hdigits _ mem_cons_self) _ fuel room pos

theorem natAbs_sign (n : Int) :
    (if decide (n < 0) = true then -(n.natAbs : Int) else n.natAbs) = n := by
  split
  · next h =>
    have := of_decide_eq_true h
    omega
  · next h =>
    have : ¬n < 0 := fun hn => h (decide_eq_true hn)
    omega

variable {rest : List Char} {n : Nat}

theorem valueAt_int {n : Int} (h : n.natAbs < 10 ^ Text.digitLimit) (hrest : Stops rest)
    (fuel room pos : Nat) :
    ∃ next, valueAt (fuel + 1) room ⟨(toString n).toList ++ rest, pos⟩ =
      .ok (.int n, ⟨rest, next⟩) := by
  have hlength : (Nat.toDigits 10 n.natAbs).length ≤ Text.digitLimit :=
    (Nat.length_toDigits_le_iff (by decide) (by decide)).2 h
  obtain ⟨next, hnext⟩ := numberAt_whole (n < 0) (whole_toDigits n.natAbs) hrest pos
  refine ⟨next, ?_⟩
  rw [toList_toString, append_assoc, valueAt_whole _ (whole_toDigits _), hnext,
    if_neg (by omega), digitValue_toDigits, natAbs_sign]

/-! ## Decimals -/

section

variable (negative : Bool) {rest : List Char} (hrest : Stops rest) (pos : Nat)

include hrest

theorem numberAt_power {whole places digits : List Char} (hwhole : Whole whole)
    (hplaces : Digits places) (small : Bool) (hdigits : digits ≠ []) (hpower : Digits digits) :
    ∃ next, numberAt ⟨minus negative ++ (whole ++ ((if places = [] then [] else '.' :: places) ++
        'e' :: (if small then '-' else '+') :: (digits ++ rest))), pos⟩ =
      let x := nearest (digitValue (whole ++ places))
        ((if small then -(digitValue digits : Int) else digitValue digits) - places.length)
      .ok (.real (if negative then -x else x), ⟨rest, next⟩) := by
  have hmark := exponent_mark small hdigits hpower hrest.digit
  by_cases hnone : places = []
  · subst hnone
    obtain ⟨next, hnext⟩ := numberAt_parts negative hwhole (by rintro c ⟨⟩; rfl)
      (fraction_none (by rintro c ⟨⟩; decide)) hmark pos
    exact ⟨next, hnext⟩
  · have hpoint := @fraction_point ('e' :: (if small then '-' else '+') :: (digits ++ rest)) places
      hnone hplaces (by rintro c ⟨⟩; rfl)
    obtain ⟨next, hnext⟩ := numberAt_parts negative hwhole (by rintro c ⟨⟩; rfl) hpoint hmark pos
    refine ⟨next, ?_⟩
    rw [if_neg hnone, cons_append, hnext, if_neg (by simp)]
    rfl

end

/-- A text spells a number if it is read as the double that is nearest to it. -/
def Spells (text : List Char) (x : ℚ) : Prop :=
  ∃ (digits : Nat) (e : Int), (digits : ℚ) * 10 ^ e = x ∧
    ∀ (negative : Bool) (rest : List Char), Stops rest →
    ∀ fuel room pos, ∃ next,
      valueAt (fuel + 1) room ⟨minus negative ++ (text ++ rest), pos⟩ =
        let y := nearest digits e
        .ok (.real (if negative then -y else y), ⟨rest, next⟩)

theorem spells_places {whole places : List Char} {x : ℚ} (hwhole : Whole whole)
    (hplaces : places ≠ []) (hdigits : Digits places)
    (hx : (digitValue (whole ++ places) : ℚ) * 10 ^ (0 - places.length : Int) = x) :
    Spells (whole ++ '.' :: places) x := by
  refine ⟨_, _, hx, fun negative rest hrest fuel room pos => ?_⟩
  obtain ⟨next, hnext⟩ := numberAt_places negative hwhole hplaces hdigits hrest pos
  refine ⟨next, ?_⟩
  rw [append_assoc, cons_append, valueAt_whole negative hwhole, hnext]

theorem spells_power {whole places digits : List Char} {x : ℚ} (hwhole : Whole whole)
    (hplaces : Digits places) (small : Bool) (hdigits : digits ≠ []) (hpower : Digits digits)
    (hx : (digitValue (whole ++ places) : ℚ) *
      10 ^ ((if small then -(digitValue digits : Int) else digitValue digits) - places.length) =
        x) :
    Spells (whole ++ ((if places = [] then [] else '.' :: places) ++
      'e' :: (if small then '-' else '+') :: digits)) x := by
  refine ⟨_, _, hx, fun negative rest hrest fuel room pos => ?_⟩
  obtain ⟨next, hnext⟩ :=
    numberAt_power negative hrest pos hwhole hplaces small hdigits hpower
  refine ⟨next, ?_⟩
  simp only [append_assoc, cons_append]
  rw [valueAt_whole negative hwhole, hnext]

theorem whole_take {k : Nat} (hn : 0 < n) (hk : 0 < k) : Whole ((Nat.toDigits 10 n).take k) := by
  have hdigits := digits_toDigits n
  obtain ⟨c, ds, hds, hc⟩ := toDigits_lead hn
  obtain ⟨k, rfl⟩ := Nat.exists_eq_succ_of_ne_zero (by omega : k ≠ 0)
  rw [hds] at hdigits ⊢
  rw [take_succ_cons]
  refine .more hc fun d hd => hdigits d ?_
  rcases mem_cons.1 hd with rfl | hd
  · exact mem_cons_self
  · exact mem_cons_of_mem c (mem_of_mem_take hd)

theorem spells_positional (hn : 0 < n) (point : Int) :
    Spells (positional (Nat.toDigits 10 n) point)
      (n * 10 ^ (point - (Nat.toDigits 10 n).length)) := by
  have hdigits := digits_toDigits n
  have hne : Nat.toDigits 10 n ≠ [] := Nat.toDigits_ne_nil
  have hvalue := digitValue_toDigits n
  rw [positional]
  split
  · next hpoint =>
    refine @spells_places ['0'] _ _ .zero (by simp [hne]) ((digits_zeros _).append hdigits) ?_
    have hzeros : digitValue (['0'] ++ (List.replicate (-point).toNat '0' ++ Nat.toDigits 10 n)) =
        n := by
      rw [digitValue_append, digitValue_append, digitValue_zeros, hvalue]
      simp [digitValue]
    rw [hzeros, length_append, length_replicate]
    congr 2
    push_cast
    omega
  · split
    · next hpoint hlength =>
      refine @spells_places _ ['0'] _ (whole_toDigits_append hn (digits_zeros _)) (by simp)
        (digits_zeros 1) ?_
      rw [digitValue_append, digitValue_append, digitValue_zeros, hvalue]
      have hplace : digitValue ['0'] = 0 := rfl
      have hpower : point - (Nat.toDigits 10 n).length =
          ((point.toNat - (Nat.toDigits 10 n).length : Nat) : Int) := by omega
      rw [hplace, hpower, zpow_natCast, length_replicate]
      push_cast
      simp
    · next hpoint hlength =>
      refine spells_places (whole_take hn (by omega)) ?_ ?_ ?_
      · rw [ne_eq, drop_eq_nil_iff]
        exact hlength
      · exact fun d hd => hdigits d (mem_of_mem_drop hd)
      · rw [take_append_drop, hvalue, length_drop]
        congr 2
        omega

def powerDigits (e : Int) : List Char :=
  let size := Nat.toDigits 10 e.natAbs
  if size.length < 2 then '0' :: size else size

theorem exponential_cons (c : Char) (ds : List Char) (e : Int) :
    exponential (c :: ds) e =
      [c] ++ ((if ds = [] then [] else '.' :: ds) ++
        'e' :: (if decide (e < 0) then '-' else '+') :: powerDigits e) := by
  unfold exponential powerDigits
  cases ds <;> simp

theorem powerDigits_spec (e : Int) :
    powerDigits e ≠ [] ∧ Digits (powerDigits e) ∧ digitValue (powerDigits e) = e.natAbs := by
  have hdigits := digits_toDigits e.natAbs
  have hvalue := digitValue_toDigits e.natAbs
  rw [powerDigits]
  split
  · refine ⟨by simp, (digits_zeros 1).append hdigits, ?_⟩
    rw [← singleton_append, digitValue_append, hvalue]
    simp [digitValue]
  · exact ⟨Nat.toDigits_ne_nil, hdigits, hvalue⟩

theorem spells_exponential (hn : 0 < n) (e : Int) :
    Spells (exponential (Nat.toDigits 10 n) e)
      (n * 10 ^ (e + 1 - (Nat.toDigits 10 n).length)) := by
  have hdigits := digits_toDigits n
  have hvalue := digitValue_toDigits n
  obtain ⟨c, ds, hds, hc⟩ := toDigits_lead hn
  rw [hds] at hdigits hvalue ⊢
  have hlead : Whole [c] := .more hc fun d hd => hdigits d (by simp_all)
  have hplaces : Digits ds := fun d hd => hdigits d (mem_cons_of_mem c hd)
  obtain ⟨hsome, hpower, habs⟩ := powerDigits_spec e
  rw [exponential_cons]
  refine spells_power hlead hplaces _ hsome hpower ?_
  rw [singleton_append, hvalue, habs, natAbs_sign, length_cons]
  congr 2
  push_cast
  ring

theorem spells_text {d : Scientific} (hd : 0 < d.digits) :
    Spells d.text (d.digits * 10 ^ d.exponent) := by
  have hpoint : ∀ k : Int, k + d.exponent - k = d.exponent := by
    intro k
    ring
  rw [Scientific.text]
  split
  · have h := spells_positional hd ((Nat.toDigits 10 d.digits).length + d.exponent)
    rwa [hpoint] at h
  · have h := spells_exponential hd ((Nat.toDigits 10 d.digits).length + d.exponent - 1)
    rwa [sub_add_cancel, hpoint] at h

/-! ## Doubles -/

theorem valueAt_spelled {text : List Char} {m : Nat} {q : Int} {tight : Bool} {y : ℚ}
    (hspells : Spells text y) (hd : Double m q tight) (hy : Rounds m q tight y)
    {x : Float} {negative : Bool}
    (hx : (if negative then -Float.ofBits (bitsOf m q).toUInt64
      else Float.ofBits (bitsOf m q).toUInt64) = x) (hrest : Stops rest)
    (fuel room pos : Nat) :
    ∃ next, valueAt (fuel + 1) room ⟨minus negative ++ (text ++ rest), pos⟩ =
      .ok (.real x, ⟨rest, next⟩) := by
  obtain ⟨digits, e, rfl, hread⟩ := hspells
  obtain ⟨next, hnext⟩ := hread negative rest hrest fuel room pos
  refine ⟨next, ?_⟩
  rw [hnext, nearest_eq hd hy, ← hx]

theorem unsigned_eq (x : Float) :
    unsigned x =
      (x.toBits.toNat >>> 52) % 2048 * 2 ^ 52 + x.toBits.toNat % 2 ^ 52 := by
  rw [unsigned, Nat.shiftRight_eq_div_pow]
  omega

theorem signed_ofBits {x : Float} (hn : unsigned x = n)
    (hnumber : (x.toBits.toNat >>> 52) % 2048 = 2047 → x.toBits.toNat % 2 ^ 52 = 0) :
    (if decide (x.toBits.toNat >>> 63 = 1) then -Float.ofBits n.toUInt64
      else Float.ofBits n.toUInt64) = x := by
  rw [← hn]
  split
  · next hsign => exact neg_ofBits (of_decide_eq_true hsign) hnumber
  · next hsign => exact pos_ofBits fun h => hsign (decide_eq_true h)

theorem minus_append (negative : Bool) (s : String) :
    ((if negative then "-" else "") ++ s).toList = minus negative ++ s.toList := by
  cases negative with
  | false => simp [minus]
  | true => simp [minus]

theorem valueAt_infinity (rest : List Char) (fuel room pos : Nat) :
    valueAt (fuel + 1) room ⟨"Infinity".toList ++ rest, pos⟩ =
      .ok (.real (Float.ofBits (2047 * 2 ^ 52 + 0).toUInt64), ⟨rest, pos + 8⟩) := by
  have hvalue : (1.0 / 0.0 : Float) = Float.ofBits (2047 * 2 ^ 52 + 0).toUInt64 := by decide
  rw [← hvalue]
  rfl

theorem valueAt_minusInfinity (rest : List Char) (fuel room pos : Nat) :
    valueAt (fuel + 1) room ⟨'-' :: ("Infinity".toList ++ rest), pos⟩ =
      .ok (.real (-Float.ofBits (2047 * 2 ^ 52 + 0).toUInt64), ⟨rest, pos + 9⟩) := by
  have hvalue : (-1.0 / 0.0 : Float) = -Float.ofBits (2047 * 2 ^ 52 + 0).toUInt64 := by decide
  rw [← hvalue]
  rfl

theorem valueAt_real (x : Float) (hrest : Stops rest) (fuel room pos : Nat) :
    ∃ next, valueAt (fuel + 1) room ⟨(Decimal.write realStyle x).toList ++ rest, pos⟩ =
      .ok (.real x, ⟨rest, next⟩) := by
  have hunsigned := unsigned_eq x
  have hpow : Nat.pow 2 52 = 2 ^ 52 := rfl
  rw [Decimal.write, hpow]
  generalize he : (x.toBits.toNat >>> 52) % 2048 = e at hunsigned
  generalize hf : x.toBits.toNat % 2 ^ 52 = f at hunsigned
  have hsmall : e < 2048 := he ▸ Nat.mod_lt _ (by decide)
  have hfraction : f < 2 ^ 52 := hf ▸ Nat.mod_lt _ (by decide)
  have hsign : (if x.toBits.toNat >>> 63 = 1 then "-" else "") =
      if decide (x.toBits.toNat >>> 63 = 1) then "-" else "" := by simp
  have hsigned := signed_ofBits hunsigned
  rw [he, hf] at hsigned
  simp only [hsign]
  generalize decide (x.toBits.toNat >>> 63 = 1) = negative at hsigned ⊢
  split
  · next hlast =>
    split
    · next hzero =>
      have hx := hsigned fun _ => hzero
      rw [hlast, hzero] at hx
      rw [minus_append, append_assoc, ← hx]
      cases negative with
      | false => exact ⟨pos + 8, valueAt_infinity _ _ _ _⟩
      | true => exact ⟨pos + 9, valueAt_minusInfinity _ _ _ _⟩
    · next hzero =>
      refine ⟨pos + 3, ?_⟩
      rw [eq_nan (he.trans hlast) (hf ▸ hzero)]
      rfl
  · next hlast =>
    have hx := hsigned fun h => absurd h hlast
    split
    · next hzero =>
      rw [hzero.1, hzero.2] at hx
      obtain ⟨next, hnext⟩ := numberAt_places negative .zero (by decide : ['0'] ≠ [])
        (digits_zeros 1) hrest pos
      have hnone : nearest (digitValue (['0'] ++ ['0'])) (0 - ['0'].length) =
          Float.ofBits (0 * 2 ^ 52 + 0).toUInt64 := by decide
      refine ⟨next, ?_⟩
      rw [minus_append, append_assoc, ← hx, ← hnone]
      exact (valueAt_whole negative .zero fuel room pos).trans hnext
    · next hzero =>
      obtain ⟨m, q, tight, hd, hround, hbits⟩ :=
        shortestOf_rounds (by omega : e < 2047) hfraction hzero
      rw [← hbits] at hx
      rw [value_ratio] at hround
      have hdigits : 0 < (shortestOf e f).digits := by
        have hpos := hround.pos hd
        by_contra hnone
        rw [show (shortestOf e f).digits = 0 by omega] at hpos
        simp at hpos
      rw [minus_append, String.toList_ofList, append_assoc]
      exact valueAt_spelled (spells_text hdigits) hd hround hx hrest fuel room pos

/-! ## Characters of numbers -/

theorem int_ne_nil (n : Int) : (toString n).toList ≠ [] := by
  rw [toList_toString]
  simp

theorem real_ne_nil (x : Float) : (Decimal.write realStyle x).toList ≠ [] := by
  -- an empty text is not read
  intro h
  obtain ⟨next, hnext⟩ := valueAt_real x (show Stops [] by rintro c ⟨⟩) 0 0 0
  rw [h] at hnext
  cases hnext

def numerals : List Char :=
  ['0', '1', '2', '3', '4', '5', '6', '7', '8', '9', '.', 'e', '+', '-', 'N', 'a', 'I', 'n', 'f',
    'i', 't', 'y']

theorem Digits.numerals {cs : List Char} (h : Digits cs) : ∀ c ∈ cs, c ∈ numerals := by
  intro c hc
  have hall : ∀ n, n < 58 → 48 ≤ n → Char.ofNat n ∈ Json.numerals := by decide
  have hdigit : 48 ≤ c.toNat ∧ c.toNat < 58 := by
    have := h c hc
    rw [isDigit, Bool.and_eq_true, decide_eq_true_eq, decide_eq_true_eq] at this
    exact ⟨this.1, Nat.lt_succ_of_le this.2⟩
  rw [← Char.ofNat_toNat c]
  exact hall c.toNat hdigit.2 hdigit.1

theorem minus_numerals (negative : Bool) : ∀ c ∈ minus negative, c ∈ numerals := by
  cases negative <;> exact all_iff_forall_prop.1 (by decide)

theorem int_numerals (n : Int) : ∀ c ∈ (toString n).toList, c ∈ numerals := by
  intro c hc
  rw [toList_toString, mem_append] at hc
  rcases hc with hc | hc
  · exact minus_numerals _ c hc
  · exact (digits_toDigits _).numerals c hc

theorem positional_numerals {digits : List Char} (h : Digits digits) (point : Int) :
    ∀ c ∈ positional digits point, c ∈ numerals := by
  have hzeros := fun n => (digits_zeros n).numerals
  have hzero : '0' ∈ numerals := by decide
  have hmark : '.' ∈ numerals := by decide
  intro c hc
  unfold positional at hc
  split at hc
  · simp only [mem_cons, mem_append] at hc
    rcases hc with rfl | rfl | hc | hc
    · exact hzero
    · exact hmark
    · exact hzeros _ c hc
    · exact h.numerals c hc
  split at hc
  · simp only [mem_append, mem_cons, not_mem_nil, or_false] at hc
    rcases hc with (hc | hc) | rfl | rfl
    · exact h.numerals c hc
    · exact hzeros _ c hc
    · exact hmark
    · exact hzero
  · rw [mem_append, mem_cons] at hc
    rcases hc with hc | rfl | hc
    · exact h.numerals c (mem_of_mem_take hc)
    · exact hmark
    · exact h.numerals c (mem_of_mem_drop hc)

theorem exponential_numerals {c : Char} {ds : List Char} (h : Digits (c :: ds)) (e : Int) :
    ∀ d ∈ exponential (c :: ds) e, d ∈ numerals := by
  have hmark : ∀ d ∈ ['.', 'e', '-', '+'], d ∈ numerals :=
    all_iff_forall_prop.1 (by decide)
  have hplaces : ∀ d ∈ (if ds = [] then [] else '.' :: ds), d ∈ numerals := by
    intro d hd
    split at hd
    · exact absurd hd not_mem_nil
    · rcases mem_cons.1 hd with rfl | hd
      · exact hmark _ (by decide)
      · exact h.numerals d (mem_cons_of_mem c hd)
  intro d hd
  rw [exponential_cons] at hd
  simp only [mem_append, mem_cons, not_mem_nil, or_false] at hd
  rcases hd with rfl | hd | rfl | rfl | hd
  · exact h.numerals _ mem_cons_self
  · exact hplaces d hd
  · exact hmark _ (by decide)
  · split <;> exact hmark _ (by decide)
  · exact (powerDigits_spec e).2.1.numerals d hd

theorem text_numerals (d : Scientific) : ∀ c ∈ d.text, c ∈ numerals := by
  have hdigits := digits_toDigits d.digits
  rw [Scientific.text]
  split
  · exact positional_numerals hdigits _
  · obtain ⟨c, ds, hds⟩ := exists_cons_of_ne_nil (@Nat.toDigits_ne_nil d.digits 10)
    rw [hds] at hdigits ⊢
    exact exponential_numerals hdigits _

theorem real_numerals (x : Float) : ∀ c ∈ (Decimal.write realStyle x).toList, c ∈ numerals := by
  have hsign : ∀ c ∈ (if x.toBits.toNat >>> 63 = 1 then "-" else "").toList, c ∈ numerals := by
    split <;> exact all_iff_forall_prop.1 (by decide)
  have hsigned : ∀ s : String, (∀ c ∈ s.toList, c ∈ numerals) →
      ∀ c ∈ ((if x.toBits.toNat >>> 63 = 1 then "-" else "") ++ s).toList, c ∈ numerals := by
    intro s hs c hc
    rw [String.toList_append, mem_append] at hc
    exact hc.elim (hsign c) (hs c)
  rw [Decimal.write]
  split
  · split
    · exact hsigned _ (all_iff_forall_prop.1 (by decide))
    · exact all_iff_forall_prop.1 (by decide)
  split
  · exact hsigned _ (all_iff_forall_prop.1 (by decide))
  · apply hsigned
    rw [String.toList_ofList]
    exact text_numerals _

end RepoWiki.Json
