import RepoWiki.Text.Base64
/-
Octets that are written with sixty-four characters are read back.

The reader goes character by character and the writer group by group, so the reader is followed
through one whole group at a time: between two groups it has nothing left over, and then a group
gives just the octets that it was written from. A last group of one octet or two is told by its
padding.
-/

namespace RepoWiki.Text.Base64

open List

/-! ## Characters -/

theorem value?_digitChar {n : Nat} (h : n < 64) : value? (digitChar n) = some n := by
  have hall : ∀ m < 64, value? (digitChar m) = some m := by decide
  exact hall n h

theorem digitChar_ne_pad {n : Nat} (h : n < 64) : digitChar n ≠ '=' := by
  have hall : ∀ m < 64, digitChar m ≠ '=' := by decide
  exact hall n h

theorem digitChar_plain (n : Nat) : (digitChar n).toNat < 0x80 ∧ digitChar n ≠ '\n' := by
  by_cases h : n < 64
  · have hall : ∀ m < 64, (digitChar m).toNat < 0x80 ∧ digitChar m ≠ '\n' := by decide
    exact hall n h
  · rw [digitChar, if_neg (by omega), if_neg (by omega), if_neg (by omega), if_neg (by omega)]
    decide

theorem encode_plain (octets : List Nat) : ∀ c ∈ encode octets, c.toNat < 0x80 ∧ c ≠ '\n' := by
  fun_induction encode octets with
  | case1 => simp
  | case2 a => simp [digitChar_plain]
  | case3 a b => simp [digitChar_plain]
  | case4 a b c rest ih => simpa [digitChar_plain] using ih

/-! ## Groups -/

section

variable (done : List Nat) (left v : Nat)

theorem push_first : (⟨0, 0, 0, done⟩ : Progress).push v = ⟨1, v, 0, done⟩ := rfl

theorem push_second :
    (⟨1, left, 0, done⟩ : Progress).push v = ⟨2, v % 16, 0, (left * 4 + v / 16) :: done⟩ := rfl

theorem push_third :
    (⟨2, left, 0, done⟩ : Progress).push v = ⟨3, v % 4, 0, (left * 16 + v / 4) :: done⟩ := rfl

theorem push_fourth :
    (⟨3, left, 0, done⟩ : Progress).push v = ⟨0, 0, 0, (left * 64 + v) :: done⟩ := rfl

theorem decodeFrom_two_pads (rest : List Char) :
    decodeFrom ⟨2, left, 0, done⟩ ('=' :: '=' :: rest) = .ok done.reverse := by
  simp [decodeFrom]

theorem decodeFrom_one_pad (rest : List Char) :
    decodeFrom ⟨3, left, 0, done⟩ ('=' :: rest) = .ok done.reverse := by
  simp [decodeFrom]

end

theorem decodeFrom_digitChar (p : Progress) {n : Nat} (h : n < 64) (rest : List Char) :
    decodeFrom p (digitChar n :: rest) = decodeFrom (p.push n) rest := by
  rw [decodeFrom, if_neg (digitChar_ne_pad h), value?_digitChar h]

theorem decodeFrom_encode (done : List Nat) {octets : List Nat} (h : ∀ b ∈ octets, b < 256) :
    decodeFrom ⟨0, 0, 0, done⟩ (encode octets) = .ok (done.reverse ++ octets) := by
  -- The recursion of the writer: a last group of none, one or two octets, or a whole one and more.
  fun_induction encode octets generalizing done with
  | case1 =>
    rw [append_nil]
    rfl
  | case2 a =>
    have ha : a < 256 := h a (by simp)
    have hfirst : a / 4 * 4 + a % 4 * 16 / 16 = a := by omega
    rw [decodeFrom_digitChar _ (by omega), push_first,
      decodeFrom_digitChar _ (by omega), push_second,
      decodeFrom_two_pads, hfirst, reverse_cons]
  | case3 a b =>
    have ha : a < 256 := h a (by simp)
    have hb : b < 256 := h b (by simp)
    have hfirst : a / 4 * 4 + (a % 4 * 16 + b / 16) / 16 = a := by omega
    have hsecond : (a % 4 * 16 + b / 16) % 16 * 16 + b % 16 * 4 / 4 = b := by omega
    rw [decodeFrom_digitChar _ (by omega), push_first,
      decodeFrom_digitChar _ (by omega), push_second,
      decodeFrom_digitChar _ (by omega), push_third, decodeFrom_one_pad, hfirst, hsecond,
      reverse_cons, reverse_cons, append_assoc]
    rfl
  | case4 a b c rest ih =>
    have ha : a < 256 := h a (by simp)
    have hb : b < 256 := h b (by simp)
    have hc : c < 256 := h c (by simp)
    have hfirst : a / 4 * 4 + (a % 4 * 16 + b / 16) / 16 = a := by omega
    have hsecond : (a % 4 * 16 + b / 16) % 16 * 16 + (b % 16 * 4 + c / 64) / 4 = b := by omega
    have hthird : (b % 16 * 4 + c / 64) % 4 * 64 + c % 64 = c := by omega
    rw [decodeFrom_digitChar _ (by omega), push_first,
      decodeFrom_digitChar _ (by omega), push_second,
      decodeFrom_digitChar _ (by omega), push_third, decodeFrom_digitChar _ (by omega), push_fourth,
      hfirst, hsecond, hthird, ih _ fun x hx => h x (by simp [hx])]
    simp

theorem decode_encode {octets : List Nat} (h : ∀ b ∈ octets, b < 256) :
    decode (encode octets) = .ok octets :=
  decodeFrom_encode [] h

end RepoWiki.Text.Base64
