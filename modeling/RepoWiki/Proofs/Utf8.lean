import RepoWiki.Proofs.Run
/-
Octets that spell a text spell it also when they are decoded block by block: a character that the
end of a block cuts in two waits there for the rest of its octets. The octets of a text spell that
text.
-/

namespace RepoWiki.Text.Utf8

open List

variable {octets : List Nat} {fuel : Nat} {done cs : List Char}

/-- Octets that are the characters of a text, one after the other. -/
inductive Spells : List Nat → List Char → Prop where
  | nil : Spells [] []
  | cons {octets : List Nat} {c : Char} {n : Nat} {cs : List Char} :
      headOf octets = .char c n → Spells (octets.drop n) cs → Spells octets (c :: cs)

/-! ## The first character -/

theorem length_of_headOf {c : Char} {n : Nat} (h : headOf octets = .char c n) :
    0 < n ∧ n ≤ octets.length := by
  revert h
  fun_cases headOf octets <;> simp only [reduceCtorEq, Head.char.injEq, false_imp_iff] <;>
    rintro ⟨-, rfl⟩ <;> simp

theorem headOf_eq_done (h : headOf octets = .done) : octets = [] := by
  revert h
  fun_cases headOf octets <;> intro h <;> cases h
  rfl

theorem headOf_of_append {front rest : List Nat} {c : Char} {n : Nat}
    (h : headOf (front ++ rest) = .char c n) (hfront : front ≠ []) :
    headOf front = .char c n ∨ ∃ k, headOf front = .wrong .unexpectedEnd k := by
  unfold headOf at h ⊢
  match front, hfront with
  | [a], _ => grind
  | [a, b], _ => grind
  | [a, b, d], _ => grind
  | a :: b :: d :: e :: front, _ => grind

theorem drop_lt {c : Char} {n : Nat} (h : headOf octets = .char c n) :
    (octets.drop n).length < octets.length := by
  have hn := length_of_headOf h
  rw [length_drop]
  omega

/-! ## Decoding at once -/

theorem spells_of_decodeFrom {position : Nat} {out : List Char} (hfuel : octets.length < fuel)
    (h : decodeFrom fuel position done octets = .ok out) :
    ∃ cs, Spells octets cs ∧ out = done.reverse ++ cs := by
  induction fuel generalizing position done octets with
  | zero => omega
  | succ fuel ih =>
    rw [decodeFrom] at h
    split at h
    · next hhead =>
      obtain rfl := headOf_eq_done hhead
      refine ⟨[], .nil, ?_⟩
      rw [append_nil]
      exact (Except.ok.inj h).symm
    · next c n hhead =>
      have hlt := drop_lt hhead
      obtain ⟨cs, hcs, hout⟩ := ih (by omega) h
      refine ⟨c :: cs, .cons hhead hcs, ?_⟩
      rw [hout, reverse_cons, append_assoc, singleton_append]
    · cases h

theorem Spells.decodeFrom (h : Spells octets cs) {position : Nat} (hfuel : octets.length < fuel) :
    decodeFrom fuel position done octets = .ok (done.reverse ++ cs) := by
  induction h generalizing fuel position done with
  | nil =>
    cases fuel with
    | zero => omega
    | succ fuel => rw [append_nil]; rfl
  | @cons octets c n cs hhead _ ih =>
    have hlt := drop_lt hhead
    cases fuel with
    | zero => omega
    | succ fuel =>
      rw [Utf8.decodeFrom, hhead]
      show Utf8.decodeFrom fuel (position + n) (c :: done) (octets.drop n) = _
      rw [ih (by omega), reverse_cons, append_assoc, singleton_append]

theorem decode_eq_ok :
    decode octets = .ok cs ↔ Spells octets cs := by
  constructor
  · intro h
    obtain ⟨ds, hds, rfl⟩ := spells_of_decodeFrom (Nat.lt_succ_self _) h
    exact hds
  · intro h
    exact h.decodeFrom (Nat.lt_succ_self _)

/-! ## Decoding in blocks -/

theorem Spells.decodeBlock {block rest : List Nat} (h : Spells (block ++ rest) cs)
    (hfuel : block.length < fuel) (position : Nat) (done : List Char) :
    ∃ front back waiting, cs = front ++ back ∧ Spells (waiting ++ rest) back ∧
      decodeBlock fuel position done block = .ok (front.reverse ++ done, waiting) := by
  induction fuel generalizing block position done cs with
  | zero => omega
  | succ fuel ih =>
    rw [Utf8.decodeBlock]
    by_cases hblock : block = []
    · subst hblock
      exact ⟨[], cs, [], rfl, h, rfl⟩
    generalize hwhole : block ++ rest = octets at h
    cases h with
    | nil => exact absurd (append_eq_nil_iff.1 hwhole).1 hblock
    | @cons _ c n cs hhead hrest =>
      subst hwhole
      rcases headOf_of_append hhead hblock with hchar | ⟨k, hcut⟩
      · have hn := length_of_headOf hchar
        have hlt := drop_lt hchar
        rw [drop_append_of_le_length hn.2] at hrest
        obtain ⟨front, back, waiting, rfl, hback, hdecode⟩ :=
          ih hrest (by omega) (position + n) (c :: done)
        refine ⟨c :: front, back, waiting, rfl, hback, ?_⟩
        rw [hchar, reverse_cons, append_assoc]
        exact hdecode
      · -- The block ends inside the next character: all of its octets wait.
        refine ⟨[], c :: cs, block, rfl, .cons hhead hrest, ?_⟩
        rw [hcut]
        rfl

theorem Spells.decodeBlocks {waiting : List Nat} (h : Spells (waiting ++ octets) cs) {size : Nat}
    (hsize : 0 < size) (hfuel : octets.length < fuel) :
    decodeBlocks fuel size done waiting octets = .ok (done.reverse ++ cs) := by
  induction fuel generalizing waiting octets done cs with
  | zero => omega
  | succ fuel ih =>
    rw [Utf8.decodeBlocks]
    by_cases hend : octets = []
    · subst hend
      rw [append_nil] at h
      rw [decode_eq_ok.2 h]
      rfl
    · have hempty : octets.isEmpty = false := by simpa using hend
      have hpos : 0 < octets.length := length_pos_iff.2 hend
      rw [← take_append_drop size octets, ← append_assoc] at h
      obtain ⟨front, back, waiting', rfl, hback, hblock⟩ :=
        h.decodeBlock (Nat.lt_succ_self _) 0 done
      have hlt : (octets.drop size).length < fuel := by
        rw [length_drop]
        omega
      rw [hempty, if_neg Bool.false_ne_true]
      show Utf8.decodeBlock _ 0 done (waiting ++ octets.take size) >>= _ = _
      rw [hblock]
      show Utf8.decodeBlocks fuel size (front.reverse ++ done) waiting' (octets.drop size) = _
      rw [ih hback hlt, reverse_append, reverse_reverse, append_assoc]

theorem decodeInBlocks_of_decode (h : decode octets = .ok cs) : decodeInBlocks octets = .ok cs :=
  (decode_eq_ok.1 h : Spells ([] ++ octets) cs).decodeBlocks (by decide) (Nat.lt_succ_self _)

/-! ## Encoding -/

theorem isTail_eq_true {b : Nat} (h : 0x80 ≤ b ∧ b ≤ 0xBF) : isTail b = true := by
  simpa [isTail] using h

theorem isSecond_eq_true {a b : Nat} (hb : 0x80 ≤ b ∧ b ≤ 0xBF)
    (ha : (a = 0xE0 → 0xA0 ≤ b) ∧ (a = 0xED → b < 0xA0) ∧ (a = 0xF0 → 0x90 ≤ b) ∧
      (a = 0xF4 → b < 0x90)) : isSecond a b = true := by
  simpa [isSecond, isTail_eq_true hb, and_assoc, Decidable.imp_iff_not_or] using ha

theorem headOf_encodeChar (c : Char) (rest : List Nat) :
    headOf (encodeChar c ++ rest) = .char c (encodeChar c).length := by
  have hvalid : c.toNat < 0xD800 ∨ 0xDFFF < c.toNat ∧ c.toNat < 0x110000 := c.valid
  have hchar : ∀ m, m = c.toNat → Char.ofNat m = c := fun m hm => hm ▸ Char.ofNat_toNat c
  unfold encodeChar
  dsimp only
  generalize c.toNat = n at hvalid hchar
  have hlast : isTail (0x80 + n % 0x40) = true := isTail_eq_true (by omega)
  split
  · next h => simp [headOf, h, hchar]
  split
  · next h =>
    have hsecond : isSecond (0xC0 + n / 0x40) (0x80 + n % 0x40) = true :=
      isSecond_eq_true (by omega) (by omega)
    simp only [headOf, cons_append, nil_append, hsecond]
    rw [if_neg (by omega), if_neg (by simp; omega), if_neg (by simp), if_pos (by omega),
      hchar _ (by omega)]
    rfl
  have hthird : isTail (0x80 + n / 0x40 % 0x40) = true := isTail_eq_true (by omega)
  split
  · next h =>
    have hsecond : isSecond (0xE0 + n / 0x1000) (0x80 + n / 0x40 % 0x40) = true :=
      isSecond_eq_true (by omega) (by omega)
    simp only [headOf, cons_append, nil_append, hsecond, hlast]
    rw [if_neg (by omega), if_neg (by simp; omega), if_neg (by simp), if_neg (by omega),
      if_neg (by simp), if_pos (by omega), hchar _ (by omega)]
    rfl
  · next h =>
    have hsecond : isSecond (0xF0 + n / 0x40000) (0x80 + n / 0x1000 % 0x40) = true :=
      isSecond_eq_true (by omega) (by omega)
    simp only [headOf, cons_append, nil_append, hsecond, hthird, hlast]
    rw [if_neg (by omega), if_neg (by simp; omega), if_neg (by simp), if_neg (by omega),
      if_neg (by simp), if_neg (by omega), if_neg (by simp), hchar _ (by omega)]
    rfl

theorem spells_flatMap (cs : List Char) : Spells (cs.flatMap encodeChar) cs := by
  induction cs with
  | nil => exact .nil
  | cons c cs ih =>
    rw [flatMap_cons]
    refine .cons (headOf_encodeChar c _) ?_
    rwa [drop_left]

theorem decode_encode (s : String) : decode (encode s) = .ok s.toList :=
  decode_eq_ok.2 (spells_flatMap s.toList)

theorem encode_inj {s t : String} (h : encode s = encode t) : s = t := by
  have hchars := decode_encode s
  rw [h, decode_encode, Except.ok.injEq] at hchars
  exact (String.toList_inj.1 hchars).symm

theorem lt_of_mem_encode {s : String} {b : Nat} (hb : b ∈ encode s) : b < 256 := by
  rw [encode, mem_flatMap] at hb
  obtain ⟨c, -, hb⟩ := hb
  have hvalid : c.toNat < 0xD800 ∨ 0xDFFF < c.toNat ∧ c.toNat < 0x110000 := c.valid
  unfold encodeChar at hb
  dsimp only at hb
  generalize c.toNat = n at hvalid hb
  repeat' split at hb
  all_goals
    simp only [mem_cons, not_mem_nil, or_false] at hb
    omega

/-! ## Decoding with replacements -/

theorem Spells.decodeLossyFrom (h : Spells octets cs) (hfuel : octets.length < fuel)
    (done : List Char) :
    decodeLossyFrom fuel done octets = done.reverse ++ cs := by
  induction fuel generalizing octets cs done with
  | zero => omega
  | succ fuel ih =>
    rw [Utf8.decodeLossyFrom]
    cases h with
    | nil => simp [headOf]
    | @cons _ c n cs hhead hrest =>
      have hlt := drop_lt hhead
      rw [hhead]
      dsimp only
      rw [ih hrest (by omega), reverse_cons, append_assoc, singleton_append]

theorem decodeLossy_encode (s : String) : decodeLossy (encode s) = s.toList :=
  (spells_flatMap s.toList).decodeLossyFrom (Nat.lt_succ_self _) []

end RepoWiki.Text.Utf8
