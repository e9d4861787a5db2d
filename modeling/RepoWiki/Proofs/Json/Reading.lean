import RepoWiki.Proofs.Json
import RepoWiki.Proofs.Run
/-
What reading gives can be written and read again.

`Legible` says which values are read back from their own texts; here it is the other way round:
whatever a text is read as is such a value (`legible_of_read`), so nothing that was once read is
lost by writing it. The reader's own bounds give the three conditions: it has no room for deeper
values, refuses longer whole numbers and keeps one value for a key.
-/

namespace RepoWiki.Json

open List

variable {v : Json} {s : String}

theorem Legible.mono {room more : Nat} (h : Legible room v) (hroom : room ≤ more) :
    Legible more v := by
  induction h generalizing more with
  | null => exact .null
  | bool b => exact .bool b
  | int short => exact .int short
  | real x => exact .real x
  | str s => exact .str s
  | arr _ ih =>
    obtain ⟨more, rfl⟩ : ∃ k, more = k + 1 := ⟨more - 1, by omega⟩
    exact .arr fun v hv => ih v hv (by omega)
  | obj hkeys _ ih =>
    obtain ⟨more, rfl⟩ : ∃ k, more = k + 1 := ⟨more - 1, by omega⟩
    exact .obj hkeys fun f hf => ih f hf (by omega)

/-! ## Words and numbers -/

theorem legible_of_keyword? {c next : Cursor} (h : keyword? c = some (v, next)) (room : Nat) :
    Legible room v := by
  obtain ⟨word, hword, hv⟩ := exists_of_findSome?_eq_some h
  dsimp only at hv
  split at hv
  · obtain ⟨rfl, -⟩ := Prod.mk.inj (Option.some.inj hv)
    simp only [keywords, mem_cons, not_mem_nil, or_false] at hword
    rcases hword with rfl | rfl | rfl | rfl | rfl | rfl
    · exact .null
    · exact .bool true
    · exact .bool false
    all_goals exact .real _
  · cases hv

theorem wholePart?_digits {cs whole rest : List Char} (h : wholePart? cs = some (whole, rest)) :
    Digits whole := by
  unfold wholePart? at h
  split at h
  · obtain ⟨rfl, -⟩ := Prod.mk.inj (Option.some.inj h)
    exact digits_zeros 1
  · next c rest _ =>
    split at h
    · next hc =>
      obtain ⟨rfl, -⟩ := Prod.mk.inj (Option.some.inj h)
      intro d hd
      rcases mem_cons.1 hd with rfl | hd
      · exact hc
      · exact all_eq_true.1 all_takeWhile d hd
    · cases h
  · cases h

theorem legible_of_numberAt {c next : Cursor} (h : numberAt c = .ok (v, next)) (room : Nat) :
    Legible room v := by
  unfold numberAt at h
  split at h
  next signs negative body _ =>
  split at h
  · cases h
  · next whole after hwhole =>
    have hdigits := digitValue_lt (wholePart?_digits hwhole)
    dsimp only at h
    split at h
    · split at h
      · cases h
      · next hlength =>
        obtain ⟨rfl, -⟩ := Prod.mk.inj (Except.ok.inj h)
        have hshort := Nat.pow_le_pow_right (show 0 < 10 by decide) (Nat.le_of_not_lt hlength)
        refine .int ?_
        split <;> omega
    · obtain ⟨rfl, -⟩ := Prod.mk.inj (Except.ok.inj h)
      exact .real _

/-! ## Lists and objects -/

theorem mem_set {key : String} {fields : Fields} {f : String × Json}
    (h : f ∈ Fields.set key v fields) : f ∈ fields ∨ f.2 = v := by
  induction fields with
  | nil =>
    rw [Fields.set, mem_singleton] at h
    exact .inr (by rw [h])
  | cons g fields ih =>
    obtain ⟨k, u⟩ := g
    rw [Fields.set] at h
    split at h
    · rcases mem_cons.1 h with rfl | h
      · exact .inr rfl
      · exact .inl (mem_cons_of_mem _ h)
    · rcases mem_cons.1 h with rfl | h
      · exact .inl mem_cons_self
      · exact (ih h).imp_left (mem_cons_of_mem _)

theorem keys_set (key : String) (v : Json) (fields : Fields) :
    (Fields.set key v fields).map Prod.fst =
      if key ∈ fields.map Prod.fst then fields.map Prod.fst else fields.map Prod.fst ++ [key] := by
  induction fields with
  | nil => simp [Fields.set]
  | cons g fields ih =>
    obtain ⟨k, u⟩ := g
    rw [Fields.set]
    by_cases hk : k = key
    · simp [hk]
    · rw [if_neg hk, map_cons, ih]
      simp only [map_cons, mem_cons, Ne.symm hk, false_or]
      split <;> rfl

/-- Fields that can be read back, with each key once. -/
structure LegibleFields (room : Nat) (fields : Fields) : Prop where
  keys : (fields.map Prod.fst).Nodup
  values : ∀ f ∈ fields, Legible room f.2

theorem LegibleFields.set {room : Nat} {fields : Fields} (h : LegibleFields room fields)
    (hv : Legible room v) (key : String) :
    LegibleFields room (Fields.set key v fields) := by
  refine ⟨?_, fun f hf => ?_⟩
  · rw [keys_set]
    split
    · exact h.keys
    · next hkey =>
      rw [nodup_append]
      refine ⟨h.keys, by simp, fun k hk l hl => ?_⟩
      rw [mem_singleton.1 hl]
      rintro rfl
      exact hkey hk
  · rcases mem_set hf with hf | hf
    · exact h.values f hf
    · rw [hf]
      exact hv

theorem LegibleFields.nil (room : Nat) : LegibleFields room [] :=
  ⟨nodup_nil, fun _ hf => absurd hf not_mem_nil⟩

/-- One round of steps: values, the items of a list and the fields of an object are legible if those
read with fewer steps are. -/
theorem legible_of_steps (fuel : Nat) :
    (∀ room c v next, valueAt fuel room c = .ok (v, next) → Legible room v) ∧
    (∀ room done c v next, itemsFrom fuel room done c = .ok (v, next) →
      (∀ u ∈ done, Legible room u) → Legible (room + 1) v) ∧
    (∀ room done c v next, fieldsFrom fuel room done c = .ok (v, next) →
      LegibleFields room done → Legible (room + 1) v) := by
  induction fuel with
  | zero =>
    refine ⟨?_, ?_, ?_⟩
    · intro room c v next h
      rw [valueAt] at h
      cases h
    · intro room done c v next h
      rw [itemsFrom] at h
      cases h
    · intro room done c v next h
      rw [fieldsFrom] at h
      cases h
  | succ fuel ih =>
    obtain ⟨hvalue, hitems, hfields⟩ := ih
    refine ⟨?_, ?_, ?_⟩
    · intro room c v next h
      rw [valueAt] at h
      split at h
      · obtain ⟨⟨s, after⟩, -, hs⟩ := except_bind_eq_ok.1 h
        obtain ⟨rfl, -⟩ := Prod.mk.inj (Except.ok.inj hs)
        exact .str s
      · split at h
        · cases h
        · dsimp only at h
          split at h
          · obtain ⟨rfl, -⟩ := Prod.mk.inj (Except.ok.inj h)
            exact .obj nodup_nil fun _ hf => absurd hf not_mem_nil
          · exact hfields _ _ _ _ _ h (.nil _)
      · split at h
        · cases h
        · dsimp only at h
          split at h
          · obtain ⟨rfl, -⟩ := Prod.mk.inj (Except.ok.inj h)
            exact .arr fun _ hu => absurd hu not_mem_nil
          · exact hitems _ _ _ _ _ h fun _ hu => absurd hu not_mem_nil
      · split at h
        · next found hword =>
          obtain rfl := Except.ok.inj h
          exact legible_of_keyword? hword room
        · exact legible_of_numberAt h room
    · intro room done c v next h hdone
      rw [itemsFrom] at h
      obtain ⟨⟨u, after⟩, hu, h⟩ := except_bind_eq_ok.1 h
      have hmore : ∀ w ∈ u :: done, Legible room w := by
        intro w hw
        rcases mem_cons.1 hw with rfl | hw
        · exact hvalue _ _ _ _ hu
        · exact hdone w hw
      dsimp only at h
      split at h
      · obtain ⟨rfl, -⟩ := Prod.mk.inj (Except.ok.inj h)
        exact .arr fun w hw => hmore w (mem_reverse.1 hw)
      · exact hitems _ _ _ _ _ h hmore
      · cases h
    · intro room done c v next h hdone
      rw [fieldsFrom] at h
      split at h
      · obtain ⟨⟨key, after⟩, -, h⟩ := except_bind_eq_ok.1 h
        dsimp only at h
        split at h
        · obtain ⟨⟨u, late⟩, hu, h⟩ := except_bind_eq_ok.1 h
          have hmore := hdone.set (hvalue _ _ _ _ hu) key
          dsimp only at h
          split at h
          · obtain ⟨rfl, -⟩ := Prod.mk.inj (Except.ok.inj h)
            exact .obj hmore.keys hmore.values
          · exact hfields _ _ _ _ _ h hmore
          · cases h
        · cases h
      · cases h

theorem valueAt_of_read (h : read s = .ok v) :
    ∃ fuel next, valueAt fuel depthLimit (Cursor.mk s.toList 0).skip = .ok (v, next) := by
  have hchars : readChars s.toList = .ok v := by
    rw [read] at h
    split at h
    · cases h
    · cases hread : readChars s.toList with
      | error fault =>
        rw [hread] at h
        cases h
      | ok u =>
        rw [hread] at h
        cases h
        rfl
  obtain ⟨⟨u, next⟩, hu, h⟩ := except_bind_eq_ok.1 hchars
  dsimp only at h
  split at h
  · obtain rfl := Except.ok.inj h
    exact ⟨_, next, hu⟩
  · cases h

theorem legible_of_read (h : read s = .ok v) : Legible depthLimit v := by
  obtain ⟨fuel, next, hvalue⟩ := valueAt_of_read h
  exact (legible_of_steps fuel).1 _ _ _ _ hvalue

theorem obj_of_fieldsFrom {fuel room : Nat} {done : Fields} {c next : Cursor}
    (h : fieldsFrom fuel room done c = .ok (v, next)) : ∃ fields, v = .obj fields := by
  induction fuel generalizing done c with
  | zero =>
    rw [fieldsFrom] at h
    cases h
  | succ fuel ih =>
    rw [fieldsFrom] at h
    split at h
    · obtain ⟨⟨key, after⟩, -, h⟩ := except_bind_eq_ok.1 h
      dsimp only at h
      split at h
      · obtain ⟨⟨u, late⟩, -, h⟩ := except_bind_eq_ok.1 h
        dsimp only at h
        split at h
        · exact ⟨_, (Prod.mk.inj (Except.ok.inj h)).1.symm⟩
        · exact ih h
        · cases h
      · cases h
    · cases h

theorem obj_of_read (hs : Text.startsWith "\x7b" s = true) (h : read s = .ok v) :
    ∃ fields, v = .obj fields := by
  obtain ⟨fuel, next, hvalue⟩ := valueAt_of_read h
  obtain ⟨more, hmore⟩ := isPrefixOf_iff_prefix.1 hs
  have hopen : s.toList = '\x7b' :: more := hmore.symm
  rw [hopen, skip_solid (by decide)] at hvalue
  cases fuel with
  | zero =>
    rw [valueAt] at hvalue
    cases hvalue
  | succ fuel =>
    rw [valueAt] at hvalue
    simp only [depthLimit] at hvalue
    split at hvalue
    · exact ⟨_, (Prod.mk.inj (Except.ok.inj hvalue)).1.symm⟩
    · exact obj_of_fieldsFrom hvalue

end RepoWiki.Json
