import RepoWiki.Json.Access
import RepoWiki.Proofs.Json.Numeral
import RepoWiki.Proofs.Path
/-
Writing a value and reading it back.

`read_write` is the statement this file exists for: a value whose objects have each key once, whose
whole numbers are not too long and which is not nested too deeply is read from its own text as it
was. It holds for every style that keeps the order of fields and sets its marks off by blanks only.

Reading is shown one layer at a time. `textFrom_quoteChar` undoes the writing of one character,
`Reads` says what it is to read back one value in front of what may follow it, and `itemsFrom_write`
and `fieldsFrom_write` run through the items of a list and the fields of an object, each of which
is read back.
-/

namespace RepoWiki

open Fields List Text

theorem Json.item_obj {fields : Fields} {key : String} {v : Json}
    (h : get? key fields = some v) : (Json.obj fields).item key = .ok v := by
  rw [Json.item, h]

theorem unifyNewlines_of_not_mem {cs : List Char} (h : '\r' ∉ cs) : unifyNewlines cs = cs := by
  induction cs with
  | nil => rfl
  | cons c cs ih =>
    rw [mem_cons, not_or] at h
    have hc : c ≠ '\r' := Ne.symm h.1
    rw [unifyNewlines]
    · simp [hc, ih h.2]
    · rintro rest rfl
      exact absurd rfl hc

namespace Json

variable {pos room depth : Nat} {done rest cs : List Char} {x : Char} {style : Style} {v : Json}
  {ascii : Bool}

/-! ## Escapes -/

theorem hexValue?_digitChar : ∀ d, d < 16 → hexValue? (Nat.digitChar d) = some d := by
  decide

variable {n start : Nat} {c : Char}

theorem hexDigits_four (h : n < 0x10000) :
    hexDigits 4 n = [Nat.digitChar (n / 4096), Nat.digitChar (n / 256 % 16),
      Nat.digitChar (n / 16 % 16), Nat.digitChar (n % 16)] := by
  have hlast : ∀ m, 16 ≤ m → Nat.toDigits 16 m = Nat.toDigits 16 (m / 16) ++ [(m % 16).digitChar] :=
    fun m hm => Nat.toDigits_of_base_le (by decide) hm
  have hone : ∀ m, m < 16 → Nat.toDigits 16 m = [m.digitChar] :=
    fun m hm => Nat.toDigits_of_lt_base hm
  have hzero : ∀ m, m = 0 → Nat.digitChar m = '0' := by
    rintro m rfl
    rfl
  unfold hexDigits
  by_cases h1 : n < 16
  · rw [hone n h1, hzero (n / 4096) (by omega), hzero (n / 256 % 16) (by omega),
      hzero (n / 16 % 16) (by omega), Nat.mod_eq_of_lt h1]
    rfl
  by_cases h2 : n < 256
  · rw [hlast n (by omega), hone (n / 16) (by omega), hzero (n / 4096) (by omega),
      hzero (n / 256 % 16) (by omega), show n / 16 % 16 = n / 16 by omega]
    rfl
  by_cases h3 : n < 4096
  · rw [hlast n (by omega), hlast (n / 16) (by omega), hone (n / 16 / 16) (by omega),
      hzero (n / 4096) (by omega), show n / 256 % 16 = n / 16 / 16 by omega]
    rfl
  · rw [hlast n (by omega), hlast (n / 16) (by omega), hlast (n / 16 / 16) (by omega),
      hone (n / 16 / 16 / 16) (by omega), show n / 4096 = n / 16 / 16 / 16 by omega,
      show n / 256 % 16 = n / 16 / 16 % 16 by omega]
    rfl

theorem unitEscape_eq (h : n < 0x10000) :
    ∃ a b c d, unitEscape n = ['\\', 'u', a, b, c, d] ∧ unit? a b c d = some n := by
  refine ⟨_, _, _, _, by rw [unitEscape, hexDigits_four h], ?_⟩
  simp only [unit?, hexValue?_digitChar (n / 4096) (by omega),
    hexValue?_digitChar (n / 256 % 16) (by omega), hexValue?_digitChar (n / 16 % 16) (by omega),
    hexValue?_digitChar (n % 16) (by omega), bind, Option.bind, pure]
  congr 1
  omega

/-! ## Texts -/

theorem textFrom_unit {a b d e : Char} (hn : unit? a b c d = some n)
    (hhigh : isHighUnit n = false) :
    textFrom start pos done ('\\' :: 'u' :: a :: b :: c :: d :: e :: rest) =
      textFrom start (pos + 6) (unitChar n :: done) (e :: rest) := by
  rw [textFrom.eq_def]
  split <;> grind

theorem textFrom_pair {high low : Nat} {a b d a' b' c' d' e : Char}
    (hh : unit? a b c d = some high) (hl : unit? a' b' c' d' = some low)
    (hhigh : isHighUnit high = true) (hlow : isLowUnit low = true) :
    textFrom start pos done
        ('\\' :: 'u' :: a :: b :: c :: d :: '\\' :: 'u' :: a' :: b' :: c' :: d' :: e :: rest) =
      textFrom start (pos + 12) (pairChar high low :: done) (e :: rest) := by
  rw [textFrom.eq_def]
  simp [hh, hl, hhigh, hlow]

theorem textFrom_simple (hu : c ≠ 'u') (hx : simpleEscape? c = some x) :
    textFrom start pos done ('\\' :: c :: rest) = textFrom start (pos + 2) (x :: done) rest := by
  rw [textFrom.eq_def]
  split <;> grind

theorem textFrom_plain (hquote : c ≠ '"') (hmark : c ≠ '\\') (hc : 0x20 ≤ c.toNat) :
    textFrom start pos done (c :: rest) = textFrom start (pos + 1) (c :: done) rest := by
  rw [textFrom.eq_def]
  split <;> grind

theorem toNat_not_unit (c : Char) : c.toNat < 0xD800 ∨ 0xDFFF < c.toNat ∧ c.toNat < 0x110000 :=
  c.valid

theorem unitChar_toNat (c : Char) : unitChar c.toNat = c := by
  have hc := toNat_not_unit c
  rw [unitChar, if_neg (by omega), Char.ofNat_toNat]

theorem textFrom_escapeChar (start pos : Nat) (done rest : List Char) (c e : Char) :
    ∃ next, textFrom start pos done (escapeChar c ++ e :: rest) =
      textFrom start next (c :: done) (e :: rest) := by
  have hc := toNat_not_unit c
  by_cases hsmall : c.toNat < 0x10000
  · obtain ⟨a, b, d, f, hescape, hunit⟩ := unitEscape_eq hsmall
    refine ⟨pos + 6, ?_⟩
    have hhigh : isHighUnit c.toNat = false := by
      simp only [isHighUnit, Bool.and_eq_false_iff, decide_eq_false_iff_not]
      omega
    rw [escapeChar, if_pos hsmall, hescape]
    simp only [cons_append, nil_append]
    rw [textFrom_unit hunit hhigh, unitChar_toNat]
  · have hpair : pairChar (0xD800 + (c.toNat - 0x10000) / 0x400)
        (0xDC00 + (c.toNat - 0x10000) % 0x400) = c := by
      have hsum : 0x10000 + (0xD800 + (c.toNat - 0x10000) / 0x400 - 0xD800) * 0x400 +
          (0xDC00 + (c.toNat - 0x10000) % 0x400 - 0xDC00) = c.toNat := by
        omega
      rw [pairChar, hsum, Char.ofNat_toNat]
    obtain ⟨a, b, d, f, hescape, hunit⟩ :=
      unitEscape_eq (show 0xD800 + (c.toNat - 0x10000) / 0x400 < 0x10000 by omega)
    obtain ⟨a', b', d', f', hescape', hunit'⟩ :=
      unitEscape_eq (show 0xDC00 + (c.toNat - 0x10000) % 0x400 < 0x10000 by omega)
    refine ⟨pos + 12, ?_⟩
    rw [escapeChar, if_neg hsmall, hescape, hescape']
    simp only [cons_append, nil_append]
    rw [textFrom_pair hunit hunit', hpair]
    · simp only [isHighUnit, Bool.and_eq_true, decide_eq_true_eq]
      omega
    · simp only [isLowUnit, Bool.and_eq_true, decide_eq_true_eq]
      omega

theorem textFrom_quoteChar (ascii : Bool) (start pos : Nat) (done rest : List Char) (c e : Char) :
    ∃ next, textFrom start pos done (quoteChar ascii c ++ e :: rest) =
      textFrom start next (c :: done) (e :: rest) := by
  unfold quoteChar
  -- the characters that have a letter of their own
  iterate 5
    split
    · subst c
      exact ⟨_, textFrom_simple (by decide) (by decide)⟩
  iterate 2
    split
    · next h =>
      rw [← Char.ofNat_toNat c, h]
      exact ⟨_, textFrom_simple (by decide) (by decide)⟩
  split
  · exact textFrom_escapeChar start pos done rest c e
  split
  · exact textFrom_escapeChar start pos done rest c e
  · exact ⟨_, textFrom_plain (by assumption) (by assumption) (by omega)⟩

theorem textFrom_quoted (ascii : Bool) (start : Nat) (cs rest : List Char) :
    ∀ (pos : Nat) (done : List Char), ∃ next,
      textFrom start pos done (cs.flatMap (quoteChar ascii) ++ '"' :: rest) =
        .ok (String.ofList (done.reverse ++ cs), ⟨rest, next⟩) := by
  induction cs with
  | nil =>
    intro pos done
    exact ⟨pos + 1, by simp [textFrom]⟩
  | cons c cs ih =>
    intro pos done
    -- what follows a character is never empty, since the closing quote is still to come
    obtain ⟨e, more, hmore⟩ : ∃ e more, cs.flatMap (quoteChar ascii) ++ '"' :: rest = e :: more :=
      exists_cons_of_ne_nil (by simp)
    obtain ⟨next, hnext⟩ := textFrom_quoteChar ascii start pos done more c e
    obtain ⟨final, hfinal⟩ := ih next (c :: done)
    refine ⟨final, ?_⟩
    rw [flatMap_cons, append_assoc, hmore, hnext, ← hmore, hfinal, reverse_cons,
      append_assoc, singleton_append]

/-! ## Blanks and marks -/

def Blank (cs : List Char) : Prop :=
  ∀ c ∈ cs, isSpace c = true

theorem Blank.append {ds : List Char} (hc : Blank cs) (hd : Blank ds) : Blank (cs ++ ds) := by
  intro c hmem
  rcases mem_append.1 hmem with h | h
  · exact hc c h
  · exact hd c h

theorem skip_blank (hc : Blank cs) (hx : isSpace x = false) :
    (Cursor.mk (cs ++ x :: rest) pos).skip = ⟨x :: rest, pos + cs.length⟩ := by
  have hxs : ¬isSpace x = true := by simp [hx]
  simp only [Cursor.skip]
  rw [dropWhile_append_of_pos hc, takeWhile_append_of_pos hc,
    dropWhile_cons_of_neg hxs, takeWhile_cons_of_neg hxs, append_nil]

theorem skip_solid (hx : isSpace x = false) :
    (Cursor.mk (x :: rest) pos).skip = ⟨x :: rest, pos⟩ :=
  @skip_blank pos rest [] x (fun _ h => absurd h not_mem_nil) hx

theorem stops_mark (hc : Blank cs) (hx : x ∈ [',', ']', '\x7d']) (rest : List Char) :
    Stops (cs ++ x :: rest) := by
  have hmarks : ∀ y ∈ [',', ']', '\x7d'], Stops (y :: rest) := by
    intro y hy c hcy
    rw [head?_cons, Option.mem_some_iff] at hcy
    subst hcy
    revert y
    exact all_iff_forall_prop.1 (by decide)
  cases cs with
  | nil => exact hmarks x hx
  | cons y cs =>
    intro c hcy
    rw [cons_append, head?_cons, Option.mem_some_iff] at hcy
    subst hcy
    have hspace := hc y mem_cons_self
    simp only [isSpace, Bool.or_eq_true, beq_iff_eq] at hspace
    rcases hspace with ((rfl | rfl) | rfl) | rfl <;> decide

theorem stops_comma (rest : List Char) : Stops (',' :: rest) :=
  @stops_mark [] ',' (fun _ h => absurd h not_mem_nil) (by decide) rest

theorem stops_nil : Stops [] := by
  intro c hc
  cases hc

/-- Fields stand in their order, and marks are set off by blanks only. -/
structure Style.Spaced (style : Style) : Prop where
  unsorted : style.sorted = false
  item : ∃ blanks, style.itemMark.toList = ',' :: blanks ∧ Blank blanks
  key : ∃ blanks, style.keyMark.toList = ':' :: blanks ∧ Blank blanks

theorem compact_spaced : Style.compact.Spaced :=
  ⟨rfl, ⟨[], rfl, by simp [Blank]⟩, ⟨[], rfl, by simp [Blank]⟩⟩

theorem Style.break_blank (style : Style) (depth : Nat) : Blank (style.break depth).toList := by
  intro c hc
  unfold Style.break at hc
  split at hc
  · simp at hc
  · simp only [String.toList_append, String.toList_ofList, mem_append] at hc
    rcases hc with hc | hc
    · have hbreak : c = '\n' := by simpa using hc
      subst hbreak
      rfl
    · rw [eq_of_mem_replicate hc]
      rfl

theorem Style.Spaced.separator (h : style.Spaced) (depth : Nat) :
    ∃ blanks, (style.itemMark ++ style.break (depth + 1)).toList = ',' :: blanks ∧
      Blank blanks := by
  obtain ⟨blanks, hmark, hblanks⟩ := h.item
  refine ⟨blanks ++ (style.break (depth + 1)).toList, ?_, hblanks.append (style.break_blank _)⟩
  rw [String.toList_append, hmark, cons_append]

theorem Style.enclose_nil (style : Style) (depth : Nat) (l r : String) :
    style.enclose depth l r [] = l ++ r := by
  simp [Style.enclose]

theorem Style.enclose_toList (style : Style) (depth : Nat) (l r item : String)
    (items : List String) :
    (style.enclose depth l r (item :: items)).toList =
      l.toList ++ ((style.break (depth + 1)).toList ++
        (((style.itemMark ++ style.break (depth + 1)).intercalate (item :: items)).toList ++
          ((style.break depth).toList ++ r.toList))) := by
  simp [Style.enclose]

/-! ## Values -/

/-- A value that can be read back, with room for so many values inside each other. -/
inductive Legible : Nat → Json → Prop where
  | null {room : Nat} : Legible room .null
  | bool {room : Nat} (b : Bool) : Legible room (.bool b)
  | int {room : Nat} {n : Int} (short : n.natAbs < 10 ^ Text.digitLimit) : Legible room (.int n)
  | real {room : Nat} (x : Float) : Legible room (.real x)
  | str {room : Nat} (s : String) : Legible room (.str s)
  | arr {room : Nat} {items : List Json} (items_legible : ∀ v ∈ items, Legible room v) :
      Legible (room + 1) (.arr items)
  | obj {room : Nat} {fields : Fields} (keys_nodup : (fields.map Prod.fst).Nodup)
      (fields_legible : ∀ f ∈ fields, Legible room f.2) : Legible (room + 1) (.obj fields)

/-- A value is read back at every level and in front of every text that ends a number, with as many
steps as its own text has characters. -/
def Reads (style : Style) (room : Nat) (v : Json) : Prop :=
  ∀ (depth fuel pos : Nat) (rest : List Char), Stops rest →
    (writeAt style depth v).toList.length ≤ fuel →
      ∃ next, valueAt fuel room ⟨(writeAt style depth v).toList ++ rest, pos⟩ =
      .ok (v, ⟨rest, next⟩)

theorem writeItems_eq_map (style : Style) (depth : Nat) (items : List Json) :
    writeItems style depth items = items.map (writeAt style depth) := by
  induction items with
  | nil => rw [writeItems, map_nil]
  | cons v items ih => rw [writeItems, ih, map_cons]

def member (style : Style) (depth : Nat) (f : String × Json) : String :=
  quote style.ascii f.1 ++ style.keyMark ++ writeAt style depth f.2

theorem Style.Spaced.members (h : style.Spaced) (depth : Nat) (fields : Fields) :
    ((style.arrange (writeFields style depth fields)).map fun (k, v) =>
      quote style.ascii k ++ style.keyMark ++ v) = fields.map (member style depth) := by
  rw [Style.arrange, h.unsorted, if_neg (by decide)]
  induction fields with
  | nil => rw [writeFields, map_nil, map_nil]
  | cons f fields ih =>
    rw [writeFields, map_cons, ih, map_cons]
    rfl

def openers : List Char :=
  ['n', 't', 'f', '"', '[', '\x7b'] ++ numerals

theorem openers_solid : ∀ x ∈ openers, isSpace x = false := by
  have h : (openers.all fun x => !isSpace x) = true := by decide
  simpa using h

theorem quote_toList (ascii : Bool) (s : String) :
    (quote ascii s).toList = '"' :: (s.toList.flatMap (quoteChar ascii) ++ ['"']) :=
  String.toList_ofList

theorem Style.enclose_head (style : Style) (depth : Nat) (l r : String) (items : List String) :
    ∃ more, (style.enclose depth l r items).toList = l.toList ++ more := by
  cases items with
  | nil => exact ⟨r.toList, by simp [Style.enclose]⟩
  | cons item items => exact ⟨_, style.enclose_toList depth l r item items⟩

theorem head_numerals (hcs : cs ≠ []) (h : ∀ c ∈ cs, c ∈ numerals) :
    ∃ x more, cs = x :: more ∧ x ∈ openers := by
  obtain ⟨x, more, rfl⟩ := exists_cons_of_ne_nil hcs
  exact ⟨x, more, rfl, mem_append_right _ (h x mem_cons_self)⟩

theorem Legible.head (h : Legible room v) (style : Style) (depth : Nat) :
    ∃ x more, (writeAt style depth v).toList = x :: more ∧ x ∈ openers := by
  cases h with
  | null => exact ⟨'n', ['u', 'l', 'l'], by rw [writeAt]; rfl, by decide⟩
  | bool b =>
    cases b with
    | false => exact ⟨'f', ['a', 'l', 's', 'e'], by rw [writeAt]; rfl, by decide⟩
    | true => exact ⟨'t', ['r', 'u', 'e'], by rw [writeAt]; rfl, by decide⟩
  | int _ =>
    rw [writeAt]
    exact head_numerals (int_ne_nil _) (int_numerals _)
  | real x =>
    rw [writeAt]
    exact head_numerals (real_ne_nil x) (real_numerals x)
  | str s => exact ⟨'"', _, by rw [writeAt, quote_toList], by decide⟩
  | arr _ =>
    obtain ⟨more, hmore⟩ := style.enclose_head depth "[" "]" _
    exact ⟨'[', more, by rw [writeAt]; exact hmore, by decide⟩
  | obj _ _ =>
    obtain ⟨more, hmore⟩ := style.enclose_head depth "\x7b" "\x7d" _
    exact ⟨'\x7b', more, by rw [writeAt]; exact hmore, by decide⟩

theorem reads_str (style : Style) (room : Nat) (s : String) : Reads style room (.str s) := by
  intro depth fuel pos rest hrest hfuel
  rw [writeAt, quote_toList] at hfuel ⊢
  obtain ⟨fuel, rfl⟩ : ∃ k, fuel = k + 1 := ⟨fuel - 1, by simp at hfuel; omega⟩
  obtain ⟨next, hnext⟩ := textFrom_quoted style.ascii pos s.toList rest (pos + 1) []
  refine ⟨next, ?_⟩
  simp only [cons_append, append_assoc, nil_append]
  rw [valueAt]
  simp only [hnext, reverse_nil, nil_append, String.ofList_toList]
  rfl

theorem intercalate_head (sep item : String) (items : List String) :
    ∃ more, (sep.intercalate (item :: items)).toList = item.toList ++ more := by
  cases items with
  | nil => exact ⟨[], by simp⟩
  | cons other items =>
    exact ⟨_, by rw [String.intercalate_cons_cons, String.toList_append, String.toList_append,
      append_assoc]⟩

theorem itemsFrom_write {sep : String} {closing : List Char}
    (hsep : ∃ blanks, sep.toList = ',' :: blanks ∧ Blank blanks) (hclosing : Blank closing)
    (vs : List Json) :
    ∀ (v : Json) (fuel pos : Nat) (done : List Json),
      (∀ w ∈ v :: vs, Reads style room w ∧ Legible room w) →
      (sep.intercalate ((v :: vs).map (writeAt style depth))).toList.length < fuel →
      ∃ next, itemsFrom fuel room done
        ⟨(sep.intercalate ((v :: vs).map (writeAt style depth))).toList ++
          (closing ++ ']' :: rest), pos⟩ =
          .ok (.arr (done.reverse ++ v :: vs), ⟨rest, next⟩) := by
  obtain ⟨blanks, hmark, hblanks⟩ := hsep
  induction vs with
  | nil =>
    intro v fuel pos done hreads hfuel
    simp only [map_cons, map_nil, String.intercalate_singleton] at hfuel ⊢
    obtain ⟨fuel, rfl⟩ : ∃ k, fuel = k + 1 := ⟨fuel - 1, by omega⟩
    obtain ⟨next, hnext⟩ := (hreads v mem_cons_self).1 depth fuel pos
      (closing ++ ']' :: rest) (stops_mark hclosing (by decide) rest) (by omega)
    refine ⟨next + closing.length + 1, ?_⟩
    rw [itemsFrom, hnext]
    simp only [bind, Except.bind, skip_blank hclosing (show isSpace ']' = false by decide)]
    simp only [Cursor.drop, drop_succ_cons, drop_zero, reverse_cons]
    rfl
  | cons w vs ih =>
    intro v fuel pos done hreads hfuel
    have htail : ∀ u ∈ w :: vs, Reads style room u ∧ Legible room u :=
      fun u hu => hreads u (mem_cons_of_mem v hu)
    -- Blanks after the comma are skipped up to the first character of the next item, which is
    -- never a blank itself.
    obtain ⟨x, more, hhead, hx⟩ := (htail w mem_cons_self).2.head style depth
    obtain ⟨others, hothers⟩ := intercalate_head sep (writeAt style depth w)
      (vs.map (writeAt style depth))
    rw [hhead, cons_append] at hothers
    rw [map_cons, map_cons, String.intercalate_cons_cons] at hfuel ⊢
    simp only [String.toList_append, hmark, length_append, length_cons] at hfuel
    obtain ⟨fuel, rfl⟩ : ∃ k, fuel = k + 1 := ⟨fuel - 1, by omega⟩
    obtain ⟨next, hnext⟩ := (hreads v mem_cons_self).1 depth fuel pos
      (',' :: (blanks ++ x :: (more ++ others ++ (closing ++ ']' :: rest)))) (stops_comma _)
      (by omega)
    obtain ⟨final, hfinal⟩ := ih w fuel (next + 1 + blanks.length) (v :: done) htail
      (by rw [map_cons]; omega)
    rw [map_cons, hothers] at hfinal
    refine ⟨final, ?_⟩
    simp only [String.toList_append, hmark, hothers, append_assoc, cons_append]
      at hnext hfinal ⊢
    rw [itemsFrom, hnext]
    simp only [bind, Except.bind, skip_solid (show isSpace ',' = false by decide), Cursor.drop,
      drop_succ_cons, drop_zero, skip_blank hblanks (openers_solid x hx)]
    rw [hfinal, reverse_cons, append_assoc, singleton_append]

theorem set_of_not_mem {key : String} {done : Fields} (h : key ∉ done.map Prod.fst) :
    Fields.set key v done = done ++ [(key, v)] := by
  induction done with
  | nil => rfl
  | cons f done ih =>
    obtain ⟨k, u⟩ := f
    simp only [map_cons, mem_cons, not_or] at h
    rw [Fields.set, if_neg (Ne.symm h.1), ih h.2, cons_append]

theorem fieldsFrom_member (hstyle : style.Spaced) {fuel : Nat} {f : String × Json} {done : Fields}
    {after : List Char} (hafter : Stops after) (hreads : Reads style room f.2)
    (hlegible : Legible room f.2) (hfuel : (member style depth f).toList.length ≤ fuel) :
    ∃ next, fieldsFrom (fuel + 1) room done ⟨(member style depth f).toList ++ after, pos⟩ =
      match (Cursor.mk after next).skip.rest with
      | '\x7d' :: _ => .ok (.obj (set f.1 f.2 done), (Cursor.mk after next).skip.drop 1)
      | ',' :: _ =>
          fieldsFrom fuel room (set f.1 f.2 done) ((Cursor.mk after next).skip.drop 1).skip
      | _ => .error ⟨.expectedComma, (Cursor.mk after next).skip.position⟩ := by
  obtain ⟨blanks, hmark, hblanks⟩ := hstyle.key
  obtain ⟨x, more, hhead, hx⟩ := hlegible.head style depth
  simp only [member, String.toList_append, quote_toList, hmark, length_append, length_cons] at hfuel
  obtain ⟨middle, hkey⟩ := textFrom_quoted style.ascii pos f.1.toList
    (':' :: (blanks ++ ((writeAt style depth f.2).toList ++ after))) (pos + 1) []
  obtain ⟨next, hvalue⟩ := hreads depth fuel (middle + 1 + blanks.length) after hafter (by omega)
  rw [hhead] at hkey hvalue
  refine ⟨next, ?_⟩
  simp only [member, String.toList_append, quote_toList, hmark, hhead, append_assoc,
    cons_append, nil_append] at hkey hvalue ⊢
  rw [fieldsFrom]
  simp only [hkey, bind, Except.bind, skip_solid (show isSpace ':' = false by decide), Cursor.drop,
    drop_succ_cons, drop_zero, skip_blank hblanks (openers_solid x hx), hvalue,
    reverse_nil, nil_append, String.ofList_toList]
  rfl

theorem fieldsFrom_write (hstyle : style.Spaced) {sep : String} {closing : List Char}
    (hsep : ∃ blanks, sep.toList = ',' :: blanks ∧ Blank blanks) (hclosing : Blank closing)
    (fs : Fields) :
    ∀ (f : String × Json) (fuel pos : Nat) (done : Fields),
      ((done ++ f :: fs).map Prod.fst).Nodup →
      (∀ g ∈ f :: fs, Reads style room g.2 ∧ Legible room g.2) →
      (sep.intercalate ((f :: fs).map (member style depth))).toList.length < fuel →
      ∃ next, fieldsFrom fuel room done
        ⟨(sep.intercalate ((f :: fs).map (member style depth))).toList ++
          (closing ++ '\x7d' :: rest), pos⟩ =
          .ok (.obj (done ++ f :: fs), ⟨rest, next⟩) := by
  -- A key that was met before would replace its value in place; these are all new.
  have hset : ∀ (f : String × Json) (fs done : Fields), ((done ++ f :: fs).map Prod.fst).Nodup →
      set f.1 f.2 done = done ++ [f] := by
    intro f fs done h
    apply set_of_not_mem
    rw [map_append, map_cons] at h
    exact fun hmem => (nodup_append.1 h).2.2 f.1 hmem f.1 mem_cons_self rfl
  induction fs with
  | nil =>
    intro f fuel pos done hkeys hreads hfuel
    simp only [map_cons, map_nil, String.intercalate_singleton] at hfuel ⊢
    obtain ⟨fuel, rfl⟩ : ∃ k, fuel = k + 1 := ⟨fuel - 1, by omega⟩
    have hf := hreads f mem_cons_self
    obtain ⟨next, hnext⟩ := @fieldsFrom_member pos room depth style hstyle fuel f done
      (closing ++ '\x7d' :: rest) (stops_mark hclosing (by decide) rest) hf.1 hf.2 (by omega)
    refine ⟨next + closing.length + 1, ?_⟩
    rw [hnext, skip_blank hclosing (show isSpace '\x7d' = false by decide), hset f [] done hkeys]
    rfl
  | cons g fs ih =>
    intro f fuel pos done hkeys hreads hfuel
    obtain ⟨blanks, hmark, hblanks⟩ := hsep
    have htail : ∀ u ∈ g :: fs, Reads style room u.2 ∧ Legible room u.2 :=
      fun u hu => hreads u (mem_cons_of_mem f hu)
    obtain ⟨others, hothers⟩ := intercalate_head sep (member style depth g)
      (fs.map (member style depth))
    rw [map_cons, map_cons, String.intercalate_cons_cons] at hfuel ⊢
    simp only [String.toList_append, hmark, length_append, length_cons] at hfuel
    obtain ⟨fuel, rfl⟩ : ∃ k, fuel = k + 1 := ⟨fuel - 1, by omega⟩
    have hf := hreads f mem_cons_self
    obtain ⟨next, hnext⟩ := @fieldsFrom_member pos room depth style hstyle fuel f done
      (',' :: (blanks ++ ((member style depth g).toList ++ (others ++
        (closing ++ '\x7d' :: rest))))) (stops_comma _) hf.1 hf.2 (by omega)
    obtain ⟨final, hfinal⟩ := ih g fuel (next + 1 + blanks.length) (done ++ [f])
      (by rwa [append_assoc, singleton_append]) htail (by rw [map_cons]; omega)
    rw [map_cons, hothers] at hfinal
    refine ⟨final, ?_⟩
    simp only [String.toList_append, hmark, hothers, append_assoc, cons_append]
      at hnext hfinal ⊢
    rw [hnext, skip_solid (show isSpace ',' = false by decide), hset f (g :: fs) done hkeys]
    simp only [Cursor.drop, drop_succ_cons, drop_zero]
    simp only [member, quote_toList, String.toList_append, append_assoc, cons_append]
      at hfinal ⊢
    rw [skip_blank hblanks (show isSpace '"' = false by decide), hfinal, nil_append]

theorem reads_word (style : Style) (room : Nat) (v : Json) (x : Char) (more : List Char)
    (hword : ∀ depth, (writeAt style depth v).toList = x :: more) (hx : x ∈ ['n', 't', 'f'])
    (hkeyword : ∀ rest pos, ∃ next, keyword? ⟨x :: (more ++ rest), pos⟩ = some (v, ⟨rest, next⟩)) :
    Reads style room v := by
  intro depth fuel pos rest hrest hfuel
  rw [hword] at hfuel ⊢
  obtain ⟨fuel, rfl⟩ : ∃ k, fuel = k + 1 := ⟨fuel - 1, by simp at hfuel; omega⟩
  obtain ⟨next, hnext⟩ := hkeyword rest pos
  refine ⟨next, ?_⟩
  simp only [mem_cons, not_mem_nil, or_false] at hx
  rcases hx with rfl | rfl | rfl
  all_goals
    rw [valueAt]
    simp [hnext]

theorem valueAt_list {fuel : Nat} (hc : Blank cs) (hx : isSpace x = false) (hend : x ≠ ']') :
    valueAt (fuel + 1) (room + 1) ⟨'[' :: (cs ++ x :: rest), pos⟩ =
      itemsFrom fuel room [] ⟨x :: rest, pos + 1 + cs.length⟩ := by
  simp [valueAt, skip_blank hc hx, hend]

theorem valueAt_object {fuel : Nat} (hc : Blank cs) (hx : isSpace x = false) (hend : x ≠ '\x7d') :
    valueAt (fuel + 1) (room + 1) ⟨'\x7b' :: (cs ++ x :: rest), pos⟩ =
      fieldsFrom fuel room [] ⟨x :: rest, pos + 1 + cs.length⟩ := by
  simp [valueAt, skip_blank hc hx, hend]

theorem reads_arr (hstyle : style.Spaced) {items : List Json}
    (hitems : ∀ v ∈ items, Reads style room v ∧ Legible room v) :
    Reads style (room + 1) (.arr items) := by
  intro depth fuel pos rest hrest hfuel
  rw [writeAt, writeItems_eq_map] at hfuel ⊢
  cases items with
  | nil =>
    rw [map_nil, Style.enclose_nil] at hfuel ⊢
    obtain ⟨fuel, rfl⟩ : ∃ k, fuel = k + 1 := ⟨fuel - 1, by simp at hfuel; omega⟩
    refine ⟨pos + 2, ?_⟩
    simp [valueAt, skip_solid (show isSpace ']' = false by decide), Cursor.drop]
  | cons v items =>
    obtain ⟨x, more, hhead, hx⟩ := (hitems v mem_cons_self).2.head style (depth + 1)
    obtain ⟨others, hothers⟩ := intercalate_head (style.itemMark ++ style.break (depth + 1))
      (writeAt style (depth + 1) v) (items.map (writeAt style (depth + 1)))
    rw [← map_cons, hhead, cons_append] at hothers
    rw [map_cons, Style.enclose_toList, ← map_cons] at hfuel ⊢
    rw [length_append, length_append, length_append, length_append] at hfuel
    have hl : "[".toList = ['['] := by decide
    have hr : "]".toList = [']'] := by decide
    rw [hl, hr, length_singleton, length_singleton] at hfuel
    obtain ⟨fuel, rfl⟩ : ∃ k, fuel = k + 1 := ⟨fuel - 1, by omega⟩
    obtain ⟨next, hnext⟩ := @itemsFrom_write room (depth + 1) rest style
      (style.itemMark ++ style.break (depth + 1)) (style.break depth).toList
      (hstyle.separator depth) (style.break_blank depth) items v fuel
      (pos + 1 + (style.break (depth + 1)).toList.length) [] hitems (by omega)
    refine ⟨next, ?_⟩
    simp only [hothers, hl, hr, append_assoc, cons_append, nil_append] at hnext ⊢
    have hend : x ≠ ']' := by
      rintro rfl
      exact absurd hx (by decide)
    rw [valueAt_list (style.break_blank _) (openers_solid x hx) hend, hnext, reverse_nil,
      nil_append]

theorem reads_obj (hstyle : style.Spaced) {fields : Fields} (hkeys : (fields.map Prod.fst).Nodup)
    (hfields : ∀ f ∈ fields, Reads style room f.2 ∧ Legible room f.2) :
    Reads style (room + 1) (.obj fields) := by
  intro depth fuel pos rest hrest hfuel
  rw [writeAt, hstyle.members] at hfuel ⊢
  cases fields with
  | nil =>
    rw [map_nil, Style.enclose_nil] at hfuel ⊢
    obtain ⟨fuel, rfl⟩ : ∃ k, fuel = k + 1 := ⟨fuel - 1, by simp at hfuel; omega⟩
    refine ⟨pos + 2, ?_⟩
    simp [valueAt, skip_solid (show isSpace '\x7d' = false by decide), Cursor.drop]
  | cons f fields =>
    obtain ⟨others, hothers⟩ := intercalate_head (style.itemMark ++ style.break (depth + 1))
      (member style (depth + 1) f) (fields.map (member style (depth + 1)))
    rw [← map_cons, member, String.toList_append, String.toList_append, quote_toList]
      at hothers
    rw [map_cons, Style.enclose_toList, ← map_cons] at hfuel ⊢
    rw [length_append, length_append, length_append, length_append] at hfuel
    have hl : "\x7b".toList = ['\x7b'] := by decide
    have hr : "\x7d".toList = ['\x7d'] := by decide
    rw [hl, hr, length_singleton, length_singleton] at hfuel
    obtain ⟨fuel, rfl⟩ : ∃ k, fuel = k + 1 := ⟨fuel - 1, by omega⟩
    obtain ⟨next, hnext⟩ := @fieldsFrom_write room (depth + 1) rest style hstyle
      (style.itemMark ++ style.break (depth + 1)) (style.break depth).toList
      (hstyle.separator depth) (style.break_blank depth) fields f fuel
      (pos + 1 + (style.break (depth + 1)).toList.length) [] hkeys hfields (by omega)
    refine ⟨next, ?_⟩
    simp only [hothers, hl, hr, append_assoc, cons_append, nil_append] at hnext ⊢
    rw [valueAt_object (style.break_blank _) (by decide) (by decide), hnext]

theorem reads_number {text : List Char} (htext : text ≠ [])
    (hwrite : ∀ depth, (writeAt style depth v).toList = text)
    (hread : ∀ rest, Stops rest → ∀ fuel room pos,
      ∃ next, valueAt (fuel + 1) room ⟨text ++ rest, pos⟩ = .ok (v, ⟨rest, next⟩)) :
    Reads style room v := by
  intro depth fuel pos rest hrest hfuel
  rw [hwrite] at hfuel ⊢
  have hlength := length_pos_of_ne_nil htext
  obtain ⟨fuel, rfl⟩ : ∃ k, fuel = k + 1 := ⟨fuel - 1, by omega⟩
  exact hread rest hrest fuel room pos

theorem Legible.reads (hstyle : style.Spaced) (h : Legible room v) : Reads style room v := by
  induction h with
  | null =>
    exact reads_word style _ _ 'n' ['u', 'l', 'l'] (fun _ => by rw [writeAt]; rfl) (by decide)
      (fun _ pos => ⟨pos + 4, rfl⟩)
  | bool b =>
    cases b with
    | false =>
      exact reads_word style _ _ 'f' ['a', 'l', 's', 'e'] (fun _ => by rw [writeAt]; rfl)
        (by decide) (fun _ pos => ⟨pos + 5, rfl⟩)
    | true =>
      exact reads_word style _ _ 't' ['r', 'u', 'e'] (fun _ => by rw [writeAt]; rfl) (by decide)
        (fun _ pos => ⟨pos + 4, rfl⟩)
  | int short =>
    apply reads_number (int_ne_nil _) fun _ => by rw [writeAt]
    exact fun _ hrest => valueAt_int short hrest
  | real x =>
    apply reads_number (real_ne_nil x) fun _ => by rw [writeAt]
    exact fun _ hrest => valueAt_real x hrest
  | str s => exact reads_str style _ s
  | arr hitems ih => exact reads_arr hstyle fun v hv => ⟨ih v hv, hitems v hv⟩
  | obj hkeys hfields ih => exact reads_obj hstyle hkeys fun f hf => ⟨ih f hf, hfields f hf⟩

theorem read_write (hstyle : style.Spaced) (h : Legible depthLimit v) :
    read (v.write style) = .ok v := by
  obtain ⟨x, more, hhead, hx⟩ := h.head style 0
  have hmark : x ≠ Char.ofNat 0xFEFF := by
    rintro rfl
    exact absurd hx (by decide)
  obtain ⟨next, hnext⟩ := h.reads hstyle 0 (2 * (writeAt style 0 v).toList.length + 2) 0 []
    stops_nil (by omega)
  have hchars : readChars (writeAt style 0 v).toList = .ok v := by
    rw [hhead, append_nil] at hnext
    rw [hhead, readChars, skip_solid (openers_solid x hx), hnext]
    rfl
  have hfirst : (writeAt style 0 v).toList.head? ≠ some (Char.ofNat 0xFEFF) := by
    rw [hhead]
    exact fun h => hmark (Option.some.inj h)
  rw [read, write, if_neg hfirst, hchars]
  rfl

theorem readChars_field_fault (ascii : Bool) (key : String) {more : List Char}
    (hx : isSpace x = false) {problem : Problem}
    (hvalue : ∀ fuel room pos, valueAt (fuel + 1) room ⟨x :: more, pos⟩ = .error ⟨problem, pos⟩) :
    ∃ pos, readChars ('\x7b' :: ((quote ascii key).toList ++ ':' :: x :: more)) =
      .error ⟨problem, pos⟩ := by
  obtain ⟨pos, hkey⟩ := textFrom_quoted ascii 1 key.toList (':' :: x :: more) 2 []
  have hfields : ∀ fuel room, 2 ≤ fuel → fieldsFrom fuel room []
      ⟨'"' :: (key.toList.flatMap (quoteChar ascii) ++ '"' :: ':' :: x :: more), 1⟩ =
        .error ⟨problem, pos + 1⟩ := by
    intro fuel room hfuel
    obtain ⟨fuel, rfl⟩ : ∃ k, fuel = k + 2 := ⟨fuel - 2, by omega⟩
    rw [fieldsFrom]
    simp only [hkey, bind, Except.bind, skip_solid (show isSpace ':' = false by decide),
      Cursor.drop, drop_succ_cons, drop_zero, skip_solid hx, hvalue]
  have hlimit : depthLimit = 984 + 1 := rfl
  have hobject : ∀ fuel cs, valueAt (fuel + 1) depthLimit ⟨'\x7b' :: '"' :: cs, 0⟩ =
      fieldsFrom fuel 984 [] ⟨'"' :: cs, 1⟩ := by
    intro fuel cs
    rw [hlimit]
    exact @valueAt_object 0 984 cs [] '"' fuel (fun _ h => absurd h not_mem_nil) (by decide)
      (by decide)
  refine ⟨pos + 1, ?_⟩
  rw [quote_toList, cons_append, append_assoc, singleton_append, readChars,
    skip_solid (by decide), length_cons, length_cons, hobject,
    hfields _ _ (by omega)]
  rfl

/-! ## Characters of a text -/

/-- A line feed or a character that is no control character, of seven bits if it must be. -/
def Shown (ascii : Bool) (c : Char) : Prop :=
  c = '\n' ∨ 0x20 ≤ c.toNat ∧ (ascii = true → c.toNat ≤ 0x7E)

instance : DecidablePred (Shown true) := fun c =>
  inferInstanceAs (Decidable (c = '\n' ∨ 0x20 ≤ c.toNat ∧ (true = true → c.toNat ≤ 0x7E)))

theorem Shown.mono (h : Shown true c) (ascii : Bool) : Shown ascii c :=
  h.imp_right fun h => ⟨h.1, fun _ => h.2 rfl⟩

theorem shown_of_all (h : (cs.all fun c => decide (Shown true c)) = true) :
    ∀ c ∈ cs, Shown ascii c := by
  intro c hc
  exact Shown.mono (of_decide_eq_true (all_eq_true.1 h c hc)) ascii

theorem shown_digitChar : ∀ d, d < 16 → Shown true (Nat.digitChar d) := by
  unfold Shown
  decide

theorem shown_unitEscape (h : n < 0x10000) : ∀ c ∈ unitEscape n, Shown true c := by
  intro c hc
  rw [unitEscape, hexDigits_four h] at hc
  simp only [mem_cons, not_mem_nil, or_false] at hc
  rcases hc with rfl | rfl | rfl | rfl | rfl | rfl
  · exact .inr (by decide)
  · exact .inr (by decide)
  all_goals exact shown_digitChar _ (by omega)

theorem shown_escapeChar (x : Char) : ∀ c ∈ escapeChar x, Shown true c := by
  intro c hc
  have hx := toNat_not_unit x
  rw [escapeChar] at hc
  split at hc
  · exact shown_unitEscape (by assumption) c hc
  · rcases mem_append.1 hc with hc | hc
    · exact shown_unitEscape (by omega) c hc
    · exact shown_unitEscape (by omega) c hc

theorem shown_quoteChar (ascii : Bool) (x : Char) : ∀ c ∈ quoteChar ascii x, Shown ascii c := by
  have hsimple : ∀ c ∈ ['\\', '"', 'n', 'r', 't', 'f', 'b'], Shown ascii c :=
    shown_of_all (by decide)
  intro c hc
  unfold quoteChar at hc
  iterate 7
    split at hc
    · simp only [mem_cons, not_mem_nil, or_false] at hc
      rcases hc with rfl | rfl <;> exact hsimple _ (by decide)
  split at hc
  · exact (shown_escapeChar x c hc).mono ascii
  split at hc
  · exact (shown_escapeChar x c hc).mono ascii
  · next hlow hhigh =>
    rw [mem_singleton.1 hc]
    simp only [Bool.and_eq_true, decide_eq_true_eq, not_and] at hhigh
    exact .inr ⟨by omega, fun hascii => by have := hhigh hascii; omega⟩

theorem shown_quote (ascii : Bool) (s : String) :
    ∀ c ∈ (quote ascii s).toList, Shown ascii c := by
  intro c hc
  rw [quote_toList, mem_cons, mem_append, mem_flatMap, mem_singleton] at hc
  rcases hc with rfl | ⟨x, -, hc⟩ | rfl
  · exact Shown.mono (by decide) ascii
  · exact shown_quoteChar ascii x c hc
  · exact Shown.mono (by decide) ascii

theorem shown_break (ascii : Bool) (style : Style) (depth : Nat) :
    ∀ c ∈ (style.break depth).toList, Shown ascii c := by
  intro c hc
  unfold Style.break at hc
  split at hc
  · simp at hc
  · simp only [String.toList_append, String.toList_ofList, mem_append] at hc
    rcases hc with hc | hc
    · exact .inl (by simpa using hc)
    · rw [eq_of_mem_replicate hc]
      exact Shown.mono (by decide) ascii

theorem shown_enclose (hmark : ∀ c ∈ style.itemMark.toList, Shown ascii c) {l r : String}
    (hl : ∀ c ∈ l.toList, Shown ascii c) (hr : ∀ c ∈ r.toList, Shown ascii c)
    {items : List String} (hitems : ∀ item ∈ items, ∀ c ∈ item.toList, Shown ascii c) :
    ∀ c ∈ (style.enclose depth l r items).toList, Shown ascii c := by
  intro c hc
  cases items with
  | nil =>
    rw [Style.enclose_nil, String.toList_append, mem_append] at hc
    exact hc.elim (hl c) (hr c)
  | cons item items =>
    rw [Style.enclose_toList, String.toList_intercalate] at hc
    simp only [mem_append] at hc
    rcases hc with hc | hc | hc | hc | hc
    · exact hl c hc
    · exact shown_break ascii style _ c hc
    · rcases mem_of_mem_intercalate hc with hc | ⟨p, hp, hc⟩
      · rw [String.toList_append, mem_append] at hc
        exact hc.elim (hmark c) (shown_break ascii style _ c)
      · obtain ⟨s, hs, rfl⟩ := mem_map.1 hp
        exact hitems s hs c hc
    · exact shown_break ascii style _ c hc
    · exact hr c hc

theorem shown_numerals (h : ∀ c ∈ cs, c ∈ numerals) :
    ∀ c ∈ cs, Shown ascii c := by
  have hall : ∀ c ∈ numerals, Shown ascii c := shown_of_all (by decide)
  exact fun c hc => hall c (h c hc)

theorem Legible.shown (hstyle : style.Spaced)
    (hitem : ∀ c ∈ style.itemMark.toList, Shown style.ascii c)
    (hkey : ∀ c ∈ style.keyMark.toList, Shown style.ascii c) (h : Legible room v) :
    ∀ depth, ∀ c ∈ (writeAt style depth v).toList, Shown style.ascii c := by
  induction h with
  | null =>
    intro depth
    rw [writeAt]
    exact shown_of_all (by decide)
  | bool b =>
    intro depth
    cases b with
    | false => rw [writeAt]; exact shown_of_all (by decide)
    | true => rw [writeAt]; exact shown_of_all (by decide)
  | int _ =>
    intro depth
    rw [writeAt]
    exact shown_numerals (int_numerals _)
  | real x =>
    intro depth
    rw [writeAt]
    exact shown_numerals (real_numerals x)
  | str s =>
    intro depth
    rw [writeAt]
    exact shown_quote style.ascii s
  | arr _ ih =>
    intro depth
    rw [writeAt, writeItems_eq_map]
    refine shown_enclose hitem (shown_of_all (by decide)) (shown_of_all (by decide))
      fun item hmem => ?_
    obtain ⟨v, hv, rfl⟩ := mem_map.1 hmem
    exact ih v hv (depth + 1)
  | obj _ _ ih =>
    intro depth
    rw [writeAt, hstyle.members]
    refine shown_enclose hitem (shown_of_all (by decide)) (shown_of_all (by decide))
      fun item hmem => ?_
    obtain ⟨f, hf, rfl⟩ := mem_map.1 hmem
    intro c hc
    rw [member, String.toList_append, String.toList_append, mem_append, mem_append] at hc
    rcases hc with (hc | hc) | hc
    · exact shown_quote style.ascii f.1 c hc
    · exact hkey c hc
    · exact ih f hf (depth + 1) c hc

theorem Legible.unifyNewlines (hstyle : style.Spaced)
    (hitem : ∀ c ∈ style.itemMark.toList, Shown style.ascii c)
    (hkey : ∀ c ∈ style.keyMark.toList, Shown style.ascii c) (h : Legible room v) :
    String.ofList (unifyNewlines (v.write style).toList) = v.write style := by
  rw [unifyNewlines_of_not_mem, String.ofList_toList]
  intro hmem
  rcases h.shown hstyle hitem hkey 0 '\r' hmem with hfeed | ⟨hlow, -⟩
  · exact absurd hfeed (by decide)
  · exact absurd hlow (by decide)

end Json
end RepoWiki
