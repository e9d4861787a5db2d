import Mathlib.Data.List.Forall2
import RepoWiki.Config.Placeholder
/-
Filling the placeholders of a configuration is one pass over each text in it.

A pass is told by two rules (`IsPass`): a text without placeholders stays, and a text around a
placeholder is filled on both sides of it, with the value between. The rules leave open where a text
is cut, so they can only hold if no placeholder lies across the cut. This is so because a dollar
sign stands nowhere but at the start of a placeholder (`placeholder?_append_eq_none`). The two rules
determine the pass (`IsPass.unique`), and `expandIn_filled` says that it is the one which is made,
in every text of every value.
-/

namespace RepoWiki.Config

open List

/-- The names that can stand in a placeholder. -/
structure IsName (name : List Char) : Prop where
  ne_nil : name ≠ []
  chars : ∀ c ∈ name, isNameChar c = true

def written (name : String) : String :=
  "$\x7b" ++ name ++ "\x7d"

theorem toList_written (name : String) : (written name).toList = writePlaceholder name.toList := by
  simp [written, writePlaceholder]

theorem four_le_length_written {name : String} (hname : IsName name.toList) :
    4 ≤ (written name).length := by
  have hpos := length_pos_of_ne_nil hname.ne_nil
  rw [← String.length_toList, toList_written]
  simp only [writePlaceholder, length_append, length_cons, length_nil]
  omega

/-- One pass over a text, by the values of the names that have one. What is put in is not looked at
again: `f` is done to both sides of a placeholder only. -/
structure IsPass (value? : String → Option String) (f : String → String) : Prop where
  plain : ∀ s, (∀ a name b, IsName name.toList → s ≠ a ++ written name ++ b) → f s = s
  filled : ∀ a name b, IsName name.toList →
    f (a ++ written name ++ b) = f a ++ (value? name).getD (written name) ++ f b

theorem IsPass.unique {value? : String → Option String} {f g : String → String}
    (hf : IsPass value? f) (hg : IsPass value? g) : f = g := by
  funext s
  induction hn : s.length using Nat.strongRecOn generalizing s with
  | ind n ih =>
    by_cases hplain : ∀ a name b, IsName name.toList → s ≠ a ++ written name ++ b
    · rw [hf.plain s hplain, hg.plain s hplain]
    · push Not at hplain
      obtain ⟨a, name, b, hname, rfl⟩ := hplain
      -- Both sides of a placeholder are shorter than the text.
      have hlen := four_le_length_written hname
      rw [String.length_append, String.length_append] at hn
      rw [hf.filled a name b hname, hg.filled a name b hname, ih a.length (by omega) a rfl,
        ih b.length (by omega) b rfl]

/-! ## Cutting a text at a placeholder -/

section

variable {name after cs : List Char}

theorem placeholder?_eq_some_iff :
    placeholder? cs = some (name, after) ↔ IsName name ∧ cs = writePlaceholder name ++ after := by
  constructor
  · intro h
    unfold placeholder? at h
    split at h
    next rest =>
      split at h
      next c name' after' hname hafter =>
        obtain ⟨rfl, rfl⟩ : c :: name' = name ∧ after' = after := by simpa using h
        have hall := all_takeWhile (p := isNameChar) (l := rest)
        have hrest := rest.takeWhile_append_dropWhile (p := isNameChar)
        rw [hname] at hall
        rw [hname, hafter] at hrest
        exact ⟨⟨cons_ne_nil _ _, all_eq_true.1 hall⟩, by simp [writePlaceholder, ← hrest]⟩
      next => simp at h
    next => simp at h
  · rintro ⟨⟨hne, hchars⟩, rfl⟩
    have hclose : ¬isNameChar '\x7d' = true := by decide
    have hname : (name ++ '\x7d' :: after).takeWhile isNameChar = name := by
      rw [takeWhile_append_of_pos hchars, takeWhile_cons_of_neg hclose, append_nil]
    have hafter : (name ++ '\x7d' :: after).dropWhile isNameChar = '\x7d' :: after := by
      rw [dropWhile_append_of_pos hchars, dropWhile_cons_of_neg hclose]
    obtain ⟨c, name, rfl⟩ := exists_cons_of_ne_nil hne
    simp only [cons_append] at hname hafter
    simp only [writePlaceholder, placeholder?, cons_append, append_assoc, nil_append, hname, hafter]

theorem placeholder?_eq_none_iff :
    placeholder? cs = none ↔ ∀ name after, IsName name → cs ≠ writePlaceholder name ++ after := by
  rw [Option.eq_none_iff_forall_ne_some, Prod.forall]
  simp only [ne_eq, placeholder?_eq_some_iff, not_and]

theorem dollar_notMem_tail (hname : IsName name) : '$' ∉ (writePlaceholder name).tail := by
  intro hmem
  have hdollar : '$' ∈ name := by simpa [writePlaceholder] using hmem
  exact absurd (hname.chars _ hdollar) (by decide)

-- A placeholder across the cut would go on with the dollar sign behind the cut.
theorem placeholder?_append_eq_none {a : List Char} (hne : a ≠ []) (hnone : placeholder? a = none)
    (b : List Char) : placeholder? (a ++ '$' :: b) = none := by
  rw [placeholder?_eq_none_iff] at hnone ⊢
  intro name after hname heq
  rcases append_eq_append_iff.1 heq with ⟨mid, hmid, hrest⟩ | ⟨mid, hmid, -⟩
  · cases mid with
    | nil =>
      rw [append_nil] at hmid
      exact hnone name [] hname (by rw [append_nil, hmid])
    | cons d mid =>
      obtain ⟨c, a, rfl⟩ := exists_cons_of_ne_nil hne
      obtain rfl : '$' = d := by simpa using congrArg List.head? hrest
      refine dollar_notMem_tail hname ?_
      simp [hmid]
  · exact hnone name mid hname hmid

end

/-! ## One text -/

section

variable (value? : String → Option String)

theorem expandChars_placeholder {name : List Char} (hname : IsName name) (after : List Char) :
    expandChars value? (writePlaceholder name ++ after) =
      ((value? (String.ofList name)).getD (String.ofList (writePlaceholder name))).toList ++
        expandChars value? after := by
  rw [expandChars]
  split
  next name' after' h =>
    obtain ⟨rfl, rfl⟩ : name = name' ∧ after = after' := by
      simpa using (placeholder?_eq_some_iff.2 ⟨hname, rfl⟩).symm.trans h
    cases value? (String.ofList name) <;> simp
  next h => simp [placeholder?_eq_some_iff.2 ⟨hname, rfl⟩] at h

theorem expandChars_nil : expandChars value? [] = [] := by
  rw [expandChars]
  simp [placeholder?]

theorem expandChars_cons {c : Char} {rest : List Char} (h : placeholder? (c :: rest) = none) :
    expandChars value? (c :: rest) = c :: expandChars value? rest := by
  rw [expandChars]
  split
  next h' => simp [h] at h'
  next => rfl

theorem expandChars_append (a b : List Char) :
    expandChars value? (a ++ '$' :: b) = expandChars value? a ++ expandChars value? ('$' :: b) := by
  -- What is left of `a` gets shorter by a character or by a whole placeholder.
  induction hn : a.length using Nat.strongRecOn generalizing a with
  | ind n ih =>
    cases a with
    | nil => rw [expandChars_nil, nil_append, nil_append]
    | cons c rest =>
      cases h : placeholder? (c :: rest) with
      | none =>
        have hnone := placeholder?_append_eq_none (cons_ne_nil c rest) h b
        rw [cons_append] at hnone ⊢
        rw [expandChars_cons value? h, expandChars_cons value? hnone,
          ih rest.length (by simp [← hn]) rest rfl, cons_append]
      | some found =>
        obtain ⟨name, after⟩ := found
        obtain ⟨hname, heq⟩ := placeholder?_eq_some_iff.1 h
        have hlen : after.length < n := hn ▸ placeholder?_length h
        rw [heq, append_assoc, expandChars_placeholder value? hname,
          expandChars_placeholder value? hname, ih after.length hlen after rfl, append_assoc]

theorem expandChars_plain (cs : List Char)
    (h : ∀ a name b, IsName name → cs ≠ a ++ writePlaceholder name ++ b) :
    expandChars value? cs = cs := by
  induction cs with
  | nil => exact expandChars_nil value?
  | cons c rest ih =>
    have hnone : placeholder? (c :: rest) = none :=
      placeholder?_eq_none_iff.2 fun name after hname => h [] name after hname
    rw [expandChars_cons value? hnone, ih]
    intro a name b hname heq
    exact h (c :: a) name b hname (by rw [heq]; rfl)

def expandText (s : String) : String :=
  String.ofList (expandChars value? s.toList)

theorem isPass_expandText : IsPass value? (expandText value?) where
  plain s h := by
    rw [expandText, expandChars_plain, String.ofList_toList]
    intro a name b hname heq
    refine h (String.ofList a) (String.ofList name) (String.ofList b) (by simpa using hname) ?_
    rw [← String.toList_inj]
    simpa [toList_written] using heq
  filled a name b hname := by
    have hcut := expandChars_append value? a.toList ('\x7b' :: name.toList ++ ['\x7d'] ++ b.toList)
    have hhere := expandChars_placeholder value? hname b.toList
    rw [String.ofList_toList, ← toList_written, String.ofList_toList] at hhere
    rw [← String.toList_inj]
    simp only [expandText, String.toList_append, String.toList_ofList, append_assoc]
    rw [← hhere, toList_written]
    exact hcut

end

/-! ## A whole value -/

/-- The second value is the first one with `f` done to its texts. -/
inductive Filled (f : String → String) : Json → Json → Prop
  | null : Filled f .null .null
  | bool (b : Bool) : Filled f (.bool b) (.bool b)
  | int (n : Int) : Filled f (.int n) (.int n)
  | real (x : Float) : Filled f (.real x) (.real x)
  | str (s : String) : Filled f (.str s) (.str (f s))
  | arr {items items' : List Json} (h : List.Forall₂ (Filled f) items items') :
      Filled f (.arr items) (.arr items')
  | obj {fields fields' : Fields} (hkeys : Fields.keys fields = Fields.keys fields')
      (h : List.Forall₂ (Filled f) (fields.map (·.2)) (fields'.map (·.2))) :
      Filled f (.obj fields) (.obj fields')

theorem keys_expandFields (value? : String → Option String) (fields : Fields) :
    Fields.keys (expandFields value? fields) = Fields.keys fields := by
  induction fields with
  | nil => rfl
  | cons field rest ih => exact congrArg (field.1 :: ·) ih

mutual

theorem filled_iff (value? : String → Option String) :
    ∀ v w : Json, Filled (expandText value?) v w ↔ w = expand value? v
  | .null, _ | .bool _, _ | .int _, _ | .real _, _ | .str _, _ => by
    constructor
    · intro h
      cases h
      rfl
    · rintro rfl
      constructor
  | .arr items, _ => by
    constructor
    · intro h
      cases h with
      | arr h => rw [(filled_items_iff value? items _).1 h, expand]
    · rintro rfl
      exact .arr ((filled_items_iff value? items _).2 rfl)
  | .obj fields, _ => by
    constructor
    · intro h
      cases h with
      | obj hkeys h =>
        have hvalues := (filled_fields_iff value? fields _).1 h
        rw [← keys_expandFields value? fields] at hkeys
        exact congrArg Json.obj
          ((zip_of_prod hkeys.symm hvalues).trans (zip_of_prod rfl rfl).symm)
    · rintro rfl
      exact .obj (keys_expandFields value? fields).symm ((filled_fields_iff value? fields _).2 rfl)

theorem filled_items_iff (value? : String → Option String) : ∀ items items' : List Json,
    List.Forall₂ (Filled (expandText value?)) items items' ↔ items' = expandItems value? items
  | [], _ => by rw [forall₂_nil_left_iff, expandItems]
  | v :: rest, _ => by
    simp [forall₂_cons_left_iff, expandItems, filled_iff value? v, filled_items_iff value? rest]

theorem filled_fields_iff (value? : String → Option String) :
    ∀ (fields : Fields) (values : List Json),
    List.Forall₂ (Filled (expandText value?)) (fields.map (·.2)) values ↔
      values = (expandFields value? fields).map (·.2)
  | [], _ => by rw [map_nil, forall₂_nil_left_iff, expandFields, map_nil]
  | (_, v) :: rest, _ => by
    simp [forall₂_cons_left_iff, expandFields, filled_iff value? v, filled_fields_iff value? rest]

end

/-- The rules of a pass have one solution, and a value becomes the one value of the same shape in
which this pass was made over every text. -/
theorem expandIn_filled (env : List (String × String)) :
    ∃ f : String → String, (∀ g, IsPass (fun name => env.lookup name) g ↔ g = f) ∧
      ∀ v w, Filled f v w ↔ w = expandIn env v := by
  refine ⟨expandText (fun name => env.lookup name), fun g => ⟨fun hg => ?_, ?_⟩, filled_iff _⟩
  · exact hg.unique (isPass_expandText _)
  · rintro rfl
    exact isPass_expandText _

end RepoWiki.Config
