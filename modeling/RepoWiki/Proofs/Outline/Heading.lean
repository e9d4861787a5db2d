import RepoWiki.Outline.Callable
import RepoWiki.Proofs.Pattern.Finding
import RepoWiki.Proofs.Text.Blank
/-
A name with its parameters, as it stands in the lines that begin a function.

Where such a part is written, it is taken in one way only: the name up to the first character that
is none of a word, then blanks, then all up to the first closing bracket (`takes_heading`).
-/

namespace RepoWiki.Outline

open List Pattern Text

def AllBlank (cs : List Char) : Prop :=
  ∀ c ∈ cs, Text.isBlank c = true

instance (cs : List Char) : Decidable (AllBlank cs) :=
  decidable_of_iff (cs.all isBlank = true) all_eq_true

theorem AllBlank.append {cs ds : List Char} (hcs : AllBlank cs) (hds : AllBlank ds) :
    AllBlank (cs ++ ds) := by
  intro c hc
  rcases mem_append.1 hc with hc | hc
  · exact hcs c hc
  · exact hds c hc

theorem AllBlank.start {left rest cs : List Char} (hleft : AllBlank left) {c d : Char}
    (hd : isBlank d = false) (h : left ++ c :: rest = d :: cs) : c = d := by
  cases left with
  | nil => exact (cons.inj h).1
  | cons x left =>
    have hx := hleft x mem_cons_self
    rw [(cons.inj h).1, hd] at hx
    cases hx

theorem word_start {word : List Char} (hne : word ≠ []) (hword : ∀ c ∈ word, isWord c = true)
    (rest : List Char) : ∃ c tail, word ++ rest = c :: tail ∧ isWord c = true := by
  obtain ⟨c, tail, rfl⟩ := exists_cons_of_ne_nil hne
  exact ⟨c, tail ++ rest, rfl, hword c mem_cons_self⟩

theorem ne_bracket_of_isBlank {c : Char} (hc : isBlank c = true) : c ≠ '(' := by
  rintro rfl
  exact absurd hc (by decide)

section

variable {ps : List Pattern} {cs rest : List Char} {gs gs' : Groups}

variable {gap inside : List Char}

theorem cut_blanks (hgap : AllBlank gap) {c : Char} (hc : isBlank c = false)
    (hneeded : (chain ps).mayBeEmpty = false)
    (hapart : ∀ d, isBlank d = true → (chain ps).mayStart d = false) : Cut isBlank gap c ps :=
  ⟨hgap, hc, hneeded, fun d hd => hapart d (hgap d hd)⟩

theorem takes_keyword (s : String) {body : List Char} (hne : gap ≠ []) (hgap : AllBlank gap)
    (hbody : ∃ c tail, body = c :: tail ∧ isBlank c = false)
    (hneeded : (chain ps).mayBeEmpty = false)
    (hapart : ∀ d, isBlank d = true → (chain ps).mayStart d = false) :
    Takes (chain (word s :: blanks1 :: ps)) (s.toList ++ (gap ++ body)) gs cs gs' ↔
      Takes (chain ps) body gs cs gs' := by
  obtain ⟨c, tail, rfl, hc⟩ := hbody
  exact (takes_chain_word s).trans
    ((cut_blanks hgap hc hneeded hapart).takes_run (length_pos_iff.2 hne))

theorem mayStart_name {d : Char} (hd : isWord d = false) {i : Nat} :
    (chain (.group i name :: ps)).mayStart d = false := by
  rw [mayStart_chain_cons]
  show (isWord d || (false && _)) = false
  rw [hd]
  rfl

theorem cut_closed (h : ')' ∉ inside) : Cut (noneOf ")") inside ')' (word ")" :: ps) := by
  have hne : ∀ d ∈ inside, (d == ')') = false :=
    fun d hd => beq_eq_false_iff_ne.2 fun heq => h (heq ▸ hd)
  refine ⟨fun d hd => ?_, by decide, ?_, fun d hd => ?_⟩
  · show (!(d == ')' || false)) = true
    rw [hne d hd]
    rfl
  · rw [mayBeEmpty_chain_cons]
    rfl
  · rw [mayStart_chain_cons]
    show ((d == ')') || (false && _)) = false
    rw [hne d hd]
    rfl

theorem takes_parameters (h : ')' ∉ inside) (j : Nat) :
    Takes (chain (parameterList j :: ps)) ('(' :: (inside ++ ')' :: rest)) gs cs gs' ↔
      Takes (chain ps) rest ((j, inside ++ ')' :: rest, ')' :: rest) :: gs) cs gs' := by
  rw [parameterList, takes_chain_flat]
  exact (takes_chain_word "(").trans
    (((cut_closed h).takes_group (Nat.zero_le _) j).trans (takes_chain_word ")"))

theorem mayStart_parameters {d : Char} (h : d ≠ '(') {j : Nat} :
    (chain (parameterList j :: ps)).mayStart d = false := by
  rw [mayStart_chain_cons]
  show ((d == '(' || (false && _)) || (false && _)) = false
  rw [beq_eq_false_iff_ne.2 h]
  rfl

theorem takes_heading {word : List Char} (hne : word ≠ []) (hword : ∀ c ∈ word, isWord c = true)
    (hgap : AllBlank gap) (hinside : ')' ∉ inside) (i j : Nat) :
    Takes (chain (.group i name :: blanks :: parameterList j :: ps))
        (word ++ (gap ++ '(' :: (inside ++ ')' :: rest))) gs cs gs' ↔
      Takes (chain ps) rest ((j, inside ++ ')' :: rest, ')' :: rest) ::
        (i, word ++ (gap ++ '(' :: (inside ++ ')' :: rest)),
          gap ++ '(' :: (inside ++ ')' :: rest)) ::
          gs) cs gs' := by
  obtain ⟨c, tail, htail, hc⟩ : ∃ c tail, gap ++ '(' :: (inside ++ ')' :: rest) = c :: tail ∧
      isWord c = false := by
    cases gap with
    | nil => exact ⟨'(', _, rfl, by decide⟩
    | cons c gap => exact ⟨c, _, rfl, isWord_of_isBlank (hgap c mem_cons_self)⟩
  have hcut : Cut isWord word c (blanks :: parameterList j :: ps) := by
    refine ⟨hword, hc, ?_, fun d hd => ?_⟩
    · rw [mayBeEmpty_chain_cons, mayBeEmpty_chain_cons]
      rfl
    · have hbracket : d ≠ '(' := by
        rintro rfl
        exact absurd (hword _ hd) (by decide)
      rw [mayStart_chain_cons, mayStart_parameters hbracket, Bool.and_false, Bool.or_false]
      exact isBlank_of_isWord (hword d hd)
  have hbracket : Cut isBlank gap '(' (parameterList j :: ps) := by
    refine cut_blanks hgap (by decide) ?_ fun d hd => mayStart_parameters (ne_bracket_of_isBlank hd)
    rw [mayBeEmpty_chain_cons]
    rfl
  have hleast : 1 ≤ word.length := length_pos_iff.2 hne
  rw [htail, name, hcut.takes_group hleast, ← htail, blanks, hbracket.takes_run (Nat.zero_le _),
    takes_parameters hinside]

end

end RepoWiki.Outline
