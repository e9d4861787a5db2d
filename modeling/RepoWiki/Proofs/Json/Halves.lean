import RepoWiki.Json.Halves
import RepoWiki.Proofs.Json.Reading
/-
Values that are written piece by piece. The pieces of a value make up its text (`join_pieces`), so
what is left of a value with a half in it is the text up to the piece with the half
(`cut?_eq_some`).
-/

namespace RepoWiki.Json.Halves

open String

variable {style : Style}

def Whole (style : Style) (v : Json) : Prop :=
  ∀ depth, String.join (pieces style depth v) = writeAt style depth v

theorem join_itemPieces (depth : Nat) {items : List Json} (hitems : ∀ v ∈ items, Whole style v)
    (hne : items ≠ []) (lead : String) :
    String.join (itemPieces style depth lead items) =
      lead ++ (style.itemMark ++ style.break depth).intercalate
        (items.map (writeAt style depth)) := by
  induction items generalizing lead with
  | nil => exact absurd rfl hne
  | cons v rest ih =>
    have hfirst : String.join
        (if isLeaf v then [lead ++ writeAt style depth v] else lead :: pieces style depth v) =
        lead ++ writeAt style depth v := by
      split
      · rw [join_cons, join_nil, append_empty]
      · rw [join_cons, hitems v List.mem_cons_self]
    rw [itemPieces, join_append, hfirst, List.map_cons]
    by_cases hrest : rest = []
    · subst hrest
      rw [itemPieces, join_nil, List.map_nil, intercalate_singleton, append_empty]
    · rw [ih (fun u hu => hitems u (List.mem_cons_of_mem v hu)) hrest,
        intercalate_cons_of_ne_nil (by simpa using hrest)]
      simp only [append_assoc]

theorem join_fieldPieces (depth : Nat) {fields : Fields}
    (hfields : ∀ f ∈ fields, Whole style f.2) (hne : fields ≠ []) (lead : String) :
    String.join (fieldPieces style depth lead fields) =
      lead ++ (style.itemMark ++ style.break depth).intercalate
        (fields.map (member style depth)) := by
  induction fields generalizing lead with
  | nil => exact absurd rfl hne
  | cons f rest ih =>
    obtain ⟨k, v⟩ := f
    have hvalue : Whole style v := hfields (k, v) List.mem_cons_self
    rw [fieldPieces, List.map_cons, join_append, join_cons, join_cons, join_cons, hvalue]
    by_cases hrest : rest = []
    · subst hrest
      rw [fieldPieces, join_nil, List.map_nil, intercalate_singleton, member]
      simp only [append_assoc, append_empty]
    · rw [ih (fun u hu => hfields u (List.mem_cons_of_mem _ hu)) hrest,
        intercalate_cons_of_ne_nil (by simpa using hrest), member]
      simp only [append_assoc]

theorem join_pieces (hstyle : style.Spaced) {room : Nat} {v : Json} (h : Legible room v) :
    Whole style v := by
  induction h with
  | null | bool | int | real | str =>
    intro depth
    rw [pieces, join_cons, join_nil, append_empty]
  | @arr room items _ ih =>
    intro depth
    rw [pieces, writeAt, writeItems_eq_map]
    cases items with
    | nil => rfl
    | cons v rest =>
      rw [if_neg (by simp), join_append, join_itemPieces (depth + 1) ih (by simp)]
      simp [Style.enclose, append_assoc]
  | @obj room fields _ _ ih =>
    intro depth
    rw [pieces, writeAt, hstyle.members]
    cases fields with
    | nil => rfl
    | cons f rest =>
      rw [if_neg (by simp), join_append, join_cons, join_fieldPieces (depth + 1) ih (by simp)]
      simp [Style.enclose, append_assoc]

theorem cutAmong?_eq_some {all : List String} {written : String} {fault : EncodeFault}
    (h : cutAmong? all = some (written, fault)) :
    ∃ front piece back, all = front ++ piece :: back ∧ (∀ p ∈ front, refusal? p = none) ∧
      refusal? piece = some fault ∧ written = String.join (front.map plain) := by
  induction all generalizing written with
  | nil => cases h
  | cons piece rest ih =>
    rw [cutAmong?] at h
    split at h
    · next refused hrefused =>
      obtain ⟨rfl, rfl⟩ := Prod.mk.inj (Option.some.inj h)
      exact ⟨[], piece, rest, rfl, by simp, hrefused, rfl⟩
    · next hfree =>
      obtain ⟨⟨more, fault'⟩, hcut, heq⟩ := Option.map_eq_some_iff.1 h
      obtain ⟨rfl, rfl⟩ := Prod.mk.inj heq
      obtain ⟨front, stop, back, rfl, hfront, hstop, rfl⟩ := ih hcut
      refine ⟨piece :: front, stop, back, rfl, ?_, hstop, ?_⟩
      · intro p hp
        rcases List.mem_cons.1 hp with rfl | hp
        · exact hfree
        · exact hfront p hp
      · rw [List.map_cons, join_cons]

/-- The text of a value is broken off before the piece that is refused. -/
def Cut (style : Style) (v : Json) (written : String) (fault : EncodeFault) : Prop :=
  ∃ front piece back, String.join (front ++ piece :: back) = v.write style ∧
    (∀ p ∈ front, refusal? p = none) ∧ refusal? piece = some fault ∧
    written = String.join (front.map plain)

theorem cut?_eq_some (hstyle : style.Spaced) {s written : String} {fault : EncodeFault}
    (h : cut? style s = some (written, fault)) :
    ∃ v, read (String.ofList ((parts s.toList).flatMap Part.spell)) = .ok v ∧
      Cut style v written fault := by
  rw [cut?] at h
  split at h
  · split at h
    · next v hread =>
      obtain ⟨front, piece, back, hall, hfront, hpiece, hwritten⟩ := cutAmong?_eq_some h
      refine ⟨v, hread, front, piece, back, ?_, hfront, hpiece, hwritten⟩
      rw [← hall]
      exact join_pieces hstyle (legible_of_read hread) 0
    · cases h
  · cases h

end RepoWiki.Json.Halves
