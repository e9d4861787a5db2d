import Mathlib.Data.Bool.AllAny
import Mathlib.Data.List.TakeWhile
import RepoWiki.Proofs.Run
/-
Printing. A text is printed if the console holds each of its characters; letters it always holds.
-/

namespace RepoWiki
namespace Charset

open List

theorem check_eq_ok {set : Charset} {s : String} :
    set.check s = .ok () ↔ ∀ c ∈ s.toList, set.holds c = true := by
  have hdrop : s.toList.dropWhile set.holds = [] ↔ ∀ c ∈ s.toList, set.holds c = true :=
    dropWhile_eq_nil_iff
  rw [← hdrop, check]
  split
  · next h => simp [h]
  · next h => simp [h]

theorem holds_letter (set : Charset) {c : Char} (hc : c ∈ letters.toList) :
    set.holds c = true := by
  have hascii : ∀ c ∈ letters.toList, c.toNat < 0x80 :=
    all_iff_forall_prop.1 (by decide)
  have hsmall := hascii c hc
  cases set with
  | unicode => rfl
  | ascii => simpa [holds] using hsmall
  | latin1 =>
    have : c.toNat < 0x100 := by omega
    simpa [holds] using this
  | gbk =>
    have : c.toNat < 0x10000 := by omega
    simpa [holds] using this
  | table t => exact all_eq_true.1 t.hasLetters c hc

theorem check_append {set : Charset} {s t : String} :
    set.check (s ++ t) = .ok () ↔ set.check s = .ok () ∧ set.check t = .ok () := by
  simp only [check_eq_ok, String.toList_append, mem_append, or_imp, forall_and]

theorem check_letters (set : Charset) {s : String} (h : ∀ c ∈ s.toList, c ∈ letters.toList) :
    set.check s = .ok () :=
  check_eq_ok.2 fun c hc => set.holds_letter (h c hc)

@[simp] theorem check_unicode (s : String) : unicode.check s = .ok () :=
  check_eq_ok.2 fun _ _ => rfl

end Charset

namespace Run

variable {h : Host} {s : String}

theorem on_print_ok (hs : h.console.check s = .ok ()) :
    (print s).on h = (.ok (), { h with printed := h.printed ++ s ++ "\n" }) := by
  rw [print, on_get_bind, hs, on_modify]

theorem on_print_unicode (hconsole : h.console = .unicode) (s : String) :
    (print s).on h = (.ok (), { h with printed := h.printed ++ s ++ "\n" }) :=
  on_print_ok (hconsole ▸ Charset.check_unicode s)

theorem print_eq_ok {k : Host} {u : Unit} (hs : (print s).on h = (.ok u, k)) :
    h.console.check s = .ok () := by
  rw [print, on_get_bind] at hs
  cases hcheck : h.console.check s with
  | ok u => rfl
  | error fault =>
    rw [hcheck, on_throw] at hs
    cases hs

theorem on_print_error {fault : EncodeFault} (hs : h.console.check s = .error fault) :
    (print s).on h = (.error (.encode fault), h) := by
  rw [print, on_get_bind, hs, on_throw]

end Run

/-- A host that differs from another in what is printed only. -/
def Host.Told (g k : Host) : Prop :=
  ∃ printed, k = { g with printed }

namespace Host.Told

theorem refl (g : Host) : g.Told g :=
  ⟨g.printed, rfl⟩

variable {g k : Host}

theorem trans {m : Host} (h : g.Told m) (h' : m.Told k) : g.Told k := by
  obtain ⟨p, rfl⟩ := h
  obtain ⟨q, rfl⟩ := h'
  exact ⟨q, rfl⟩

theorem tree (h : g.Told k) : k.tree = g.tree := by
  obtain ⟨p, rfl⟩ := h
  rfl

theorem console (h : g.Told k) : k.console = g.console := by
  obtain ⟨p, rfl⟩ := h
  rfl

theorem of_keeps {α : Type} {step : Run α} {r : Result α} [hs : Run.Keeps g.Told step]
    (h : step.on g = (r, k)) : g.Told k := by
  have hk := hs.after g (refl g)
  rwa [h] at hk

theorem keeps {α : Type} {P : Host → Prop} (hP : ∀ g k, P g → g.Told k → P k) {step : Run α}
    (hs : ∀ g : Host, Run.Keeps g.Told step) : Run.Keeps P step where
  after g hg := hP g _ hg ((hs g).after g (refl g))

end Host.Told

instance (g : Host) (s : String) : Run.Keeps g.Told (Run.print s) := by
  unfold Run.print
  refine .andThen inferInstance fun h => ?_
  split
  · refine .modify fun k hk => hk.trans ⟨k.printed ++ s ++ "\n", rfl⟩
  · infer_instance

theorem Run.print_told {h : Host} (hconsole : h.console = .unicode) (s : String) :
    ∃ k, (print s).on h = (.ok (), k) ∧ h.Told k :=
  ⟨_, on_print_unicode hconsole s, _, rfl⟩

end RepoWiki
