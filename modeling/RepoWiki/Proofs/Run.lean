import Mathlib.Data.List.Forall2
import RepoWiki.Host
/-
Results, and steps as functions of the host.

A result that is put together from others is there only if they are (`except_bind_eq_ok`). A step
is a computation with faults over a state. `Run.on` opens it once: what the step gives on a host,
and the host that it leaves. Each way to put steps together gets one equation here, so that the
proofs about the program never look into the layers of the monad.
-/

namespace RepoWiki

open List

/-! ## Results -/

variable {α β ε : Type} {f : α → Except ε β} {x : Except ε α} {xs : List α}

theorem except_bind_eq_ok {b : β} : x >>= f = .ok b ↔ ∃ a, x = .ok a ∧ f a = .ok b := by
  cases x with
  | error e => simp [bind, Except.bind]
  | ok a => simp [bind, Except.bind]

@[simp] theorem ok_bind (a : α) (f : α → Except ε β) :
    (Except.ok a >>= f) = f a := rfl

@[simp] theorem except_pure_eq_ok {a b : α} : (pure a : Except ε α) = .ok b ↔ a = b := by
  simp [pure, Except.pure]

theorem except_map_eq_error {f : α → β} {fault : ε} :
    x.map f = .error fault ↔ x = .error fault := by
  cases x <;> simp [Except.map]

variable {g : α → Except ε β} {p : α → Except ε Bool}

theorem except_bind_congr (h : ∀ a, x = .ok a → f a = g a) : x >>= f = x >>= g := by
  cases x with
  | error fault => rfl
  | ok a => exact h a rfl

theorem except_mapM_congr {items : List α} (h : ∀ a ∈ items, f a = g a) :
    items.mapM f = items.mapM g := by
  induction items with
  | nil => rfl
  | cons a items ih =>
    rw [mapM_cons, mapM_cons, h a mem_cons_self, ih fun b hb => h b (mem_cons_of_mem a hb)]

section

variable {R : α → β → Prop} {ys : List β}

theorem exists_of_mem_right (h : List.Forall₂ R xs ys) {y : β} (hy : y ∈ ys) : ∃ x ∈ xs, R x y := by
  induction h with
  | nil => cases hy
  | cons hxy _ ih =>
    rcases mem_cons.1 hy with rfl | hy
    · exact ⟨_, mem_cons_self, hxy⟩
    · obtain ⟨x, hx, hR⟩ := ih hy
      exact ⟨x, mem_cons_of_mem _ hx, hR⟩

theorem exists_of_mem_left (h : List.Forall₂ R xs ys) {x : α} (hx : x ∈ xs) : ∃ y ∈ ys, R x y :=
  exists_of_mem_right h.flip hx

end

theorem forall₂_of_mapM_eq_ok {ys : List β} (h : xs.mapM f = .ok ys) :
    List.Forall₂ (fun x y => f x = .ok y) xs ys := by
  induction xs generalizing ys with
  | nil =>
    obtain rfl := Except.ok.inj h
    exact .nil
  | cons x xs ih =>
    rw [mapM_cons] at h
    obtain ⟨y, hy, h⟩ := except_bind_eq_ok.1 h
    obtain ⟨rest, hrest, h⟩ := except_bind_eq_ok.1 h
    obtain rfl := Except.ok.inj h
    exact .cons hy (ih hrest)

theorem mem_of_mapM_eq_ok {ys : List β} {y : β} (h : xs.mapM f = .ok ys) (hy : y ∈ ys) :
    ∃ x ∈ xs, f x = .ok y :=
  exists_of_mem_right (forall₂_of_mapM_eq_ok h) hy

theorem exists_mapM_eq_ok {R : α → β → Prop} (h : ∀ x ∈ xs, ∃ y, f x = .ok y ∧ R x y) :
    ∃ ys, xs.mapM f = .ok ys ∧ List.Forall₂ R xs ys := by
  induction xs with
  | nil => exact ⟨[], rfl, .nil⟩
  | cons x xs ih =>
    obtain ⟨y, hy, hxy⟩ := h x mem_cons_self
    obtain ⟨ys, hys, hall⟩ := ih fun z hz => h z (mem_cons_of_mem _ hz)
    refine ⟨y :: ys, ?_, .cons hxy hall⟩
    rw [mapM_cons, hy, ok_bind, hys, ok_bind]
    rfl

theorem mem_of_filterAuxM_eq_ok {ys taken : List α} {y : α} (h : xs.filterAuxM p taken = .ok ys)
    (hy : y ∈ ys) : y ∈ taken ∨ y ∈ xs ∧ p y = .ok true := by
  induction xs generalizing taken with
  | nil =>
    rw [filterAuxM, except_pure_eq_ok] at h
    exact .inl (h ▸ hy)
  | cons x xs ih =>
    rw [filterAuxM] at h
    obtain ⟨fits, hfits, h⟩ := except_bind_eq_ok.1 h
    rcases ih h with htaken | ⟨hmem, hp⟩
    · cases fits with
      | false => exact .inl htaken
      | true =>
        rcases mem_cons.1 htaken with rfl | htaken
        · exact .inr ⟨mem_cons_self, hfits⟩
        · exact .inl htaken
    · exact .inr ⟨mem_cons_of_mem x hmem, hp⟩

theorem mem_of_filterM_eq_ok {ys : List α} {y : α} (h : xs.filterM p = .ok ys) (hy : y ∈ ys) :
    y ∈ xs ∧ p y = .ok true := by
  obtain ⟨zs, hzs, h⟩ := except_bind_eq_ok.1 h
  rw [except_pure_eq_ok] at h
  rw [← h, mem_reverse] at hy
  exact (mem_of_filterAuxM_eq_ok hzs hy).resolve_left not_mem_nil

theorem except_filterAuxM_append (p : α → Except ε Bool) (items chosen : List α) :
    items.filterAuxM p chosen = (items.filterAuxM p []).map (· ++ chosen) := by
  induction items generalizing chosen with
  | nil => rfl
  | cons a items ih =>
    rw [filterAuxM, filterAuxM]
    cases p a with
    | error e => rfl
    | ok b =>
      cases b with
      | false => exact ih chosen
      | true =>
        rw [ok_bind, ok_bind, cond_true, cond_true, ih (a :: chosen), ih [a]]
        cases items.filterAuxM p [] with
        | error e => rfl
        | ok found => simp [Except.map]

theorem except_filterM_cons (p : α → Except ε Bool) (a : α) (items : List α) :
    (a :: items).filterM p = do
      let chosen ← p a
      let rest ← items.filterM p
      return if chosen then a :: rest else rest := by
  rw [filterM, filterM, filterAuxM]
  cases p a with
  | error e => rfl
  | ok b =>
    rw [ok_bind, ok_bind]
    cases b with
    | false =>
      rw [cond_false]
      cases items.filterAuxM p [] <;> rfl
    | true =>
      rw [cond_true, except_filterAuxM_append]
      cases items.filterAuxM p [] with
      | error e => rfl
      | ok found => simp [Except.map, bind, Except.bind, pure, Except.pure]

namespace Run

variable {α β : Type}

variable {h k : Host} {fault : Fault} {f : FileTree → Result FileTree}

def on (step : Run α) (h : Host) : Result α × Host :=
  step h

/-! ## The parts of a step -/

@[simp] theorem on_pure (a : α) (h : Host) : (pure a : Run α).on h = (.ok a, h) := rfl

@[simp] theorem on_throw (fault : Fault) (h : Host) :
    (throw fault : Run α).on h = (.error fault, h) := rfl

@[simp] theorem on_get (h : Host) : (get : Run Host).on h = (.ok h, h) := rfl

@[simp] theorem on_modify (f : Host → Host) (h : Host) :
    (modify f : Run Unit).on h = (.ok (), f h) := rfl

@[simp] theorem on_lift (r : Result α) (h : Host) : (lift r).on h = (r, h) := by
  cases r <;> rfl

def next (f : α → Run β) : Result α × Host → Result β × Host
  | (.ok a, h) => (f a).on h
  | (.error fault, h) => (.error fault, h)

@[simp] theorem next_ok (f : α → Run β) (a : α) (h : Host) :
    next f (.ok a, h) = (f a).on h := rfl

@[simp] theorem next_error (f : α → Run β) (fault : Fault) (h : Host) :
    next f (.error fault, h) = (.error fault, h) := rfl

theorem on_bind (step : Run α) (f : α → Run β) (h : Host) :
    (step >>= f).on h = next f (step.on h) := by
  change ExceptT.bindCont f (step h).1 (step h).2 = next f (step h)
  rcases step h with ⟨_ | _, k⟩ <;> rfl

variable {step : Run α}

theorem on_bind_ok {a : α} (hs : step.on h = (.ok a, k)) (f : α → Run β) :
    (step >>= f).on h = (f a).on k := by
  rw [on_bind, hs, next_ok]

theorem on_bind_error (hs : step.on h = (.error fault, k)) (f : α → Run β) :
    (step >>= f).on h = (.error fault, k) := by
  rw [on_bind, hs, next_error]

theorem pure_eq_ok {a b : α} (hs : (pure a : Run α).on h = (.ok b, k)) :
    a = b ∧ h = k := by
  simpa using hs

theorem bind_eq_ok {f : α → Run β} {b : β} (hb : (step >>= f).on h = (.ok b, k)) :
    ∃ a m, step.on h = (.ok a, m) ∧ (f a).on m = (.ok b, k) := by
  rw [on_bind] at hb
  rcases hs : step.on h with ⟨_ | a, m⟩
  · rw [hs, next_error] at hb
    simp at hb
  · rw [hs, next_ok] at hb
    exact ⟨a, m, rfl, hb⟩

theorem bind_eq_error {f : α → Run β} (hb : (step >>= f).on h = (.error fault, k)) :
    step.on h = (.error fault, k) ∨
      ∃ a m, step.on h = (.ok a, m) ∧ (f a).on m = (.error fault, k) := by
  rw [on_bind] at hb
  rcases hs : step.on h with ⟨e | a, m⟩
  · rw [hs, next_error, Prod.mk.injEq, Except.error.injEq] at hb
    exact .inl (by rw [hb.1, hb.2])
  · rw [hs, next_ok] at hb
    exact .inr ⟨a, m, rfl, hb⟩

@[simp] theorem on_get_bind (f : Host → Run β) (h : Host) :
    ((get : Run Host) >>= f).on h = (f h).on h :=
  on_bind_ok (on_get h) f

@[simp] theorem on_modify_bind (g : Host → Host) (f : Unit → Run β) (h : Host) :
    ((modify g : Run Unit) >>= f).on h = (f ()).on (g h) :=
  on_bind_ok (on_modify g h) f

@[simp] theorem on_pure_bind (a : α) (f : α → Run β) (h : Host) :
    ((pure a : Run α) >>= f).on h = (f a).on h :=
  on_bind_ok (on_pure a h) f

@[simp] theorem on_throw_bind (fault : Fault) (f : α → Run β) (h : Host) :
    ((throw fault : Run α) >>= f).on h = (.error fault, h) :=
  on_bind_error (on_throw fault h) f

@[simp] theorem on_lift_bind (r : Result α) (f : α → Run β) (h : Host) :
    (lift r >>= f).on h = next f (r, h) := by
  rw [on_bind, on_lift]

@[simp] theorem on_ite (c : Prop) [Decidable c] (s t : Run α) (h : Host) :
    (if c then s else t).on h = if c then s.on h else t.on h := by
  by_cases hc : c <;> simp [hc]

def mended (rescue : Fault → Run α) : Result α × Host → Result α × Host
  | (.ok a, h) => (.ok a, h)
  | (.error fault, h) => (rescue fault).on h

theorem on_tryCatch (step : Run α) (rescue : Fault → Run α) (h : Host) :
    (tryCatch step rescue).on h = mended rescue (step.on h) := by
  show (ExceptT.tryCatch step rescue) h = mended rescue (step h)
  rcases hs : step h with ⟨_ | _, k⟩ <;>
    simp only [ExceptT.tryCatch, ExceptT.mk, bind, StateT.bind, hs] <;> rfl

@[simp] theorem on_attempt (step : Run α) (h : Host) :
    (attempt step).on h = (.ok (step.on h).1, (step.on h).2) := by
  rw [attempt, on_tryCatch, on_bind]
  rcases step.on h with ⟨_ | _, k⟩ <;> rfl

theorem on_orElse_ok {a : α} (hs : step.on h = (.ok a, k)) (rescue : Fault → Run α) :
    (orElse step rescue).on h = (.ok a, k) := by
  rw [orElse, on_tryCatch, hs, mended]

theorem on_orElse_congr {s t : Run α} (hst : s.on h = t.on k) (rescue : Fault → Run α) :
    (orElse s rescue).on h = (orElse t rescue).on k := by
  rw [orElse, orElse, on_tryCatch, on_tryCatch, hst]

def isExit : Fault → Bool
  | .exit _ => true
  | _ => false

theorem exit_of_isExit (hf : isExit fault = true) : ∃ code, fault = .exit code := by
  cases fault with
  | exit code => exact ⟨code, rfl⟩
  | _ => cases hf

theorem on_orElse_error (hs : step.on h = (.error fault, k)) (hf : isExit fault = false)
    (rescue : Fault → Run α) : (orElse step rescue).on h = (rescue fault).on k := by
  rw [orElse, on_tryCatch, hs, mended]
  cases fault <;> first | rfl | simp [isExit] at hf

theorem on_orElse_exit {code : Nat} (hs : step.on h = (.error (.exit code), k))
    (rescue : Fault → Run α) : (orElse step rescue).on h = (.error (.exit code), k) := by
  rw [orElse, on_tryCatch, hs, mended]
  rfl

theorem orElse_eq_ok {rescue : Fault → Run α} {a : α}
    (ho : (orElse step rescue).on h = (.ok a, k)) :
    step.on h = (.ok a, k) ∨
      ∃ fault m, step.on h = (.error fault, m) ∧ (rescue fault).on m = (.ok a, k) := by
  rcases hs : step.on h with ⟨fault | b, m⟩
  · cases hf : isExit fault with
    | true =>
      obtain ⟨code, rfl⟩ := exit_of_isExit hf
      rw [on_orElse_exit hs] at ho
      cases ho
    | false =>
      rw [on_orElse_error hs hf] at ho
      exact .inr ⟨fault, m, rfl, ho⟩
  · rw [on_orElse_ok hs] at ho
    exact .inl ho

/-! ## What steps keep -/

/-- A step after which something holds of the host, if it held before. -/
class Keeps (P : Host → Prop) (step : Run α) : Prop where
  after : ∀ h, P h → P (step.on h).2

namespace Keeps

variable {P : Host → Prop}

instance pure (a : α) : Keeps P (pure a : Run α) :=
  ⟨fun _ hh => hh⟩

instance throw (fault : Fault) : Keeps P (throw fault : Run α) :=
  ⟨fun _ hh => hh⟩

instance lift (r : Result α) : Keeps P (Run.lift r) :=
  ⟨fun h hh => by rwa [on_lift]⟩

instance get : Keeps P (get : Run Host) :=
  ⟨fun _ hh => hh⟩

instance tree : Keeps P Run.tree :=
  ⟨fun _ hh => hh⟩

instance bind (step : Run α) (f : α → Run β) [hs : Keeps P step] [hf : ∀ a, Keeps P (f a)] :
    Keeps P (step >>= f) where
  after h hh := by
    have hk := hs.after h hh
    rw [on_bind]
    rcases hstep : step.on h with ⟨fault | a, k⟩
    · rwa [hstep] at hk
    · rw [hstep] at hk
      exact (hf a).after k hk

theorem andThen {f : α → Run β} (hs : Keeps P step) (hf : ∀ a, Keeps P (f a)) :
    Keeps P (step >>= f) :=
  bind step f

instance ite (c : Prop) [Decidable c] (s t : Run α) [hs : Keeps P s] [ht : Keeps P t] :
    Keeps P (if c then s else t) := by
  split
  · exact hs
  · exact ht

instance tryCatch (step : Run α) (rescue : Fault → Run α) [hs : Keeps P step]
    [hr : ∀ fault, Keeps P (rescue fault)] : Keeps P (tryCatch step rescue) where
  after h hh := by
    have hk := hs.after h hh
    rw [on_tryCatch]
    rcases hstep : step.on h with ⟨fault | a, k⟩
    · rw [hstep] at hk
      exact (hr fault).after k hk
    · rwa [hstep] at hk

instance orElse (step : Run α) (rescue : Fault → Run α) [Keeps P step]
    [hr : ∀ fault, Keeps P (rescue fault)] : Keeps P (Run.orElse step rescue) := by
  have : ∀ fault : Fault, Keeps P
      (match fault with
        | .exit _ => MonadExcept.throw fault
        | fault => rescue fault : Run α) := by
    intro fault
    cases fault with
    | exit code => exact Keeps.throw _
    | _ => exact hr _
  exact Keeps.tryCatch step _

theorem modify {g : Host → Host} (hg : ∀ h, P h → P (g h)) : Keeps P (modify g : Run Unit) :=
  ⟨hg⟩

end Keeps

/-! ## Files and the line -/

@[simp] theorem on_tree (h : Host) : tree.on h = (.ok h.tree, h) := rfl

@[simp] theorem on_library (h : Host) : library.on h = (.ok h.library, h) := rfl

@[simp] theorem on_setTree (t : FileTree) (h : Host) :
    (setTree t).on h = (.ok (), { h with tree := t }) := rfl

theorem on_changeTree (f : FileTree → Result FileTree) (h : Host) :
    (changeTree f).on h =
      match f h.tree with
      | .ok t => (.ok (), { h with tree := t })
      | .error fault => (.error fault, h) := by
  rw [changeTree, on_bind_ok (on_tree h), on_lift_bind]
  cases f h.tree <;> rfl

theorem changeTree_eq_ok {u : Unit} (hc : (changeTree f).on h = (.ok u, k)) :
    f h.tree = .ok k.tree := by
  rw [on_changeTree] at hc
  split at hc
  · next t ht =>
    rw [Prod.mk.injEq] at hc
    rw [ht, ← hc.2]
  · simp at hc

theorem changeTree_eq_error (hc : (changeTree f).on h = (.error fault, k)) : k = h := by
  rw [on_changeTree] at hc
  split at hc
  · simp at hc
  · rw [Prod.mk.injEq] at hc
    exact hc.2.symm

theorem Keeps.changeTree {P : Host → Prop}
    (hf : ∀ h t, P h → f h.tree = .ok t → P { h with tree := t }) :
    Keeps P (Run.changeTree f) where
  after h hh := by
    rw [on_changeTree]
    split
    · next t ht => exact hf h t hh ht
    · exact hh

@[simp] theorem on_note (name : String) (args : Json) (h : Host) :
    (note name args).on h = (.ok (), { h with calls := h.calls ++ [⟨name, args⟩] }) := rfl

@[simp] theorem on_close (h : Host) :
    close.on h = (.ok (), { h with line := h.line.add .close }) := rfl

@[simp] theorem on_accept (h : Host) :
    accept.on h = (.ok (), { h with line := h.line.add .accept }) := rfl

theorem on_send (hl : h.line.faults = []) (v : Json) :
    (send v).on h = (.ok (), { h with line := h.line.begin.add (.send v) }) := by
  have hf : h.line.begin.fault? = none := by
    simp [Connection.begin, Connection.fault?, hl]
  simp [send, hf]

-- From here on the layers of the monad stay closed.
attribute [irreducible] on

end Run
end RepoWiki
