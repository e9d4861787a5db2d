import RepoWiki.Proofs.Provider.DashScope
/-
Embedding by a component, with a call and with a call that waits.

The one gives the result of the client as it is. The other takes it for a reply and reads the
vectors off it once more, so the data are the same and the error is gone: whatever the client told
in its result (a service that failed, a reply that could not be read, texts that are all blank) is
not heard of (`embedLater_copies`).
-/

namespace RepoWiki

open Fields Run

/-! ## Fields -/

theorem Fields.get?_set_self (key : String) (v : Json) (fields : Fields) :
    get? key (set key v fields) = some v := by
  induction fields with
  | nil => simp [set, get?]
  | cons f fields ih =>
    rw [set]
    split
    · next hkey => rw [get?, if_pos hkey]
    · next hkey => rw [get?, if_neg hkey, ih]

theorem Fields.set_set (key : String) (v w : Json) (fields : Fields) :
    set key v (set key w fields) = set key v fields := by
  induction fields with
  | nil => simp [set]
  | cons f fields ih =>
    by_cases hkey : f.1 = key
    · simp [set, hkey]
    · simp [set, hkey, ih]

namespace Provider
namespace DashScope

open Batch (settled)

/-! ## Results of the client -/

theorem parseEmbeddings_data (read : VectorReader) (reply : Json) :
    (parseEmbeddings read reply).data.isSome = true := by
  rw [parseEmbeddings, Provider.parseEmbeddings]
  cases measured read reply <;> rfl

theorem settled_assembled_data (read : VectorReader) (fallback : Option Nat) (texts : List Json)
    (reply : Result Json) :
    (settled (reply >>= assembled read fallback texts)).data.isSome = true := by
  cases reply with
  | error fault => rfl
  | ok reply =>
    rw [ok_bind, assembled]
    split
    · exact parseEmbeddings_data read reply
    · cases refill ((dimension? (parseEmbeddings read reply)).or fallback) 0 texts
        ((parseEmbeddings read reply).data.getD []) <;> rfl

theorem embed_data {arguments : Fields} {texts : List Json}
    (hinput : (get? "input" arguments).bind textsOf = some texts) {f : Option Nat}
    {h k : Host} {a : Embeddings} (ha : (embed f arguments).on h = (.ok a, k)) :
    a.data.isSome = true := by
  by_cases husable : ∃ t ∈ texts, isUsable t = true
  · rw [embed_of_usable hinput husable, Prod.mk.injEq, Except.ok.injEq] at ha
    rw [← ha.1]
    exact settled_assembled_data _ f texts _
  · obtain ⟨message, hfailed⟩ := embed_of_unusable hinput husable h
    rw [hfailed, Prod.mk.injEq, Except.ok.injEq] at ha
    rw [← ha.1]
    rfl

theorem embed_keys {arguments : Fields} {fields : Fields}
    (hinput : get? "input" arguments = some (.obj fields)) (f : Option Nat) :
    embed f arguments =
      embed f (set "input" (.arr (fields.map fun field => .str field.1)) arguments) := by
  have htruthy : (Json.arr (fields.map fun field => .str field.1)).truthy =
      (Json.obj fields).truthy := by
    cases fields <;> rfl
  simp only [embed, hinput, get?_set_self, Option.getD_some, htruthy, set_set]
  rfl

theorem embed_unlisted {arguments : Fields} {input : Json} {fault : Fault}
    (hget : get? "input" arguments = some input) (htruthy : input.truthy = true)
    (htexts : textsOf input = none) (hlist : input.elements = .error fault) (f : Option Nat)
    (h : Host) : (embed f arguments).on h = (.error fault, h) := by
  simp only [embed, hget, Option.getD_some, htruthy, Bool.not_true, if_neg Bool.false_ne_true]
  cases input with
  | str s => cases htexts
  | _ =>
    dsimp only
    rw [on_lift_bind, hlist, next_error]

/-- The result of the client for any arguments. What is fallen back on makes no difference to the
data; without a list, a text or an object nothing can be listed. -/
theorem embed_outcome (arguments : Fields) (h : Host) :
    (∃ fault, (∀ f, (embed f arguments).on h = (.error fault, h)) ∧ isExit fault = false ∧
      (get? "input" arguments).bind textsOf = none) ∨
    ∀ f g, ∃ a b k, (embed f arguments).on h = (.ok a, k) ∧ (embed g arguments).on h = (.ok b, k) ∧
      a.data = b.data ∧ b.data.isSome = true := by
  have hlisted : ∀ {arguments texts}, (get? "input" arguments).bind textsOf = some texts →
      ∀ f g, ∃ a b k, (embed f arguments).on h = (.ok a, k) ∧
        (embed g arguments).on h = (.ok b, k) ∧ a.data = b.data ∧ b.data.isSome = true := by
    intro arguments texts htexts f g
    obtain ⟨a, b, k, ha, hb, halike, -⟩ := embed_alike htexts h f g
    exact ⟨a, b, k, ha, hb, halike.data, embed_data htexts hb⟩
  have hfailed : ((get? "input" arguments).getD (.arr [])).truthy = false →
      ∀ f, (embed f arguments).on h = (.ok (.failed "No input texts provided"), h) := by
    intro htruthy f
    simp only [embed, htruthy, Bool.not_false, if_true]
    exact on_pure _ h
  cases htruthy : ((get? "input" arguments).getD (.arr [])).truthy with
  | false => exact .inr fun f g => ⟨_, _, h, hfailed htruthy f, hfailed htruthy g, rfl, rfl⟩
  | true =>
    cases hget : get? "input" arguments with
    | none =>
      rw [hget] at htruthy
      cases htruthy
    | some input =>
      rw [hget, Option.getD_some] at htruthy
      cases input with
      | arr items => exact .inr (hlisted (by rw [hget]; rfl))
      | str s => exact .inr (hlisted (by rw [hget]; rfl))
      | obj fields =>
        refine .inr ?_
        simp only [embed_keys hget]
        exact hlisted (by rw [get?_set_self]; rfl)
      | null => cases htruthy
      | bool | int | real =>
        exact .inl ⟨_, fun f => embed_unlisted hget htruthy rfl rfl f h, rfl, rfl⟩

/-! ## Results of a component -/

theorem connection_on (client : Client) (h : Host) :
    client.connection.on h = ((client.connection.on h).1, h) := by
  have hnamed : ∀ name, Keeps (· = h) (Service.envNamed name) := by
    intro name
    unfold Service.envNamed env?
    split <;> infer_instance
  have hkeeps : Keeps (· = h) client.connection := by
    unfold Client.connection Service.settingOrEnv
    infer_instance
  exact Prod.ext rfl (hkeeps.after h rfl)

def toldIn : Result Embeddings → Embeddings
  | .ok e => e
  | .error fault => { error := some fault.message }

theorem telling_on {step : Run Embeddings} {h k : Host} {r : Result Embeddings}
    (hs : step.on h = (r, k)) (hr : Tellable r) :
    (orElse step fun fault => return { error := some fault.message }).on h =
      (.ok (toldIn r), k) := by
  cases r with
  | ok e => exact on_orElse_ok hs _
  | error fault =>
    rw [on_orElse_error hs (hr.not_exit fault rfl), on_pure]
    rfl

section

variable {c : Component} {input : Input} {options arguments : Fields} {h k : Host}
  {r : Result Embeddings}

theorem Component.embed_on (hmade : c.arguments input options = .ok arguments)
    (hs : (DashScope.embed none arguments).on h = (r, k)) (hr : Tellable r) :
    (c.embed input options).on h = (.ok (toldIn r), k) := by
  rw [Component.embed, on_lift_bind, hmade, next_ok, telling_on hs hr]

def Component.waiting (c : Component) (arguments : Fields) : Run Embeddings := do
  let _ ← c.client.connection
  return copied (← DashScope.embed (some usualDimension) arguments)

section

variable (hmade : c.arguments input options = .ok arguments)
include hmade

theorem Component.embedLater_on (hs : (c.waiting arguments).on h = (r, k)) (hr : Tellable r) :
    (c.embedLater input options).on h = (.ok { toldIn r with input := input.told }, k) := by
  rw [Component.embedLater, on_lift_bind, hmade, next_ok]
  exact (on_bind_ok (telling_on hs hr) _).trans (on_pure _ k)

theorem Component.embed_told (h : Host) :
    ∃ a k, (c.embed input options).on h = (.ok a, k) := by
  rcases embed_outcome arguments h with ⟨stop, hstop, hexit, -⟩ | hok
  · exact ⟨_, _, Component.embed_on hmade (hstop none) (.error hexit)⟩
  · obtain ⟨a, -, k, ha, -⟩ := hok none none
    exact ⟨_, _, Component.embed_on hmade ha (.ok a)⟩

theorem Component.embedLater_unopened {fault : Fault}
    (hopen : c.client.connection.on h = (.error fault, h)) :
    (c.embedLater input options).on h =
      (.ok { error := some fault.message, input := input.told }, h) := by
  have hlasting : Lasting c.client.connection := inferInstance
  have htold := (hlasting.tellable h).not_exit fault (congrArg Prod.fst hopen)
  exact Component.embedLater_on hmade (on_bind_error hopen _) (.error htold)

end

theorem copied_data {a b : Embeddings} (hdata : a.data = b.data) (hsome : b.data.isSome = true) :
    (copied b).data = a.data := by
  obtain ⟨data, hb⟩ := Option.isSome_iff_exists.1 hsome
  rw [copied, hdata, hb, Option.getD_some]

theorem Component.embedLater_opened {connection : Connection}
    (hmade : c.arguments input options = .ok arguments)
    (hopen : c.client.connection.on h = (.ok connection, h)) :
    ∃ a b k, (c.embed input options).on h = (.ok a, k) ∧
      (c.embedLater input options).on h = (.ok b, k) ∧ b.data = a.data ∧
      b.error = (if a.data.isSome then none else a.error) ∧ b.input = input.told ∧
      (a.data.isSome = true ∨ (get? "input" arguments).bind textsOf = none) := by
  rcases embed_outcome arguments h with ⟨stop, hstop, hexit, hunlisted⟩ | hok
  · have hwaiting : (c.waiting arguments).on h = (.error stop, h) :=
      (on_bind_ok hopen _).trans (on_bind_error (hstop _) _)
    exact ⟨_, _, h, Component.embed_on hmade (hstop none) (.error hexit),
      Component.embedLater_on hmade hwaiting (.error hexit), rfl, rfl, rfl, .inr hunlisted⟩
  · obtain ⟨a, b, k, ha, hb, hdata, hsome⟩ := hok none (some usualDimension)
    have hwaiting : (c.waiting arguments).on h = (.ok (copied b), k) :=
      (on_bind_ok hopen _).trans ((on_bind_ok hb _).trans (on_pure _ k))
    have hcopied := copied_data hdata hsome
    rw [← hdata] at hsome
    exact ⟨a, _, k, Component.embed_on hmade ha (.ok a),
      Component.embedLater_on hmade hwaiting (.ok _), hcopied, (if_pos hsome).symm, rfl,
      .inl hsome⟩

end

/-- The two ways of embedding an input. Arguments that cannot be made fail both. A client that does
not find its key again is told only by the call that waits. Otherwise the data are the same, but the
call that waits copies them into a result without an error: it tells one only where there is no
result to copy, which is never so for a list or a text. -/
theorem embedLater_copies (c : Component) (input : Input) (options : Fields) (h : Host) :
    match c.arguments input options, (c.client.connection.on h).1 with
    | .error fault, _ =>
        (c.embed input options).on h = (.error fault, h) ∧
          (c.embedLater input options).on h = (.error fault, h)
    | .ok _, .error fault =>
        (∃ a k, (c.embed input options).on h = (.ok a, k)) ∧
          (c.embedLater input options).on h =
            (.ok { error := some fault.message, input := input.told }, h)
    | .ok arguments, .ok _ =>
        ∃ a b k, (c.embed input options).on h = (.ok a, k) ∧
          (c.embedLater input options).on h = (.ok b, k) ∧ b.data = a.data ∧
          b.error = (if a.data.isSome then none else a.error) ∧ b.input = input.told ∧
          (a.data.isSome = true ∨ (get? "input" arguments).bind textsOf = none) := by
  have hopen := connection_on c.client h
  cases hmade : c.arguments input options with
  | error fault =>
    exact ⟨by rw [Component.embed, Run.on_lift_bind, hmade, Run.next_error],
      by rw [Component.embedLater, Run.on_lift_bind, hmade, Run.next_error]⟩
  | ok arguments =>
    cases hconnection : (c.client.connection.on h).1 with
    | error fault =>
      exact ⟨Component.embed_told hmade h,
        Component.embedLater_unopened hmade (hconnection ▸ hopen)⟩
    | ok connection => exact Component.embedLater_opened hmade (hconnection ▸ hopen)

def ready : Component :=
  ⟨keyed, ⟨.str "k", .null, .str defaultUrl⟩, [("model", .str "e")]⟩

def heardFrom (step : Run Embeddings) (h : Host) : Option (Option String × Option Nat) :=
  (step.on h).1.toOption.map fun e => (e.error, e.data.map List.length)

/-- The service fails: the call tells it, and the call that waits gives no embeddings and no
reason. -/
theorem waiting_hides_failure :
    heardFrom (ready.embed (.list [.value (.str "a")]) [])
        (replying (.obj [("raise", .str "quota")])) = some (some "quota", some 0) ∧
      heardFrom (ready.embedLater (.list [.value (.str "a")]) [])
        (replying (.obj [("raise", .str "quota")])) = some (none, some 0) := by
  decide +kernel

end DashScope
end Provider
end RepoWiki
