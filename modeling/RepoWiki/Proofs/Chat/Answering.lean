import RepoWiki.Chat.Session
import RepoWiki.Proofs.Run
import RepoWiki.Proofs.Text.Occurrence
/-
Answering side by side on the two channels.

The prompts of the channels differ, so the models are called with different arguments, and a step on
the stream is compared with another step on the socket. `Parallel` says that two steps give the same
result and send the same pieces, on hosts with the same environment and the same replies to come;
the step on the socket may add something at its end. Putting steps together keeps that, and
`answer_matched` follows for a whole answer.
-/

namespace RepoWiki.Chat

open Fields List Provider Provider.Completion Provider.Record Provider.Service Run Voice

variable {h k : Host} {options : Fields} {voice : Voice} {name : String} {model reply : Json}
  {fault : Fault}

/-! ## Steps side by side -/

/-- Two hosts on which models are reached and answer alike, with lines where no attempt fails. -/
structure Alike (h k : Host) : Prop where
  env : k.env = h.env
  web : k.web = h.web
  model : k.model = h.model
  library : k.library = h.library
  left : h.line.faults = []
  right : k.line.faults = []

/-- What the second step adds to its pieces: nothing if it fails. -/
def ending {α : Type} (last : List Event) : Result α → List Event
  | .ok _ => last
  | .error _ => []

variable {α : Type}

@[simp] theorem ending_ok (last : List Event) (a : α) :
    ending last (.ok a : Result α) = last := rfl

@[simp] theorem ending_error (last : List Event) (fault : Fault) :
    ending last (.error fault : Result α) = [] := rfl

@[simp] theorem ending_nil (r : Result α) : ending [] r = [] := by
  cases r <;> rfl

/-- Two hosts after the same result and the same pieces. A fault is one of `fails`. -/
structure Matched {α : Type} (fails : Fault → Prop) (last : List Event) (h k : Host)
    (result : Result α) (h' k' : Host) : Prop where
  alike : Alike h' k'
  fault : ∀ fault, result = .error fault → fails fault
  sent : ∃ pieces : List Json, h'.line.events = h.line.events ++ pieces.map .send ∧
    k'.line.events = k.line.events ++ pieces.map .send ++ ending last result

theorem Matched.after {β : Type} {fails fails' : Fault → Prop} {before last : List Event}
    {h' k' h'' k'' : Host} {first : Result α} {result : Result β}
    (hfirst : Matched fails' before h k first h' k') (hnone : ending before first = [])
    (hnext : Matched fails last h' k' result h'' k'') : Matched fails last h k result h'' k'' := by
  obtain ⟨pieces, hh, hk⟩ := hfirst.sent
  obtain ⟨more, hh', hk'⟩ := hnext.sent
  refine ⟨hnext.alike, hnext.fault, pieces ++ more, ?_, ?_⟩
  · rw [hh', hh, map_append, append_assoc]
  · rw [hk', hk, hnone, append_nil, map_append, append_assoc k.line.events]

/-- A step on the stream and a step on the socket that go side by side. -/
class Parallel {α : Type} (fails : Fault → Prop) (last : List Event) (s t : Run α) : Prop where
  matched : ∀ h k, Alike h k → ∃ result h' k', s.on h = (result, h') ∧ t.on k = (result, k') ∧
    Matched fails last h k result h' k'

abbrev AnyFault : Fault → Prop := fun _ => True

namespace Parallel

variable {α β : Type} {fails : Fault → Prop} {last : List Event}

theorem quiet {s t : Run α} {h' k' : Host} {result : Result α} (hs : s.on h = (result, h'))
    (ht : t.on k = (result, k')) (halike : Alike h' k') (hh : h'.line = h.line)
    (hk : k'.line = k.line) (hf : ∀ fault, result = .error fault → fails fault) :
    ∃ result h' k', s.on h = (result, h') ∧ t.on k = (result, k') ∧
      Matched fails [] h k result h' k' :=
  ⟨result, h', k', hs, ht, halike, hf, [], by simp [hh], by simp [hk]⟩

instance pure (a : α) : Parallel fails [] (pure a : Run α) (pure a) where
  matched h k hhk :=
    quiet (on_pure a h) (on_pure a k) hhk rfl rfl fun _ hf => nomatch hf

theorem lift {r : Result α} (hr : ∀ fault, r = .error fault → fails fault) :
    Parallel fails [] (lift r) (lift r) where
  matched h k hhk := quiet (on_lift r h) (on_lift r k) hhk rfl rfl hr

instance lift_any (r : Result α) : Parallel AnyFault [] (Run.lift r) (Run.lift r) :=
  lift fun _ _ => trivial

instance throw_any (fault : Fault) :
    Parallel AnyFault last (throw fault : Run α) (throw fault) where
  matched h k hhk :=
    ⟨.error fault, h, k, on_throw fault h, on_throw fault k, hhk, fun _ _ => trivial, [],
      by simp, by simp⟩

instance bind (s t : Run α) (f g : α → Run β) [hs : Parallel fails [] s t]
    [hf : ∀ a, Parallel fails last (f a) (g a)] : Parallel fails last (s >>= f) (t >>= g) where
  matched h k hhk := by
    obtain ⟨first, h', k', hx, hy, hfirst⟩ := hs.matched h k hhk
    cases first with
    | error fault =>
      refine ⟨.error fault, h', k', on_bind_error hx f, on_bind_error hy g, hfirst.alike,
        fun e he => hfirst.fault e ?_, hfirst.sent⟩
      rw [Except.error.inj he]
    | ok a =>
      obtain ⟨result, h'', k'', hx', hy', hnext⟩ := (hf a).matched h' k' hfirst.alike
      refine ⟨result, h'', k'', ?_, ?_, hfirst.after (ending_nil _) hnext⟩
      · rw [on_bind_ok hx, hx']
      · rw [on_bind_ok hy, hy']

theorem andThen {s t : Run α} {f g : α → Run β} (hs : Parallel fails [] s t)
    (hf : ∀ a, Parallel fails last (f a) (g a)) : Parallel fails last (s >>= f) (t >>= g) :=
  bind s t f g

instance ite (c : Prop) [Decidable c] (s t u v : Run α) [hs : Parallel fails last s t]
    [hu : Parallel fails last u v] :
    Parallel fails last (if c then s else u) (if c then t else v) := by
  split
  · exact hs
  · exact hu

theorem read {f g : Host → Run β} (hg : ∀ h k, Alike h k → g k = g h)
    (hf : ∀ h, Parallel fails last (f h) (g h)) : Parallel fails last (get >>= f) (get >>= g) where
  matched h k hhk := by
    rw [on_get_bind, on_get_bind, hg h k hhk]
    exact (hf h).matched h k hhk

theorem modify {f g : Host → Host} (hfg : ∀ h k, Alike h k → Alike (f h) (g k))
    (hf : ∀ h, (f h).line = h.line) (hg : ∀ k, (g k).line = k.line) :
    Parallel fails [] (modify f : Run Unit) (modify g) where
  matched h k hhk :=
    quiet (on_modify f h) (on_modify g k) (hfg h k hhk) (hf h) (hg k) fun _ he => nomatch he

/-- The rescue has to go side by side after the faults that there are. -/
theorem orElse {rescued : Fault → Prop} {s t : Run α} {u v : Fault → Run α}
    (hs : Parallel fails last s t) (hexit : ∀ code, fails (.exit code) → rescued (.exit code))
    (hu : ∀ fault, fails fault → isExit fault = false →
      Parallel rescued last (u fault) (v fault)) :
    Parallel rescued last (orElse s u) (orElse t v) where
  matched h k hhk := by
    obtain ⟨first, h', k', hx, hy, hfirst⟩ := hs.matched h k hhk
    cases first with
    | ok a =>
      exact ⟨.ok a, h', k', on_orElse_ok hx u, on_orElse_ok hy v, hfirst.alike,
        fun _ he => (nomatch he), hfirst.sent⟩
    | error fault =>
      cases hf : isExit fault with
      | false =>
        obtain ⟨result, h'', k'', hx', hy', hnext⟩ :=
          (hu fault (hfirst.fault fault rfl) hf).matched h' k' hfirst.alike
        refine ⟨result, h'', k'', ?_, ?_, hfirst.after (ending_error _ _) hnext⟩
        · rw [on_orElse_error hx hf, hx']
        · rw [on_orElse_error hy hf, hy']
      | true =>
        obtain ⟨code, rfl⟩ := exit_of_isExit hf
        refine ⟨.error (.exit code), h', k', on_orElse_exit hx u, on_orElse_exit hy v,
          hfirst.alike, fun e he => ?_, hfirst.sent⟩
        rw [← Except.error.inj he]
        exact hexit code (hfirst.fault _ rfl)

end Parallel

/-! ## Sending -/

instance (v : Json) {fails : Fault → Prop} : Parallel fails [] (send v) (send v) where
  matched _ _ hhk :=
    ⟨.ok (), _, _, on_send hhk.left v, on_send hhk.right v,
      ⟨hhk.env, hhk.web, hhk.model, hhk.library, hhk.left, hhk.right⟩,
        fun _ he => (nomatch he), [v], rfl,
      (append_nil _).symm⟩

instance {fails : Fault → Prop} :
    Parallel fails [.close] (finish .stream) (finish .socket) where
  matched h k hhk :=
    ⟨.ok (), _, _, on_pure () h, on_close k,
      ⟨hhk.env, hhk.web, hhk.model, hhk.library, hhk.left, hhk.right⟩, fun _ he => (nomatch he), [],
      by simp, by simp [Connection.add]⟩

theorem sendEach_parallel {fails : Fault → Prop} {textOf : Json → Result (Option Json)}
    (hf : ∀ chunk fault, textOf chunk = .error fault → fails fault) (chunks : List Json) :
    Parallel fails [] (sendEach textOf chunks) (sendEach textOf chunks) := by
  induction chunks with
  | nil => unfold sendEach; infer_instance
  | cons chunk rest ih =>
    unfold sendEach
    refine .andThen (.lift (hf chunk)) fun said => ?_
    split <;> infer_instance

instance (textOf : Json → Result (Option Json)) (chunks : Chunks) :
    Parallel AnyFault [] (sendChunks textOf chunks) (sendChunks textOf chunks) := by
  unfold sendChunks
  refine .andThen (sendEach_parallel (fun _ _ _ => trivial) _) fun _ => ?_
  split <;> infer_instance

instance (s : Stream) :
    Parallel AnyFault [] (sendStream s) (sendStream s) := by
  unfold sendStream
  refine .andThen (sendEach_parallel (fun _ _ _ => trivial) _) fun _ => ?_
  split <;> infer_instance

instance (textOf : Json → Result (Option Json)) (answer : Answer) :
    Parallel AnyFault [] (sendAnswer textOf answer) (sendAnswer textOf answer) := by
  unfold sendAnswer
  split <;> infer_instance

/-! ## Calling hosted models -/

section

variable {fails : Fault → Prop}

instance (name : String) : Parallel fails [] (env? name) (env? name) :=
  .read (fun _ _ hhk => by rw [hhk.env]) fun _ => inferInstance

instance : Parallel fails [] library library :=
  .read (fun _ _ hhk => by rw [hhk.library]) fun _ => inferInstance

/-- What was asked does not matter for what comes after. -/
instance (name : String) (a b : Json) : Parallel fails [] (note name a) (note name b) :=
  .modify (fun _ _ hhk => ⟨hhk.env, hhk.web, hhk.model, hhk.library, hhk.left, hhk.right⟩)
    (fun _ => rfl) fun _ => rfl

end

namespace Services

open Provider

instance (url : String) : Parallel AnyFault [] (Web.reply url) (Web.reply url) := by
  refine .read (fun _ _ hhk => by rw [hhk.web]) fun h => ?_
  split
  · infer_instance
  · refine .andThen
      (.modify (fun _ _ hhk => ⟨hhk.env, rfl, hhk.model, hhk.library, hhk.left, hhk.right⟩)
      (fun _ => rfl) fun _ => rfl) fun _ => ?_
    split <;> infer_instance

instance (url : String) (headers : Fields) (a b : Json) :
    Parallel AnyFault [] (Web.send url headers a) (Web.send url headers b) := by
  unfold Web.send
  infer_instance

instance : Parallel AnyFault [] Service.reply Service.reply := by
  refine .read (fun _ _ hhk => by rw [hhk.model]) fun h => ?_
  split
  · infer_instance
  · refine .andThen
      (.modify (fun _ _ hhk => ⟨hhk.env, hhk.web, rfl, hhk.library, hhk.left, hhk.right⟩)
      (fun _ => rfl) fun _ => rfl) fun _ => ?_
    split <;> infer_instance

instance (waiting : Bool) (a b : Fields) :
    Parallel AnyFault [] (Service.chat waiting a) (Service.chat waiting b) := by
  unfold Service.chat Service.ask Service.broken
  infer_instance

instance (name : Json) : Parallel AnyFault [] (Service.envNamed name) (Service.envNamed name) := by
  unfold Service.envNamed
  split <;> infer_instance

instance (given name : Json) :
    Parallel AnyFault [] (Service.settingOrEnv given name) (Service.settingOrEnv given name) := by
  unfold Service.settingOrEnv
  infer_instance

instance (c : OpenAI.Client) : Parallel AnyFault [] c.connection c.connection := by
  unfold OpenAI.Client.connection
  infer_instance

instance (c : Azure.Client) : Parallel AnyFault [] c.connection c.connection := by
  unfold Azure.Client.connection
  infer_instance

instance (c : OpenRouter.Client) (a b : Fields) :
    Parallel AnyFault [] (c.callLater a (some .llm)) (c.callLater b (some .llm)) := by
  unfold OpenRouter.Client.callLater
  refine @Parallel.ite _ _ _ _ _ _ _ _ _ inferInstance
    (@Parallel.ite _ _ _ _ _ _ _ _ _ inferInstance (.andThen inferInstance fun found => ?_))
  split
  · infer_instance
  · split
    · infer_instance
    · split <;> infer_instance

end Services

/-! ## The models that both channels have -/

def sharedProviders : List String :=
  ["google", "openai", "openrouter", "ollama", "azure"]

/-- A model that both channels have, as it is opened: no prompt is split into messages, and no
images come with it. -/
inductive Shared : Voice → Prop where
  | ollama (options : Fields) : Shared (.ollama options)
  | google (name : Json) (options : Fields) : Shared (.google name options)
  | openai (c : OpenAI.Client) (options : Fields) (hplain : c.messages = false)
      (himages : Fields.get? "images" options = none) :
      Shared (.hosted .openai (.openai c) options)
  | azure (c : Azure.Client) (options : Fields) (hplain : c.messages = false) :
      Shared (.hosted .azure (.azure c) options)
  | openrouter (c : OpenRouter.Client) (options : Fields) :
      Shared (.hosted .openrouter (.openrouter c) options)

variable {c : OpenAI.Client}

theorem openai_arguments (hplain : c.messages = false) (himages : get? "images" options = none)
    (input : Json) (h : Host) :
    (c.arguments input options .llm).on h =
      (.ok (set "messages" (.arr [userMessage input])
        (erase "detail" (erase "images" options))), h) := by
  have hparts : OpenAI.promptParts? c input = .ok none := by
    simp [OpenAI.promptParts?, hplain, Pure.pure, Except.pure]
  simp [OpenAI.Client.arguments, himages, OpenAI.Client.messagesFor, hparts, Json.truthy]

theorem Shared.arguments (hv : Shared voice) (prompt : String) (h : Host) :
    ∃ arguments, (voice.arguments prompt).on h = (.ok arguments, h) := by
  cases hv with
  | ollama options => exact ⟨_, on_pure _ h⟩
  | google name options => exact ⟨_, on_pure _ h⟩
  | openai c options hplain himages =>
    have hasked := openai_arguments hplain himages (.str prompt) h
    simpa [arguments, Client.arguments, Client.optionsOf] using ⟨_, hasked⟩
  | azure c options hplain =>
    have hasked : c.arguments (.str prompt) options .llm =
        .ok (set "messages" (.arr [systemMessage (.str prompt)]) options) := by
      rw [Azure.Client.arguments, Azure.Client.messagesFor, hplain]
      rfl
    simpa [arguments, Client.arguments, Client.optionsOf] using ⟨_, hasked⟩
  | openrouter c options =>
    obtain ⟨_, hasked⟩ : ∃ arguments,
        OpenRouter.arguments (.str prompt) options (some .llm) = .ok arguments := by
      unfold OpenRouter.arguments OpenRouter.messagesFor
      dsimp only
      rw [ok_bind]
      split <;> exact ⟨_, rfl⟩
    simpa [arguments, Client.arguments, Client.optionsOf] using ⟨_, hasked⟩

theorem Shared.speak {hosted : Hosted} {client : Client}
    (hv : Shared (.hosted hosted client options)) (textOf : Json → Result (Option Json))
    (a b : Fields) :
    Parallel AnyFault [] (speak (.hosted hosted client options) textOf a)
      (speak (.hosted hosted client options) textOf b) := by
  refine .andThen ?_ fun answer => inferInstance
  cases hv with
  | openai c _ _ _ =>
    show Parallel _ _ (c.callLater a .llm) (c.callLater b .llm)
    unfold OpenAI.Client.callLater
    infer_instance
  | azure c _ _ =>
    show Parallel _ _ (c.callLater a .llm) (c.callLater b .llm)
    unfold Azure.Client.callLater Azure.ask
    infer_instance
  | openrouter c _ =>
    show Parallel _ _ (do return Answer.pieces (← c.callLater a (some .llm)))
      (do return Answer.pieces (← c.callLater b (some .llm)))
    infer_instance

/-! ## Opening the models -/

theorem start_channel {provider : String} (hp : provider ∈ sharedProviders) (model : Json)
    (options : Fields) :
    start .socket provider model options = start .stream provider model options := by
  simp only [sharedProviders, mem_cons, not_mem_nil, or_false] at hp
  rcases hp with rfl | rfl | rfl | rfl | rfl <;> rfl

theorem openai_unsplit (hc : (OpenAI.Client.ofSettings []).on h = (.ok c, k)) :
    c.messages = false := by
  obtain ⟨_, _, _, hc⟩ := bind_eq_ok hc
  obtain ⟨_, _, _, hc⟩ := bind_eq_ok hc
  obtain ⟨_, _, _, hc⟩ := bind_eq_ok hc
  replace hc := pure_eq_ok hc
  rw [← hc.1]
  rfl

theorem azure_unsplit {c : Azure.Client}
    (hc : (Azure.Client.ofSettings []).on h = (.ok c, k)) : c.messages = false := by
  obtain ⟨_, _, _, hc⟩ := bind_eq_ok hc
  obtain ⟨_, _, _, hc⟩ := bind_eq_ok hc
  replace hc := pure_eq_ok hc
  rw [← hc.1]
  rfl

theorem get?_eq_none {fields : Fields} (h : ∀ f ∈ fields, f.1 ≠ name) :
    get? name fields = none := by
  induction fields with
  | nil => rfl
  | cons f rest ih =>
    rw [get?, if_neg (h f mem_cons_self)]
    exact ih fun g hg => h g (mem_cons_of_mem f hg)

theorem fst_mem_of_optionsOf {found : Fields} {names : List String}
    (h : optionsOf options names = .ok found) : ∀ f ∈ found, f.1 ∈ names := by
  intro f hf
  obtain ⟨name, hname, hoption⟩ := mem_of_mapM_eq_ok h hf
  unfold option at hoption
  split at hoption
  · rw [← Except.ok.inj hoption]
    exact hname
  · cases hoption

theorem hostedOptions_images {made : Fields}
    (h : hostedOptions .openai model options = .ok made) :
    get? "images" made = none := by
  obtain ⟨found, hfound, h⟩ := except_bind_eq_ok.1 h
  rw [except_pure_eq_ok] at h
  refine get?_eq_none fun f hf => ?_
  rw [← h] at hf
  simp only [option?, mem_append, mem_cons, not_mem_nil, or_false,
    Option.mem_toList, Option.map_eq_some_iff] at hf
  rcases hf with ((rfl | rfl) | hf) | ⟨v, _, rfl⟩
  · simp
  · simp
  · have hname := mem_singleton.1 (fst_mem_of_optionsOf hfound f hf)
    simp [hname]
  · simp

theorem hosted_eq_ok {hosted : Hosted} (hv : (do
      let client ← Client.ofSettings name []
      return .hosted hosted client (← lift (hostedOptions hosted model options))
        : Run Voice).on h = (.ok voice, k)) :
    ∃ client made m, (Client.ofSettings name []).on h = (.ok client, m) ∧
      hostedOptions hosted model options = .ok made ∧ voice = .hosted hosted client made := by
  obtain ⟨client, m, hclient, hv⟩ := bind_eq_ok hv
  obtain ⟨made, _, hmade, hv⟩ := bind_eq_ok hv
  replace hv := pure_eq_ok hv
  rw [on_lift, Prod.mk.injEq] at hmade
  exact ⟨client, made, m, hclient, hmade.1, hv.1.symm⟩

theorem start_shared {provider : String} (hp : provider ∈ sharedProviders)
    (hv : (start .stream provider model options).on h = (.ok voice, k)) : Shared voice := by
  simp only [sharedProviders, mem_cons, not_mem_nil, or_false] at hp
  rcases hp with rfl | rfl | rfl | rfl | rfl
  · obtain ⟨⟨_, name⟩, _, _, hv⟩ := bind_eq_ok hv
    obtain ⟨made, _, _, hv⟩ := bind_eq_ok hv
    replace hv := pure_eq_ok hv
    exact hv.1 ▸ .google name made
  · obtain ⟨client, made, m, hclient, hmade, rfl⟩ := hosted_eq_ok hv
    obtain ⟨c, _, hc, hclient⟩ := bind_eq_ok hclient
    replace hclient := pure_eq_ok hclient
    rw [← hclient.1]
    exact .openai c made (openai_unsplit hc) (hostedOptions_images hmade)
  · obtain ⟨client, made, m, hclient, hmade, rfl⟩ := hosted_eq_ok hv
    obtain ⟨c, _, hc, hclient⟩ := bind_eq_ok hclient
    replace hclient := pure_eq_ok hclient
    rw [← hclient.1]
    exact .openrouter c made
  · obtain ⟨made, _, _, hv⟩ := bind_eq_ok hv
    replace hv := pure_eq_ok hv
    exact hv.1 ▸ .ollama made
  · obtain ⟨client, made, m, hclient, hmade, rfl⟩ := hosted_eq_ok hv
    obtain ⟨c, _, hc, hclient⟩ := bind_eq_ok hclient
    replace hclient := pure_eq_ok hclient
    rw [← hclient.1]
    exact .azure c made (azure_unsplit hc)

/-! ## Listening to the other models -/

/-- A fault that can be told and does not ask for a shorter prompt. -/
def Passing (fault : Fault) : Prop :=
  isExit fault = false ∧ isTooLong fault = false

/-- Each phrase that tells of a long prompt has a letter that other messages do without. -/
def speaksOfLength (s : List Char) : Bool :=
  s.contains 'k' || s.contains 'x'

theorem passing_of_speaks (hexit : isExit fault = false)
    (h : speaksOfLength fault.message.toList = false) : Passing fault := by
  refine ⟨hexit, ?_⟩
  simp only [speaksOfLength, Bool.or_eq_false_iff, contains_eq_mem, decide_eq_false_iff_not]
    at h
  rw [isTooLong, any_eq_false]
  intro phrase hphrase hinside
  simp only [mem_cons, not_mem_nil, or_false] at hphrase
  rcases hphrase with rfl | rfl | rfl
  · exact h.2 ((Text.hasInfixList_iff.1 hinside).subset (by decide))
  · exact h.1 ((Text.hasInfixList_iff.1 hinside).subset (by decide))
  · exact h.1 ((Text.hasInfixList_iff.1 hinside).subset (by decide))

def kindNames : List String :=
  ["NoneType", "bool", "int", "float", "str", "list", "dict", recordKind,
    wholeKind]

theorem kindName_mem (v : Json) : v.kindName ∈ kindNames := by
  cases v <;> simp [Json.kindName, kindNames]

theorem recordKindName_mem (v : Json) : kindName v ∈ kindNames := by
  cases v <;> simp [kindName, Json.kindName, kindNames]

theorem kindNames_short : ∀ name ∈ kindNames, speaksOfLength name.toList = false := by
  decide

theorem passing_of_kind (hexit : isExit fault = false) (hname : name ∈ kindNames)
    (before after : String) (hmessage : fault.message = before ++ name ++ after)
    (hbefore : speaksOfLength before.toList = false)
    (hafter : speaksOfLength after.toList = false) : Passing fault := by
  refine passing_of_speaks hexit ?_
  have hkind := kindNames_short name hname
  simp only [speaksOfLength, Bool.or_eq_false_iff, contains_eq_mem,
    decide_eq_false_iff_not] at hbefore hafter hkind ⊢
  simp [hmessage, hbefore, hafter, hkind]

section

variable {name : String} (hname : name ∈ kindNames)

include hname

theorem no_attribute_passing : Passing (.attribute name "startswith") := by
  have hafter : speaksOfLength ("' object has no attribute '" ++ "startswith" ++ "'").toList =
      false := by decide
  refine passing_of_kind rfl hname "'" _ ?_ (by decide) hafter
  show "'" ++ name ++ "' object has no attribute '" ++ "startswith" ++ "'" = _
  simp only [String.append_assoc]

theorem no_late_stream_passing :
    Passing (.operation ("'async for' requires an object with __aiter__ method, got " ++ name)) :=
  passing_of_kind rfl hname "'async for' requires an object with __aiter__ method, got " ""
    String.append_empty.symm (by decide) (by decide)

theorem not_iterable_passing : Passing (.operation s!"'{name}' object is not iterable") :=
  passing_of_kind rfl hname "'" "' object is not iterable" rfl (by decide) (by decide)

end

theorem ollamaText_passing {chunk : Json} (h : ollamaText chunk = .error fault) :
    Passing fault := by
  unfold ollamaText at h
  dsimp only at h
  split at h
  · cases h
  · split at h <;> cases h
  · rw [← Except.error.inj h]
    exact no_attribute_passing (recordKindName_mem _)

theorem fieldText_passing {chunk : Json} (h : fieldText chunk = .error fault) : Passing fault := by
  cases h

theorem lateChunks_passing {broken : Option String}
    (h : (ofReply true reply broken).lateChunks = .error fault) : Passing fault := by
  unfold ofReply at h
  split at h
  · cases h
  · have hwhole : wholeKind ∈ kindNames := by simp [kindNames]
    rw [← Except.error.inj h]
    exact no_late_stream_passing hwhole
  · rw [← Except.error.inj h]
    exact no_late_stream_passing (recordKindName_mem _)

theorem elements_passing (h : elements reply = .error fault) : Passing fault := by
  unfold elements at h
  split at h
  · have hrecord : recordKind ∈ kindNames := by simp [kindNames]
    rw [← Except.error.inj h]
    exact not_iterable_passing hrecord
  · unfold Json.elements at h
    split at h <;> try cases h
    exact not_iterable_passing (kindName_mem _)

theorem ofElements_passing {broken : Option String}
    (h : Chunks.ofElements reply broken = .error fault) : Passing fault := by
  rw [Chunks.ofElements] at h
  cases hfound : elements reply with
  | error problem =>
    rw [hfound] at h
    exact Except.error.inj h ▸ elements_passing hfound
  | ok pieces =>
    rw [hfound] at h
    cases h

/-- Chunks that do not break off are sent one by one. -/
theorem sendChunks_whole {found : Result Chunks} (textOf : Json → Result (Option Json))
    (h : ∀ chunks, found = .ok chunks → chunks.broken = none) :
    lift found >>= sendChunks textOf =
      lift found >>= fun chunks => sendEach textOf chunks.pieces := by
  cases found with
  | error fault => rfl
  | ok chunks =>
    have hsend : sendChunks textOf chunks = sendEach textOf chunks.pieces := by
      rw [sendChunks, h chunks rfl]
      exact bind_pure _
    exact hsend

theorem broken_of_lateChunks {broken : Option String} {chunks : Chunks}
    (h : (ofReply true reply broken).lateChunks = .ok chunks) : chunks.broken = broken := by
  unfold ofReply at h
  split at h
  · exact congrArg Chunks.broken (Except.ok.inj h).symm
  · cases h
  · cases h

theorem broken_of_ofElements {broken : Option String} {chunks : Chunks}
    (h : Chunks.ofElements reply broken = .ok chunks) : chunks.broken = broken := by
  obtain ⟨pieces, -, hpieces⟩ := except_bind_eq_ok.1 h
  exact congrArg Chunks.broken (Except.ok.inj hpieces).symm

/-! ## A whole answer -/

/-- The first call of a model will succeed: it is answered, and the answer does not break off.
Nothing is asked of the hosted models, whose faults are told like an answer. -/
def Voice.answered (voice : Voice) (h : Host) : Bool :=
  match voice with
  | .hosted _ _ _ => true
  | _ => h.model.head?.any fun reply =>
      (reply.field? "raise").isNone && (h.library.breaks reply).isNone

theorem answered_eq
    (hfirst : (h.model.head?.any fun reply =>
      (reply.field? "raise").isNone && (h.library.breaks reply).isNone) = true) :
    ∃ reply rest, h.model = reply :: rest ∧ reply.field? "raise" = none ∧
      h.library.breaks reply = none := by
  cases hm : h.model with
  | nil => simp [hm] at hfirst
  | cons reply rest => exact ⟨reply, rest, rfl, by simpa [hm] using hfirst⟩

theorem on_broken (reply : Json) (h : Host) :
    (broken reply).on h = (.ok (h.library.breaks reply), h) := by
  rw [broken, on_bind_ok (on_library h), on_pure]

def nextReply : List Json → Result Json
  | [] => .error (.service "no scripted reply")
  | reply :: _ =>
      match reply.field? "raise" with
      | some message => .error (.service message.inText)
      | none => .ok reply

theorem ask_nextReply (name : String) (arguments : Fields) (h : Host) :
    (Service.ask name arguments).on h = (nextReply h.model,
      { h with model := h.model.tail, calls := h.calls ++ [⟨name, .obj arguments⟩] }) := by
  rw [Service.ask, on_bind_ok (on_note name _ h), Service.reply, on_get_bind]
  cases hm : h.model with
  | nil => exact on_throw _ _
  | cons reply rest =>
    simp only [nextReply]
    rw [on_modify_bind]
    cases reply.field? "raise" with
    | none => exact on_pure _ _
    | some message => exact on_throw _ _

theorem ask_on {rest : List Json} (hm : h.model = reply :: rest)
    (hr : reply.field? "raise" = none) (name : String) (arguments : Fields) :
    (ask name arguments).on h = (.ok reply,
      { h with model := rest, calls := h.calls ++ [⟨name, .obj arguments⟩] }) := by
  rw [ask_nextReply, hm, nextReply, hr, tail_cons]

theorem matched_of_answered {a b : Fields} {f g : Json → Option String → Run Unit}
    {u v : Fault → Run Unit} {rest : List Json} (hhk : Alike h k) (hm : h.model = reply :: rest)
    (hr : reply.field? "raise" = none) (hwhole : h.library.breaks reply = none)
    (hfg : Parallel AnyFault [.close] (orElse (f reply none) u) (orElse (g reply none) v)) :
    ∃ result h' k',
      (orElse (ask name a >>= fun reply => broken reply >>= f reply) u).on h = (result, h') ∧
      (orElse (ask name b >>= fun reply => broken reply >>= g reply) v).on k = (result, k') ∧
      Matched AnyFault [.close] h k result h' k' := by
  have hh := ask_on hm hr name a
  have hk := ask_on (hhk.model.trans hm) hr name b
  have halike : Alike { h with model := rest, calls := h.calls ++ [⟨name, .obj a⟩] }
      { k with model := rest, calls := k.calls ++ [⟨name, .obj b⟩] } :=
    ⟨hhk.env, hhk.web, rfl, hhk.library, hhk.left, hhk.right⟩
  obtain ⟨result, h', k', hx, hy, hmatched⟩ := hfg.matched _ _ halike
  refine ⟨result, h', k', ?_, ?_, hmatched.alike, hmatched.fault, hmatched.sent⟩
  · rw [on_orElse_congr ((on_bind_ok hh _).trans (on_bind_ok (on_broken _ _) _)), hwhole, hx]
  · have hsame : k.library.breaks reply = none := hhk.library ▸ hwhole
    rw [on_orElse_congr ((on_bind_ok hk _).trans (on_bind_ok (on_broken _ _) _)), hsame, hy]

def afterFault (channel : Channel) (settings : Fields) (r : Request) (p : Prepared)
    (fault : Fault) : Run Unit :=
  if isTooLong fault then
    orElse (secondTry settings r p) fun _ => do
      send (.str apology)
      finish channel
  else do
    send (.str ("\nError: " ++ fault.message))
    finish channel

theorem answer_eq (channel : Channel) (settings : Fields) (r : Request) (p : Prepared) :
    answer channel settings r p =
      orElse (firstTry channel p) (afterFault channel settings r p) := rfl

theorem afterFault_parallel (settings : Fields) (r : Request) (p q : Prepared)
    (hf : Passing fault) :
    Parallel AnyFault [.close] (afterFault .stream settings r p fault)
      (afterFault .socket settings r q fault) := by
  simp only [afterFault, hf.2, Bool.false_eq_true, if_false]
  infer_instance

theorem firstTry_ollama (channel : Channel) (options a : Fields) (short : String) :
    firstTry channel ⟨.ollama options, a, short⟩ = ask "ollama" a >>= fun reply =>
      broken reply >>= fun broken =>
        (lift (ofReply true reply broken).lateChunks >>= sendChunks ollamaText) >>=
          fun _ => finish channel := by
  simp only [firstTry, speak, bind_assoc]

theorem firstTry_google (channel : Channel) (name : Json) (options a : Fields) (short : String) :
    firstTry channel ⟨.google name options, a, short⟩ =
      ask "google" a >>= fun reply => broken reply >>= fun broken =>
        (lift (Chunks.ofElements reply broken) >>= sendChunks fieldText) >>=
          fun _ => finish channel := by
  simp only [firstTry, speak, bind_assoc]

theorem answer_matched (settings : Fields) (r : Request) {p q : Prepared}
    (hpq : q.voice = p.voice) (hv : Shared p.voice) (hhk : Alike h k)
    (hfirst : p.voice.answered h = true) :
    ∃ result h' k', (answer .stream settings r p).on h = (result, h') ∧
      (answer .socket settings r q).on k = (result, k') ∧
      Matched AnyFault [.close] h k result h' k' := by
  obtain ⟨voice, a, short⟩ := p
  obtain ⟨voice', b, short'⟩ := q
  change voice' = voice at hpq
  subst hpq
  rw [answer_eq, answer_eq]
  cases voice' with
  | ollama options =>
    obtain ⟨reply, rest, hm, hr, hwhole⟩ := answered_eq hfirst
    have hlistened : Parallel Passing []
        (lift (ofReply true reply none).lateChunks >>= sendChunks ollamaText)
        (lift (ofReply true reply none).lateChunks >>= sendChunks ollamaText) := by
      rw [sendChunks_whole ollamaText fun _ => broken_of_lateChunks]
      exact .andThen (.lift fun _ => lateChunks_passing) fun _ =>
        sendEach_parallel (fun _ _ => ollamaText_passing) _
    rw [firstTry_ollama, firstTry_ollama]
    exact matched_of_answered hhk hm hr hwhole
      (.orElse (.andThen hlistened fun _ => inferInstance)
        (fun _ _ => trivial) fun _ hf _ => afterFault_parallel settings r _ _ hf)
  | google name options =>
    obtain ⟨reply, rest, hm, hr, hwhole⟩ := answered_eq hfirst
    have hlistened : Parallel Passing []
        (lift (Chunks.ofElements reply none) >>= sendChunks fieldText)
        (lift (Chunks.ofElements reply none) >>= sendChunks fieldText) := by
      rw [sendChunks_whole fieldText fun _ => broken_of_ofElements]
      exact .andThen (.lift fun _ => ofElements_passing) fun _ =>
        sendEach_parallel (fun _ _ => fieldText_passing) _
    rw [firstTry_google, firstTry_google]
    exact matched_of_answered hhk hm hr hwhole
      (.orElse (.andThen hlistened fun _ => inferInstance)
        (fun _ _ => trivial) fun _ hf _ => afterFault_parallel settings r _ _ hf)
  | hosted hosted client options =>
    have hspoken : Parallel (fun fault => isExit fault = true) [.close]
        (firstTry .stream ⟨.hosted hosted client options, a, short⟩)
        (firstTry .socket ⟨.hosted hosted client options, b, short'⟩) :=
      .orElse (.andThen (hv.speak choiceText a b) fun _ => inferInstance) (fun _ _ => rfl)
        fun _ _ _ => inferInstance
    -- Whatever else a hosted model fails with has been told at the first attempt.
    refine (Parallel.orElse hspoken (fun _ _ => trivial) fun fault hexit hf => ?_).matched h k hhk
    rw [hf] at hexit
    cases hexit
  | mute client options => cases hv

end RepoWiki.Chat
