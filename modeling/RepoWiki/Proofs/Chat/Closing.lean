import RepoWiki.Proofs.Chat.Channels
/-
How a conversation over a socket ends.

Each step is described by what it puts on the line (`Utters`) and by the faults it can have
(`Lasting`). Whatever goes wrong is told and the socket is closed after it, with one exception: a
model on the own machine refuses a prompt as too long and then answers the short one. The second
attempt sends that answer and closes nothing, unlike the first.
-/

namespace RepoWiki.Chat

open List Provider Run Voice

variable {last : List Event} {h : Host} {options : Fields} {step : Run Unit}
  {rescue : Fault → Run Unit}

/-! ## What a step puts on the line -/

/-- A line on which no attempt fails, after some pieces and an end. -/
def Said (last : List Event) (h k : Host) : Prop :=
  k.line.faults = [] ∧
    ∃ pieces : List Json, k.line.events = h.line.events ++ pieces.map .send ++ last

variable {k : Host}

theorem Said.trans {m : Host} (hk : Said [] h k) (hm : Said last k m) : Said last h m := by
  obtain ⟨_, pieces, hpieces⟩ := hk
  obtain ⟨hline, more, hmore⟩ := hm
  refine ⟨hline, pieces ++ more, ?_⟩
  rw [hmore, hpieces, append_nil, map_append, append_assoc h.line.events]

/-- A step that sends pieces and, if it succeeds, ends with `last`. -/
class Utters {α : Type} (last : List Event) (step : Run α) : Prop where
  said : ∀ h, h.line.faults = [] → Said (ending last (step.on h).1) h (step.on h).2

namespace Utters

variable {α β : Type} {last : List Event}

instance offline (step : Run α) [Offline step] : Utters [] step where
  said h hh := by
    rw [ending_nil]
    exact ⟨by rwa [Ignores.line_eq], [], by rw [Ignores.line_eq]; simp⟩

instance throw (fault : Fault) : Utters last (throw fault : Run α) where
  said h hh := by
    rw [on_throw, ending_error]
    exact ⟨hh, [], by simp⟩

instance bind (step : Run α) (f : α → Run β) [hs : Utters [] step] [hf : ∀ a, Utters last (f a)] :
    Utters last (step >>= f) where
  said h hh := by
    have hfirst := hs.said h hh
    rw [on_bind]
    rcases hstep : step.on h with ⟨fault | a, k⟩ <;> rw [hstep, ending_nil] at hfirst
    · exact hfirst
    · exact hfirst.trans ((hf a).said k hfirst.1)

theorem andThen {step : Run α} {f : α → Run β} (hs : Utters [] step)
    (hf : ∀ a, Utters last (f a)) : Utters last (step >>= f) :=
  bind step f

instance send (v : Json) : Utters [] (Run.send v) where
  said h hh := by
    rw [on_send hh]
    exact ⟨hh, [v], (append_nil _).symm⟩

instance close : Utters [.close] Run.close where
  said h hh := by
    rw [on_close]
    exact ⟨hh, [], by simp [Connection.add]⟩

instance finish : Utters [.close] (finish .socket) :=
  close

theorem ofParallel {fails : Fault → Prop} {s t : Run α} (hst : Parallel fails last s t) :
    Utters last t where
  said h hh := by
    obtain ⟨result, _, k, _, ht, hmatched⟩ := hst.matched h h ⟨rfl, rfl, rfl, rfl, hh, hh⟩
    obtain ⟨pieces, _, hpieces⟩ := hmatched.sent
    rw [ht]
    exact ⟨hmatched.alike.right, pieces, hpieces⟩

end Utters

variable (textOf : Json → Result (Option Json))

instance (chunks : Chunks) : Utters [] (sendChunks textOf chunks) :=
  .ofParallel (inferInstance : Parallel AnyFault [] (sendChunks textOf chunks) _)

/-! ## Faults while a model answers -/

instance (v : Json) : Lasting (Run.send v) := by
  refine .read fun h => ?_
  dsimp only
  split <;> infer_instance

instance : Lasting (finish .socket) :=
  .modify _

/-- A step that gives nothing but what is as `P` says. -/
class Gives {α : Type} (P : α → Prop) (step : Run α) : Prop where
  given : ∀ h k a, step.on h = (.ok a, k) → P a

namespace Gives

variable {α β : Type}

variable {P : α → Prop}

theorem pure {a : α} (ha : P a) : Gives P (pure a : Run α) where
  given h k b hb := by
    replace hb := pure_eq_ok hb
    exact hb.1 ▸ ha

theorem any {step : Run α} : Gives (fun _ => True) step :=
  ⟨fun _ _ _ _ => trivial⟩

theorem bind {Q : β → Prop} {step : Run α} {f : α → Run β} (hs : Gives P step)
    (hf : ∀ a, P a → Gives Q (f a)) : Gives Q (step >>= f) where
  given h k b hb := by
    obtain ⟨a, m, ha, hb⟩ := bind_eq_ok hb
    exact (hf a (hs.given h m a ha)).given m k b hb

theorem lasting {step : Run α} {f : α → Run β} [hs : Lasting step] (hgives : Gives P step)
    (hf : ∀ a, P a → Lasting (f a)) : Lasting (step >>= f) where
  tellable h := by
    have hstep := hs.tellable h
    rw [on_bind]
    rcases hrun : step.on h with ⟨fault | a, k⟩ <;> rw [hrun] at hstep
    · exact hstep.passed rfl
    · exact (hf a (hgives.given h k a hrun)).tellable k

end Gives

namespace Voice

variable (chunk : Json)

instance : Tellable (ollamaText chunk) :=
  ⟨fun _ h => (ollamaText_passing h).1⟩

instance : Tellable (choiceText chunk) := by
  unfold choiceText
  infer_instance

instance : Tellable (fieldText chunk) := by
  unfold fieldText
  infer_instance

instance (textOf : Json → Result (Option Json)) [∀ chunk, Tellable (textOf chunk)]
    (chunks : List Json) : Lasting (sendEach textOf chunks) := by
  induction chunks with
  | nil => unfold sendEach; infer_instance
  | cons chunk rest ih =>
    unfold sendEach
    refine .andThen inferInstance fun said => ?_
    split <;> infer_instance

instance (textOf : Json → Result (Option Json)) [∀ chunk, Tellable (textOf chunk)]
    (chunks : Chunks) : Lasting (sendChunks textOf chunks) := by
  unfold sendChunks
  refine .andThen inferInstance fun _ => ?_
  split <;> infer_instance

end Voice

/-- A stream that ends, if it fails, in a fault that can be told. -/
def streamTold (s : Stream) : Prop :=
  ∀ fault, s.fault = some fault → isExit fault = false

theorem streamTold_single (text : String) : streamTold (.single text) :=
  fun _ h => nomatch h

theorem streamTold_failing (fault : Fault) [hf : Told fault] : streamTold (.failing fault) :=
  fun _ h => Option.some.inj h ▸ hf.not_exit

theorem streamTold_streamOf (r : Result Json) [hr : Tellable r] :
    streamTold (OpenRouter.streamOf r) := by
  intro fault h
  cases r with
  | ok v => cases h
  | error e => exact hr.not_exit fault (congrArg _ (Option.some.inj h))

instance (depth : Nat) (data : Json) : Tellable (OpenRouter.contentOf depth data) := by
  unfold OpenRouter.contentOf
  refine .andThen inferInstance fun known => ?_
  dsimp only
  split
  all_goals
    refine .andThen inferInstance fun choices => .andThen inferInstance fun count => ?_
    split
    · infer_instance
    · refine .andThen inferInstance fun choice => .andThen inferInstance fun named => ?_
      split
      all_goals
        refine .andThen inferInstance fun message => .andThen inferInstance fun filled => ?_
        split
        · infer_instance
        · refine .andThen inferInstance fun content => ?_
          split <;> infer_instance

/-- What a hosted service is asked for comes, or a fault that can be told. -/
instance (c : OpenRouter.Client) (arguments : Fields) :
    Lasting (c.callLater arguments (some .llm)) := by
  unfold OpenRouter.Client.callLater
  refine @Lasting.ite _ _ _ _ _ inferInstance (@Lasting.ite _ _ _ _ _ inferInstance ?_)
  refine .andThen inferInstance fun found => ?_
  split
  · infer_instance
  · split
    · infer_instance
    · split <;> infer_instance

theorem openrouter_told (c : OpenRouter.Client) (arguments : Fields) :
    Gives streamTold (c.callLater arguments (some .llm)) := by
  unfold OpenRouter.Client.callLater
  dsimp only
  split
  · exact .pure (streamTold_single _)
  · rw [if_neg (by simp)]
    refine .bind .any fun found _ => ?_
    split
    · exact .pure (streamTold_failing _)
    · split
      · exact .pure (streamTold_single _)
      · split
        · exact .bind .any fun _ _ => .pure (streamTold_streamOf _)
        · exact .pure (streamTold_failing _)

/-- An answer of a hosted model that ends, if it fails, in a fault that can be told. -/
def answerTold : Answer → Prop
  | .pieces s => streamTold s
  | _ => True

theorem sendAnswer_lasting {textOf : Json → Result (Option Json)}
    [∀ chunk, Tellable (textOf chunk)] {answer : Answer} (ha : answerTold answer) :
    Lasting (sendAnswer textOf answer) := by
  unfold sendAnswer
  split
  · infer_instance
  · next s =>
    unfold sendStream
    refine .andThen inferInstance fun _ => ?_
    split
    · next fault hfault => exact .throw (ha fault hfault)
    · infer_instance
  · infer_instance
  · infer_instance
  · infer_instance

theorem Shared.speak_lasting {hosted : Hosted} {client : Client}
    (hv : Shared (.hosted hosted client options)) (textOf : Json → Result (Option Json))
    [∀ chunk, Tellable (textOf chunk)] (a : Fields) :
    Lasting (Voice.speak (.hosted hosted client options) textOf a) := by
  cases hv with
  | openai c _ _ _ =>
    have hcall : Lasting (c.callLater a .llm) := by
      unfold OpenAI.Client.callLater
      infer_instance
    have hgives : Gives answerTold (c.callLater a .llm) :=
      .bind .any fun _ _ => .bind .any fun _ _ => .pure trivial
    exact hgives.lasting fun _ => sendAnswer_lasting
  | azure c _ _ =>
    have hcall : Lasting (c.callLater a .llm) := by
      unfold Azure.Client.callLater Azure.ask
      infer_instance
    have hgives : Gives answerTold (c.callLater a .llm) :=
      .bind .any fun _ _ => .bind .any fun _ _ => .pure trivial
    exact hgives.lasting fun _ => sendAnswer_lasting
  | openrouter c _ =>
    have hgives : Gives answerTold
        (do return Answer.pieces (← c.callLater a (some .llm))) :=
      .bind (openrouter_told c a) fun _ hs => .pure hs
    exact hgives.lasting fun _ => sendAnswer_lasting

/-! ## The attempts -/

/-- A model that a socket has: one that both channels have, or one that cannot be listened to. -/
def Spoken (voice : Voice) : Prop :=
  Shared voice ∨ ∃ client options, voice = .mute client options

theorem ofName?_socket {name : String} (hn : name ∉ sharedProviders) :
    Hosted.ofName? .socket name = none := by
  simp only [sharedProviders, mem_cons, not_mem_nil, or_false, not_or] at hn
  unfold Hosted.ofName?
  split <;> simp_all

theorem start_spoken {provider : String} {model : Json} {voice : Voice}
    (hv : (start .socket provider model options).on h = (.ok voice, k)) : Spoken voice := by
  by_cases hp : provider ∈ sharedProviders
  · rw [start_channel hp] at hv
    exact .inl (start_shared hp hv)
  · unfold start at hv
    split at hv
    · exact absurd (by decide) hp
    · obtain ⟨client, _, _, hv⟩ := bind_eq_ok hv
      obtain ⟨made, _, _, hv⟩ := bind_eq_ok hv
      replace hv := pure_eq_ok hv
      exact .inr ⟨client, made, hv.1.symm⟩
    · rw [ofName?_socket hp] at hv
      obtain ⟨⟨_, name⟩, _, _, hv⟩ := bind_eq_ok hv
      obtain ⟨made, _, _, hv⟩ := bind_eq_ok hv
      replace hv := pure_eq_ok hv
      exact .inl (hv.1 ▸ .google name made)

def Done (last : List Event) (h : Host) (outcome : Result Unit × Host) : Prop :=
  outcome.1 = .ok () ∧ Said last h outcome.2

theorem Utters.done [hs : Utters last step] (hh : h.line.faults = [])
    (hok : (step.on h).1 = .ok ()) : Done last h (step.on h) := by
  have hsaid := hs.said h hh
  rw [hok, ending_ok] at hsaid
  exact ⟨hok, hsaid⟩

theorem lastWord_done (v : Json) (hh : h.line.faults = []) :
    Done [.close] h ((do Run.send v; finish .socket : Run Unit).on h) := by
  refine Utters.done hh ?_
  rw [on_bind_ok (on_send hh v)]
  exact congrArg Prod.fst (on_close _)

theorem Done.afterFault {fault : Fault} (hstep : step.on h = (.error fault, k))
    (hexit : isExit fault = false) (hsaid : Said [] h k)
    (hrescue : Done last k ((rescue fault).on k)) : Done last h ((orElse step rescue).on h) := by
  rw [on_orElse_error hstep hexit]
  exact ⟨hrescue.1, hsaid.trans hrescue.2⟩

theorem Done.rescued (before : List Event) {fault : Fault} [hs : Utters before step]
    [hl : Lasting step] (hh : h.line.faults = []) (hstep : step.on h = (.error fault, k))
    (hrescue : k.line.faults = [] → Done last k ((rescue fault).on k)) :
    Done last h ((orElse step rescue).on h) := by
  have hsaid := hs.said h hh
  rw [hstep, ending_error] at hsaid
  exact .afterFault hstep ((hl.tellable h).not_exit fault (congrArg Prod.fst hstep)) hsaid
    (hrescue hsaid.1)

theorem Done.kept (hd : Done last h (step.on h)) : Done last h ((orElse step rescue).on h) := by
  have hstep : step.on h = (.ok (), (step.on h).2) := Prod.ext hd.1 rfl
  rw [on_orElse_ok hstep]
  exact ⟨rfl, hd.2⟩

theorem Done.orElse [Utters last step] [Lasting step] (hh : h.line.faults = [])
    (hrescue : ∀ fault k, k.line.faults = [] → Done last k ((rescue fault).on k)) :
    Done last h ((orElse step rescue).on h) := by
  rcases hstep : step.on h with ⟨fault | _, k⟩
  · exact .rescued last hh hstep (hrescue fault k)
  · exact .kept (Utters.done hh (congrArg Prod.fst hstep))

/-! ## The models one by one -/

variable (settings : Fields) (r : Request) {p : Prepared} {h : Host}

theorem answer_hosted {hosted : Hosted} {client : Client}
    (hv : Shared (.hosted hosted client options)) (hp : p.voice = .hosted hosted client options)
    (hh : h.line.faults = []) : Done [.close] h ((answer .socket settings r p).on h) := by
  have hlasting := hv.speak_lasting Voice.choiceText p.arguments
  have hutters := Utters.ofParallel (hv.speak Voice.choiceText p.arguments p.arguments)
  rw [answer_eq]
  refine .kept ?_
  unfold firstTry
  rw [hp]
  exact .orElse hh fun fault k hk => lastWord_done _ hk

theorem answer_unnamed (hutters : Utters [] (p.voice.speak choiceText p.arguments))
    (hlasting : Lasting (p.voice.speak choiceText p.arguments))
    (hfirst : firstTry .socket p = do
      p.voice.speak choiceText p.arguments
      finish .socket)
    (hsecond : secondTry settings r p = do
      let model ← lift (Config.model settings (.str r.provider) (.ofText? r.model))
      let _ ← lift (model.toJson.item "model"))
    (hh : h.line.faults = []) : Done [.close] h ((answer .socket settings r p).on h) := by
  rw [answer_eq, hfirst]
  refine .orElse hh fun fault k hk => ?_
  unfold afterFault
  split
  · rw [hsecond]
    -- Whatever the settings say of the model, they do not say `model`.
    obtain ⟨again, m, hagain⟩ : ∃ again m, (do
        let model ← lift (Config.model settings (.str r.provider) (.ofText? r.model))
        let _ ← lift (model.toJson.item "model") : Run Unit).on k = (.error again, m) := by
      rw [on_lift_bind]
      cases Config.model settings (.str r.provider) (.ofText? r.model) with
      | error fault => exact ⟨_, _, rfl⟩
      | ok model => exact ⟨_, _, on_lift_bind _ _ k⟩
    exact .rescued [] hk hagain fun hm => lastWord_done _ hm
  · exact lastWord_done _ hk

/-! ## What chunks say -/

/-- What is sent of some chunks, and the fault that ends it, if one does. -/
def utterance (textOf : Json → Result (Option Json)) (broken : Option String) :
    List Json → Stream
  | [] => ⟨[], broken.map .service⟩
  | chunk :: rest =>
      match textOf chunk with
      | .error fault => .failing fault
      | .ok said =>
          let more := utterance textOf broken rest
          ⟨said.toList ++ more.pieces, more.fault⟩

def ended (s : Stream) : Result Unit :=
  match s.fault with
  | none => .ok ()
  | some fault => .error fault

/-- A host on which pieces have been sent on a line without faults, and some calls been made. -/
structure Sent (pieces : List Json) (calls : List Call) (h k : Host) : Prop where
  faults : k.line.faults = []
  events : k.line.events = h.line.events ++ pieces.map .send
  calls : k.calls = h.calls ++ calls

namespace Sent

variable {pieces more : List Json} {calls others : List Call} {h k m : Host}

theorem none (hh : h.line.faults = []) : Sent [] [] h h :=
  ⟨hh, by simp, by simp⟩

theorem trans (hk : Sent pieces calls h k) (hm : Sent more others k m) :
    Sent (pieces ++ more) (calls ++ others) h m :=
  ⟨hm.faults, by rw [hm.events, hk.events, map_append, append_assoc],
    by rw [hm.calls, hk.calls, append_assoc]⟩

theorem send (hh : h.line.faults = []) (v : Json) :
    ∃ k, (Run.send v).on h = (.ok (), k) ∧ Sent [v] [] h k ∧ k.model = h.model ∧
      k.library = h.library :=
  ⟨_, on_send hh v, ⟨hh, rfl, by simp⟩, rfl, rfl⟩

end Sent

theorem sendChunks_sent (textOf : Json → Result (Option Json)) (broken : Option String)
    (chunks : List Json) (hh : h.line.faults = []) :
    ∃ k, (sendChunks textOf ⟨chunks, broken⟩).on h = (ended (utterance textOf broken chunks), k) ∧
      Sent (utterance textOf broken chunks).pieces [] h k ∧ k.model = h.model ∧
      k.library = h.library := by
  induction chunks generalizing h with
  | nil =>
    refine ⟨h, (on_bind_ok (on_pure () h) _).trans ?_, .none hh, rfl, rfl⟩
    cases broken with
    | none => exact on_pure () h
    | some text => exact on_throw _ h
  | cons chunk rest ih =>
    simp only [sendChunks, sendEach, bind_assoc] at ih ⊢
    rw [on_lift_bind, utterance]
    cases textOf chunk with
    | error fault => exact ⟨h, rfl, .none hh, rfl, rfl⟩
    | ok said =>
      rw [next_ok]
      cases said with
      | none => exact ih hh
      | some text =>
        obtain ⟨m, hm, htext, hmodel, hlibrary⟩ := Sent.send hh text
        obtain ⟨k, hk, hsent, hrest⟩ := ih htext.faults
        rw [hmodel, hlibrary] at hrest
        rw [bind_assoc]
        exact ⟨k, (on_bind_ok hm _).trans hk, htext.trans hsent, hrest⟩

/-! ## Models that are asked by a service of their own -/

def replyTo (library : Library) (chunksOf : Json → Option String → Result Chunks)
    (textOf : Json → Result (Option Json)) (replies : List Json) : Stream :=
  match nextReply replies >>= fun reply => chunksOf reply (library.breaks reply) with
  | .error fault => .failing fault
  | .ok chunks => utterance textOf chunks.broken chunks.pieces

def listen (name : String) (chunksOf : Json → Option String → Result Chunks)
    (textOf : Json → Result (Option Json)) (arguments : Fields) : Run Unit := do
  let reply ← Service.ask name arguments
  let broken ← Service.broken reply
  sendChunks textOf (← lift (chunksOf reply broken))

theorem listen_on (name : String) (chunksOf : Json → Option String → Result Chunks)
    (textOf : Json → Result (Option Json)) (arguments : Fields) (hh : h.line.faults = []) :
    ∃ k, (listen name chunksOf textOf arguments).on h =
        (ended (replyTo h.library chunksOf textOf h.model), k) ∧
      Sent (replyTo h.library chunksOf textOf h.model).pieces [⟨name, .obj arguments⟩] h k ∧
      k.model = h.model.tail ∧ k.library = h.library := by
  rw [listen, on_bind, ask_nextReply, replyTo]
  cases nextReply h.model with
  | error fault => exact ⟨_, rfl, ⟨hh, (append_nil _).symm, rfl⟩, rfl, rfl⟩
  | ok reply =>
    rw [next_ok, on_bind_ok (on_broken reply _), on_lift_bind, ok_bind]
    cases chunksOf reply (h.library.breaks reply) with
    | error fault => exact ⟨_, rfl, ⟨hh, (append_nil _).symm, rfl⟩, rfl, rfl⟩
    | ok chunks =>
      rw [next_ok]
      obtain ⟨k, hk, hsent, hrest⟩ := sendChunks_sent textOf chunks.broken chunks.pieces
        (h := { h with
          model := h.model.tail, calls := h.calls ++ [⟨name, .obj arguments⟩] }) hh
      exact ⟨k, hk, ⟨hsent.faults, hsent.events, by rw [hsent.calls, append_nil]⟩, hrest⟩

def ownChunks (reply : Json) (broken : Option String) : Result Chunks :=
  (Completion.ofReply true reply broken).lateChunks

/-- How the next reply of a model on the own machine ends. -/
def heard (library : Library) (replies : List Json) : Result Unit :=
  ended (replyTo library ownChunks ollamaText replies)

theorem speak_ollama_on (options : Fields) (textOf : Json → Result (Option Json))
    (arguments : Fields) (hh : h.line.faults = []) :
    ∃ k, (speak (.ollama options) textOf arguments).on h = (heard h.library h.model, k) ∧
      k.model = h.model.tail ∧ k.library = h.library := by
  obtain ⟨k, hk, -, hrest⟩ := listen_on "ollama" ownChunks ollamaText arguments hh
  exact ⟨k, hk, hrest⟩

instance (options : Fields) (a : Fields) : Utters [] (speak (.ollama options) textOf a) := by
  unfold speak
  infer_instance

instance (options : Fields) (a : Fields) : Lasting (speak (.ollama options) textOf a) := by
  unfold speak
  infer_instance

theorem afterFault_ollama (hp : p.voice = .ollama options) (fault : Fault)
    (hh : h.line.faults = []) :
    Done (if isTooLong fault && (heard h.library h.model).isOk then [] else [.close]) h
      ((afterFault .socket settings r p fault).on h) := by
  obtain ⟨voice, arguments, short⟩ := p
  obtain rfl : voice = .ollama options := hp
  unfold afterFault
  cases isTooLong fault with
  | false => exact lastWord_done _ hh
  | true =>
    have hsecond : secondTry settings r ⟨.ollama options, arguments, short⟩ =
        speak (.ollama options) choiceText
          (Fields.merge [("prompt", .str (short ++ " /no_think"))] options) := rfl
    obtain ⟨k, hspeak, _⟩ := speak_ollama_on options choiceText
      (Fields.merge [("prompt", .str (short ++ " /no_think"))] options) hh
    rw [if_pos rfl, hsecond]
    cases hheard : heard h.library h.model with
    | ok _ =>
      rw [hheard] at hspeak
      have hdone : Done [] h (_, k) := hspeak ▸ Utters.done hh (congrArg Prod.fst hspeak)
      exact .kept (hspeak ▸ hdone)
    | error again =>
      rw [hheard] at hspeak
      exact .rescued [] hh hspeak fun hk => lastWord_done _ hk

/-- Whether a model on the own machine refuses a prompt as too long and answers the short one. -/
def Voice.answersShort (voice : Voice) (library : Library) (replies : List Json) : Bool :=
  match voice with
  | .ollama _ =>
      match heard library replies with
      | .error fault => isTooLong fault && (heard library replies.tail).isOk
      | .ok _ => false
  | _ => false

theorem answer_ollama (hp : p.voice = .ollama options) (hh : h.line.faults = []) :
    Done (if p.voice.answersShort h.library h.model then [] else [.close]) h
      ((answer .socket settings r p).on h) := by
  have hfirst : firstTry .socket p =
      speak (.ollama options) choiceText p.arguments >>= fun _ => finish .socket := by
    unfold firstTry
    rw [hp]
  obtain ⟨k, hspeak, hmodel, hlibrary⟩ := speak_ollama_on options choiceText p.arguments hh
  rw [answer_eq, hfirst, hp, answersShort]
  cases hheard : heard h.library h.model with
  | ok _ =>
    rw [hheard] at hspeak
    have hdone : Done [.close] h ((speak (.ollama options) choiceText p.arguments >>=
        fun _ => finish .socket).on h) := by
      refine Utters.done hh ?_
      rw [on_bind_ok hspeak]
      exact congrArg Prod.fst (on_close k)
    exact .kept hdone
  | error fault =>
    rw [hheard] at hspeak
    refine .rescued [.close] hh (on_bind_error hspeak _) fun hk => ?_
    have hafter := afterFault_ollama settings r hp fault hk
    rwa [hmodel, hlibrary] at hafter

theorem answer_done (hv : Spoken p.voice) (hh : h.line.faults = []) :
    Done (if p.voice.answersShort h.library h.model then [] else [.close]) h
      ((answer .socket settings r p).on h) := by
  obtain ⟨voice, arguments, short⟩ := p
  have hgoogle (name : Json) (options : Fields) :
      Utters [] (speak (.google name options) choiceText arguments) ∧
        Lasting (speak (.google name options) choiceText arguments) := by
    unfold speak
    exact ⟨inferInstance, inferInstance⟩
  rcases hv with hshared | ⟨client, options, hmute⟩
  · cases hshared with
    | ollama options => exact answer_ollama settings r rfl hh
    | google name options =>
      exact answer_unnamed settings r (hgoogle name options).1 (hgoogle name options).2 rfl rfl hh
    | openai c options hplain himages =>
      exact answer_hosted settings r (.openai c options hplain himages) rfl hh
    | azure c options hplain => exact answer_hosted settings r (.azure c options hplain) rfl hh
    | openrouter c options => exact answer_hosted settings r (.openrouter c options) rfl hh
  · obtain rfl : voice = .mute client options := hmute
    exact answer_unnamed settings r (.throw _) (.throw rfl) rfl rfl hh

/-! ## A whole conversation -/

theorem prepare_spoken {settings : Fields} {r : Request}
    (hp : (prepare .socket settings r).on h = (.ok (.ok p), k)) : Spoken p.voice := by
  rw [prepare, on_bind_ok (on_library h)] at hp
  obtain ⟨found, _, _, hp⟩ := bind_eq_ok hp
  split at hp
  · simp at hp
  · split at hp
    · simp at hp
    · split at hp
      · simp at hp
      · obtain ⟨_, _, _, hp⟩ := bind_eq_ok hp
        obtain ⟨_, _, _, hp⟩ := bind_eq_ok hp
        obtain ⟨voice, _, hvoice, hp⟩ := bind_eq_ok hp
        obtain ⟨_, _, _, hp⟩ := bind_eq_ok hp
        rw [on_pure, Prod.mk.injEq, Except.ok.injEq, Except.ok.injEq] at hp
        exact hp.1 ▸ start_spoken hvoice

def leavesOpen : Result (Except Refusal Prepared) × Host → Bool
  | (.ok (.ok p), k) => p.voice.answersShort k.library k.model
  | _ => false

/-- Whether a socket is left open by what was received over it. -/
def leftOpen (settings : Fields) (received : Json) (h : Host) : Bool :=
  match Request.read received with
  | .ok r => leavesOpen ((prepare .socket settings r).on h)
  | .error _ => false

theorem leavesOpen_line (settings : Fields) (r : Request) (line : Connection) (h : Host) :
    leavesOpen ((prepare .socket settings r).on (h.withLine line)) =
      leavesOpen ((prepare .socket settings r).on h) := by
  rw [Ignores.on_put line h]
  rcases (prepare .socket settings r).on h with ⟨_ | _ | p, k⟩ <;> rfl

theorem tell_done (fault : Fault) (hh : h.line.faults = []) :
    Done [.close] h ((tell fault).on h) :=
  .kept (lastWord_done _ hh)

theorem reply_done (settings : Fields) (r : Request) (hh : h.line.faults = []) :
    Done (if leavesOpen ((prepare .socket settings r).on h) then [] else [.close]) h
      ((orElse (prepare .socket settings r >>= reply settings r) tell).on h) := by
  have hsaid := (Utters.offline (prepare .socket settings r)).said h hh
  have htold : Tellable ((prepare .socket settings r).on h).1 := Lasting.tellable h
  rcases hp : (prepare .socket settings r).on h with ⟨fault | refusal | p, k⟩ <;>
    rw [hp, ending_nil] at hsaid
  · rw [hp] at htold
    exact .afterFault (on_bind_error hp _) (htold.not_exit fault rfl) hsaid
      (tell_done fault hsaid.1)
  · have hdone := lastWord_done (.str refusal.text) hsaid.1
    refine .kept ?_
    rw [on_bind_ok hp]
    exact ⟨hdone.1, hsaid.trans hdone.2⟩
  · have hdone := answer_done settings r (prepare_spoken hp) hsaid.1
    refine .kept ?_
    rw [on_bind_ok hp]
    exact ⟨hdone.1, hsaid.trans hdone.2⟩

theorem socket_done (settings : Fields) (received : Json) (hh : h.line.faults = []) :
    Done (if leftOpen settings received h then [] else [.close])
      (h.withLine (h.line.add .accept)) ((socket settings (some received)).on h) := by
  have hh' : (h.withLine (h.line.add .accept)).line.faults = [] := hh
  unfold leftOpen
  cases hread : Request.read received with
  | ok r =>
    have hdone := reply_done settings r hh'
    rwa [leavesOpen_line, ← socket_on hread] at hdone
  | error fault =>
    have htold : Tellable (Request.read received) := inferInstance
    have hconverse (k : Host) : (converse settings received).on k = (.error fault, k) := by
      rw [converse, hread, on_lift_bind, next_error]
    rw [socket, on_bind_ok (on_accept h)]
    exact .afterFault (hconverse _) (htold.not_exit fault hread) ⟨hh', [], by simp [Host.withLine]⟩
      (tell_done fault hh')

/-- On a line where no attempt fails a socket is accepted, some pieces are sent, and it is closed as
the last thing, unless it is left open. -/
theorem socket_closed_once (settings : Fields) (received : Json) (h : Host)
    (hline : h.line.faults = []) :
    ((socket settings (some received)).on h).1 = .ok () ∧
      ∃ pieces : List Json, ((socket settings (some received)).on h).2.line.events =
        h.line.events ++ .accept :: pieces.map .send ++
          (if leftOpen settings received h then [] else [.close]) := by
  obtain ⟨hok, _, pieces, hpieces⟩ := socket_done settings received hline
  refine ⟨hok, pieces, ?_⟩
  rw [hpieces]
  simp [Host.withLine, Connection.add]

/-! ## A model on the own machine -/

def ownModel : Fields :=
  let options := ["temperature", "top_p", "num_ctx"].map fun name => (name, Json.int 1)
  Fields.set "providers"
    (.obj [("ollama", .obj [(Config.clientField, Config.ClientClass.ollama.mark),
      ("default_model", .str "m"), ("models", .obj [("m", .obj [("options", .obj options)])])])])
    oneModel

def askingOwn : Json :=
  .obj [("repo_url", .str "https://github.com/o/r"), ("provider", .str "ollama"),
    ("messages", .arr [.obj [("role", .str "user"), ("content", .str "hi")]])]

def tooLongReply : Json :=
  .obj [("raise", .str "token limit reached")]

/-- Refused twice, the socket is closed after an apology. -/
theorem socket_closed_once_refused_twice :
    leftOpen ownModel askingOwn { indexedHost with model := [tooLongReply, tooLongReply] } = false ∧
    ∃ pieces : List Json, ((socket ownModel (some askingOwn)).on
      { indexedHost with model := [tooLongReply, tooLongReply] }).2.line.events =
        .accept :: pieces.map .send ++ [.close] := by
  have hopen : leftOpen ownModel askingOwn
      { indexedHost with model := [tooLongReply, tooLongReply] } = false := by decide +kernel
  obtain ⟨_, pieces, hpieces⟩ := socket_closed_once ownModel askingOwn
    { indexedHost with model := [tooLongReply, tooLongReply] } rfl
  rw [hopen] at hpieces
  exact ⟨hopen, pieces, hpieces⟩

/-- After a refusal the short prompt is answered, and the socket stays open. -/
theorem open_after_short_answer :
    ((socket ownModel (some askingOwn)).on { indexedHost with
        model := [tooLongReply, .arr [.obj [("response", .str "hello")]]] }).2.line.events.map
      eventText = ["accept", "send hello"] := by
  decide +kernel

end RepoWiki.Chat
