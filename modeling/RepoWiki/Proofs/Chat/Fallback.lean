import RepoWiki.Proofs.Chat.Closing
/-
The second call of a model on a stream.

A model may refuse a prompt as too long, and then a short prompt is to be tried. A hosted model's
fault has been told by then, so nobody hears of it. The usual model is looked up in the settings
anew, under a name that they do not have. Only a model on the own machine is asked again
(`stream_by_first_call`), and a stream gives what it says to the short prompt.
-/

namespace RepoWiki

open Chat.Voice List Provider Run

/-! ## A service that tells its faults as texts -/

namespace Provider
namespace Bedrock

variable (arguments : Fields)

instance (c : Client) : Detached (c.call arguments (some .llm)) := by
  unfold Client.call invoke
  refine @Ignores.ite _ _ _ _ _ _ _ inferInstance (@Ignores.ite _ _ _ _ _ _ _ inferInstance ?_)
  refine .andThen inferInstance fun maker => .andThen inferInstance fun request => ?_
  refine @Ignores.orElse _ _ _ _ _ (.andThen inferInstance fun reply => ?_) inferInstance
  split <;> infer_instance

instance (model : Json) : Tellable (makerName model) := by
  unfold makerName
  split
  · split <;> infer_instance
  · infer_instance

instance (message : Json) : Tellable (messageOf message) := by
  unfold messageOf
  infer_instance

instance (maker : Maker) (prompt messages : Json) : Tellable (request maker prompt messages) := by
  unfold request
  split <;> infer_instance

instance (octets : List Nat) : Tellable (Json.readOctets octets) := by
  unfold Json.readOctets
  split
  · infer_instance
  · next cs _ =>
    refine ⟨fun fault hfault => ?_⟩
    cases hread : Json.readChars cs with
    | ok v =>
      rw [hread] at hfault
      cases hfault
    | error problem =>
      rw [hread] at hfault
      rw [← Except.error.inj hfault, Json.ReadFault.toFault]
      split <;> rfl

instance (maker : Maker) (answer : Json) : Tellable (textOf maker answer) := by
  unfold textOf firstField
  split
  · infer_instance
  · infer_instance
  · infer_instance
  · infer_instance
  · split <;> infer_instance

instance (c : Client) : Lasting (c.call arguments (some .llm)) := by
  unfold Client.call invoke
  refine @Lasting.ite _ _ _ _ _ inferInstance (@Lasting.ite _ _ _ _ _ inferInstance ?_)
  refine .andThen inferInstance fun maker => .andThen inferInstance fun request => ?_
  refine .orElse (.andThen inferInstance fun reply => ?_) fun _ _ => inferInstance
  split <;> infer_instance

end Bedrock
end Provider

variable {chunksOf : Json → Result (List Json)} {client : Client}
  {textOf : Json → Result (Option Json)}

namespace Chat

variable {h : Host} {settings options : Fields} {r : Request} {hosted : Hosted}

/-! ## What chunks end with -/

section

variable {textOf : Json → Result (Option Json)}
  {chunksOf : Json → Option String → Result Chunks} {fault : Fault}

theorem utterance_fault {chunks : List Json}
    (h : (utterance textOf none chunks).fault = some fault) :
    ∃ chunk, textOf chunk = .error fault := by
  induction chunks with
  | nil => cases h
  | cons chunk rest ih =>
    rw [utterance] at h
    split at h
    · next problem hproblem => exact ⟨chunk, Option.some.inj h ▸ hproblem⟩
    · exact ih h

/-- A refusal comes before anything is said, unless replies break off. -/
theorem replyTo_refused (htext : ∀ chunk fault, textOf chunk = .error fault → Passing fault)
    (hchunks : ∀ reply chunks, chunksOf reply none = .ok chunks → chunks.broken = none)
    {library : Library} (hwhole : ∀ reply, library.breaks reply = none) {replies : List Json}
    (hfault : (replyTo library chunksOf textOf replies).fault = some fault)
    (hlong : isTooLong fault = true) : (replyTo library chunksOf textOf replies).pieces = [] := by
  rw [replyTo] at hfault ⊢
  split at hfault
  · rfl
  · next chunks hfound =>
    obtain ⟨reply, -, hreply⟩ := except_bind_eq_ok.1 hfound
    rw [hwhole] at hreply
    rw [hchunks reply chunks hreply] at hfault
    obtain ⟨chunk, hchunk⟩ := utterance_fault hfault
    rw [(htext chunk fault hchunk).2] at hlong
    cases hlong

end

/-! ## What has been prepared for a stream -/

variable {k : Host}

theorem prompts_eq_ok {count : String → Nat} {documents : Index.Retrieval} {last : Message}
    {made : String × String} {g : Host}
    (hp : (prompts count .stream settings r documents last).on g = (.ok made, k)) :
    ∃ setting context,
      made = (Prompt.whole setting context none (Question.ofMessages r.messages last).text,
        Prompt.short setting (Question.ofMessages r.messages last).text) := by
  unfold prompts at hp
  dsimp only at hp
  -- With or without a context, the same follows.
  split at hp <;>
  · obtain ⟨context, _, _, hp⟩ := bind_eq_ok hp
    obtain ⟨language, _, _, hp⟩ := bind_eq_ok hp
    obtain ⟨file, _, _, hp⟩ := bind_eq_ok hp
    obtain ⟨notes, _, hnotes, hp⟩ := bind_eq_ok hp
    rw [notesFor, on_pure, Prod.mk.injEq, Except.ok.injEq] at hnotes
    rw [on_pure, Prod.mk.injEq, Except.ok.injEq, ← hnotes.1] at hp
    exact ⟨_, _, hp.1.symm⟩

theorem prepare_asks {p : Prepared} (hp : (prepare .stream settings r).on h = (.ok (.ok p), k)) :
    ∃ last setting context options g g', r.last? = some last ∧
      (start .stream r.provider (.ofText? r.model) options).on g = (.ok p.voice, g') ∧
      (p.voice.arguments (Prompt.whole setting context none
        (Question.ofMessages r.messages last).text)).on g' = (.ok p.arguments, k) ∧
      p.short = Prompt.short setting (Question.ofMessages r.messages last).text := by
  rw [prepare, on_bind_ok (on_library h)] at hp
  obtain ⟨found, _, _, hp⟩ := bind_eq_ok hp
  split at hp
  · simp at hp
  · split at hp
    · simp at hp
    · next last hlast =>
      split at hp
      · simp at hp
      · obtain ⟨made, _, hmade, hp⟩ := bind_eq_ok hp
        obtain ⟨setting, context, rfl⟩ := prompts_eq_ok hmade
        obtain ⟨model, _, _, hp⟩ := bind_eq_ok hp
        obtain ⟨voice, g, hvoice, hp⟩ := bind_eq_ok hp
        obtain ⟨arguments, _, harguments, hp⟩ := bind_eq_ok hp
        rw [on_pure, Prod.mk.injEq, Except.ok.injEq, Except.ok.injEq] at hp
        obtain ⟨rfl, rfl⟩ := hp
        exact ⟨last, setting, context, _, _, g, hlast, hvoice, harguments, rfl⟩

theorem prepare_eq_ok {p : Prepared} (hp : (prepare .stream settings r).on h = (.ok (.ok p), k)) :
    ∃ setting context text options g g',
      (start .stream r.provider (.ofText? r.model) options).on g = (.ok p.voice, g') ∧
      (p.voice.arguments (Prompt.whole setting context none text)).on g' = (.ok p.arguments, k) ∧
      p.short = Prompt.short setting text := by
  obtain ⟨last, setting, context, options, g, g', -, hasked⟩ := prepare_asks hp
  exact ⟨setting, context, _, options, g, g', hasked⟩

/-- A hosted model that can be reached: one that both channels have, or the one that only a stream
has. -/
def Reached (hosted : Hosted) (client : Client) (options : Fields) : Prop :=
  Shared (.hosted hosted client options) ∨ ∃ c, client = .bedrock c

theorem Reached.utters (hr : Reached hosted client options) (textOf : Json → Result (Option Json))
    (a : Fields) : Utters [] (speak (.hosted hosted client options) textOf a) := by
  rcases hr with hshared | ⟨c, rfl⟩
  · exact .ofParallel (hshared.speak textOf a a)
  · have hcall : Offline ((Client.bedrock c).callLater (.obj a) .llm) := by
      show Offline (do return Answer.value (← c.call a (some .llm)))
      infer_instance
    exact .andThen inferInstance fun answer => .ofParallel
      (inferInstance : Parallel AnyFault [] (sendAnswer textOf answer) _)

theorem Reached.lasting (hr : Reached hosted client options)
    (textOf : Json → Result (Option Json)) [∀ chunk, Tellable (textOf chunk)] (a : Fields) :
    Lasting (speak (.hosted hosted client options) textOf a) := by
  rcases hr with hshared | ⟨c, rfl⟩
  · exact hshared.speak_lasting textOf a
  · have hgives : Gives answerTold (do return Answer.value (← c.call a (some .llm))) :=
      .bind .any fun _ _ => .pure trivial
    exact hgives.lasting fun _ => sendAnswer_lasting

/-- The models of a stream. -/
inductive Opened (provider : String) : Voice → Prop where
  | ollama (own : provider = "ollama") (options : Fields) : Opened provider (.ollama options)
  | hosted {hosted : Hosted} {client : Client} {options : Fields}
      (named : Hosted.ofName? .stream provider = some hosted)
      (reached : Reached hosted client options) : Opened provider (.hosted hosted client options)
  | google (other : provider ≠ "ollama") (unnamed : Hosted.ofName? .stream provider = none)
      (name : Json) (options : Fields) : Opened provider (.google name options)

theorem ofName?_stream {name : String} (h : Hosted.ofName? .stream name = some hosted) :
    name ∈ sharedProviders ∨ name = "bedrock" := by
  unfold Hosted.ofName? at h
  split at h
  · exact .inl (by decide)
  · exact .inl (by decide)
  · exact .inl (by decide)
  · exact .inr rfl
  · cases h

theorem start_opened {provider : String} {model : Json} {voice : Voice}
    (hv : (start .stream provider model options).on h = (.ok voice, k)) :
    Opened provider voice := by
  have hopened := hv
  unfold start at hv
  split at hv
  · obtain ⟨made, _, _, hv⟩ := bind_eq_ok hv
    replace hv := pure_eq_ok hv
    exact hv.1 ▸ .ollama rfl made
  · next hchannel => cases hchannel
  · next hown _ =>
    split at hv
    · next hosted hnamed =>
      obtain ⟨client, made, _, hclient, _, rfl⟩ := hosted_eq_ok hv
      refine .hosted hnamed ?_
      rcases ofName?_stream hnamed with hshared | rfl
      · exact .inl (start_shared hshared hopened)
      · obtain rfl := Option.some.inj hnamed
        obtain ⟨c, _, _, hclient⟩ := bind_eq_ok hclient
        replace hclient := pure_eq_ok hclient
        exact .inr ⟨c, hclient.1.symm⟩
    · next hnone =>
      obtain ⟨⟨_, name⟩, _, _, hv⟩ := bind_eq_ok hv
      obtain ⟨made, _, _, hv⟩ := bind_eq_ok hv
      replace hv := pure_eq_ok hv
      exact hv.1 ▸ .google (fun h => hown h) hnone name made

/-! ## The attempts on a stream -/

section

variable {settings : Fields} {r : Request} {p : Prepared} {h k m : Host} {fault : Fault}

variable {options : Fields} {outcome : Result Unit}

/-- A stream gives some pieces, and these calls have been made by then. -/
def Streams (settings : Fields) (r : Request) (h : Host) (pieces : List Json)
    (calls : List Call) : Prop :=
  ∃ k, (stream settings r).on h = (.ok pieces, k) ∧ k.calls = calls

def said (k m : Host) : List Json :=
  m.line.sent.drop k.line.sent.length

theorem streams_of_answer {pieces : List Json}
    (hp : (prepare .stream settings r).on h = (.ok (.ok p), k))
    (ha : (answer .stream settings r p).on k = (.ok (), m))
    (hevents : m.line.events = k.line.events ++ pieces.map .send) :
    Streams settings r h pieces m.calls := by
  have hattempt := on_attempt (prepare .stream settings r) h
  rw [hp] at hattempt
  refine ⟨m, ?_, rfl⟩
  rw [stream, on_bind_ok hattempt]
  dsimp only
  rw [on_get_bind, on_bind_ok ha, on_get_bind, on_pure, sent_drop hevents]

theorem answer_of_ok (hfirst : (firstTry .stream p).on k = (.ok (), m)) :
    (answer .stream settings r p).on k = (.ok (), m) :=
  on_orElse_ok hfirst _

theorem answer_of_fault (hfirst : (firstTry .stream p).on k = (.error fault, m))
    (hexit : isExit fault = false) :
    (answer .stream settings r p).on k = (afterFault .stream settings r p fault).on m :=
  on_orElse_error hfirst hexit _

theorem lastWord_sent (hh : h.line.faults = []) (v : Json) :
    ∃ k, (do Run.send v; finish .stream : Run Unit).on h = (.ok (), k) ∧ Sent [v] [] h k := by
  obtain ⟨k, hk, hsent, _⟩ := Sent.send hh v
  exact ⟨k, (on_bind_ok hk _).trans (on_pure () k), hsent⟩

def Hosted.told (hosted : Hosted) : Result Unit → List Json
  | .ok _ => []
  | .error fault => [.str (hosted.problem false fault)]

theorem answer_hosted_once (hr : Reached hosted client options)
    (hv : p.voice = .hosted hosted client options) (hline : k.line.faults = [])
    (hfirst : (p.voice.speak choiceText p.arguments).on k = (outcome, m)) :
    ∃ m', (answer .stream settings r p).on k = (.ok (), m') ∧ m'.calls = m.calls ∧
      m'.line.events = k.line.events ++ (said k m ++ hosted.told outcome).map .send := by
  have hutters := hr.utters choiceText p.arguments
  have hlasting := hr.lasting choiceText p.arguments
  rw [← hv] at hutters hlasting
  obtain ⟨hfaults, pieces, hpieces⟩ := hutters.said k hline
  rw [hfirst, ending_nil, append_nil] at hpieces
  rw [hfirst] at hfaults
  rw [said, sent_drop hpieces]
  have htry : firstTry .stream p =
      orElse (p.voice.speak choiceText p.arguments >>= fun _ => finish .stream)
        (fun fault =>
          Run.send (.str (hosted.problem false fault)) >>= fun _ => finish .stream) := by
    rw [firstTry, hv]
  cases outcome with
  | ok _ =>
    refine ⟨m, answer_of_ok ?_, rfl, by simpa [Hosted.told] using hpieces⟩
    rw [htry]
    exact on_orElse_ok ((on_bind_ok hfirst _).trans (on_pure () m)) _
  | error fault =>
    have hexit := (hlasting.tellable k).not_exit fault (congrArg Prod.fst hfirst)
    obtain ⟨m', hm', hsent⟩ := lastWord_sent hfaults (.str (hosted.problem false fault))
    refine ⟨m', answer_of_ok ?_, by simpa using hsent.calls, ?_⟩
    · rw [htry, on_orElse_error (on_bind_error hfirst _) hexit, hm']
    · rw [hsent.events, hpieces, map_append, append_assoc]
      rfl

/-! ## A second call -/

theorem afterFault_other (hm : m.line.faults = []) (hshort : isTooLong fault = false) :
    ∃ m', (afterFault .stream settings r p fault).on m = (.ok (), m') ∧
      Sent [.str ("\nError: " ++ fault.message)] [] m m' := by
  rw [afterFault, hshort, if_neg Bool.false_ne_true]
  exact lastWord_sent hm _

theorem afterFault_google {name : Json} (hv : p.voice = .google name options)
    (hm : m.line.faults = []) (hlong : isTooLong fault = true) :
    ∃ m', (afterFault .stream settings r p fault).on m = (.ok (), m') ∧
      Sent [.str apology] [] m m' := by
  obtain ⟨again, hagain, hexit⟩ : ∃ again, (secondTry settings r p).on m = (.error again, m) ∧
      isExit again = false := by
    rw [secondTry, hv]
    dsimp only
    rw [on_lift_bind]
    have htold : Tellable (Config.model settings (.str r.provider) (.ofText? r.model)) :=
      inferInstance
    cases hmodel : Config.model settings (.str r.provider) (.ofText? r.model) with
    | error problem => exact ⟨problem, rfl, htold.not_exit problem hmodel⟩
    | ok model => exact ⟨_, on_lift_bind _ _ m, rfl⟩
  obtain ⟨m', hm', hsent⟩ := lastWord_sent hm (.str apology)
  refine ⟨m', ?_, hsent⟩
  rw [afterFault, hlong, if_pos rfl, on_orElse_error hagain hexit, hm']

/-- What a model on the own machine says in its next reply, and an apology if that cannot be heard
to its end. -/
def ownWords (library : Library) (replies : List Json) : List Json :=
  let reply := replyTo library ownChunks ollamaText replies
  reply.pieces ++ (if reply.fault.isSome then [.str apology] else [])

def ownArguments (prompt : String) (options : Fields) : Fields :=
  Fields.merge [("prompt", .str (prompt ++ " /no_think"))] options

theorem afterFault_own (hv : p.voice = .ollama options) (hm : m.line.faults = [])
    (hlong : isTooLong fault = true) :
    ∃ m', (afterFault .stream settings r p fault).on m = (.ok (), m') ∧
      Sent (ownWords m.library m.model) [⟨"ollama", .obj (ownArguments p.short options)⟩] m m' := by
  obtain ⟨k, hk, hsent, _⟩ := listen_on "ollama" ownChunks ollamaText
    (ownArguments p.short options) hm
  have hsecond : secondTry settings r p =
      listen "ollama" ownChunks ollamaText (ownArguments p.short options) := by
    rw [secondTry, hv]
    rfl
  rw [afterFault, hlong, if_pos rfl, hsecond, ownWords]
  cases hfault : (replyTo m.library ownChunks ollamaText m.model).fault with
  | none =>
    rw [ended, hfault] at hk
    exact ⟨k, on_orElse_ok hk _, by simpa using hsent⟩
  | some again =>
    rw [ended, hfault] at hk
    have hlasting : Lasting (speak (.ollama options) choiceText
      (ownArguments p.short options)) := inferInstance
    have hexit := (hlasting.tellable m).not_exit again (congrArg Prod.fst hk)
    obtain ⟨m', hm', hword⟩ := lastWord_sent hsent.faults (.str apology)
    exact ⟨m', (on_orElse_error hk hexit _).trans hm', hsent.trans hword⟩

theorem first_listened {name : String} {arguments : Fields}
    {chunksOf : Json → Option String → Result Chunks}
    (htext : ∀ chunk fault, textOf chunk = .error fault → Passing fault)
    (hchunks : ∀ reply chunks, chunksOf reply none = .ok chunks → chunks.broken = none)
    (hline : k.line.faults = [])
    (hfirst : (listen name chunksOf textOf arguments).on k = (outcome, m)) :
    Sent (said k m) [⟨name, .obj arguments⟩] k m ∧
      ∀ fault, outcome = .error fault → isTooLong fault = true →
        (∀ reply, k.library.breaks reply = none) → said k m = [] := by
  obtain ⟨k', hk', hsent, _⟩ := listen_on name chunksOf textOf arguments hline
  rw [hk', Prod.mk.injEq] at hfirst
  obtain ⟨rfl, rfl⟩ := hfirst
  rw [said, sent_drop hsent.events]
  refine ⟨hsent, fun fault hfault hlong hwhole => ?_⟩
  rw [ended] at hfault
  split at hfault
  · cases hfault
  · next hsome =>
    rw [Except.error.inj hfault] at hsome
    exact replyTo_refused htext hchunks hwhole hsome hlong

/-- A stream by a model that is listened to without a word about its faults: what is said at first,
and then what became of the fault. -/
theorem streams_listened {name : String}
    {chunksOf : Json → Option String → Result Chunks}
    (hp : (prepare .stream settings r).on h = (.ok (.ok p), k)) (hline : k.line.faults = [])
    (hspeak : p.voice.speak choiceText p.arguments = listen name chunksOf textOf p.arguments)
    (htry : firstTry .stream p =
      p.voice.speak choiceText p.arguments >>= fun _ => finish .stream)
    (hlasting : Lasting (p.voice.speak choiceText p.arguments))
    (htext : ∀ chunk fault, textOf chunk = .error fault → Passing fault)
    (hchunks : ∀ reply chunks, chunksOf reply none = .ok chunks → chunks.broken = none)
    (hfirst : (p.voice.speak choiceText p.arguments).on k = (outcome, m)) :
    match outcome with
    | .ok _ => Streams settings r h (said k m) m.calls
    | .error fault =>
        if isTooLong fault = false then
          Streams settings r h (said k m ++ [.str ("\nError: " ++ fault.message)]) m.calls
        else
          m.line.faults = [] ∧ m.calls = k.calls ++ [⟨name, .obj p.arguments⟩] ∧
            ((∀ reply, k.library.breaks reply = none) → said k m = []) ∧
            ∀ more others, (∃ m', (afterFault .stream settings r p fault).on m = (.ok (), m') ∧
                Sent more others m m') →
              Streams settings r h (said k m ++ more) (m.calls ++ others) := by
  obtain ⟨hsent, hnothing⟩ := first_listened htext hchunks hline (hspeak ▸ hfirst)
  cases outcome with
  | ok _ =>
    have hdone : (firstTry .stream p).on k = (.ok (), m) := by
      rw [htry, on_bind_ok hfirst]
      exact on_pure () m
    exact streams_of_answer hp (answer_of_ok hdone) hsent.events
  | error fault =>
    have hexit := (hlasting.tellable k).not_exit fault (congrArg Prod.fst hfirst)
    have hfailed : (firstTry .stream p).on k = (.error fault, m) := by
      rw [htry, on_bind_error hfirst]
    have hafter : ∀ more others,
        (∃ m', (afterFault .stream settings r p fault).on m = (.ok (), m') ∧
          Sent more others m m') →
        Streams settings r h (said k m ++ more) (m.calls ++ others) := by
      rintro more others ⟨m', hm', hmore⟩
      have hanswer := (@answer_of_fault settings r p k m fault hfailed hexit).trans hm'
      exact hmore.calls ▸ streams_of_answer hp hanswer (hsent.trans hmore).events
    dsimp only
    split
    · next hshort =>
      exact append_nil m.calls ▸ hafter _ _ (afterFault_other hsent.faults hshort)
    · next hlong =>
      exact ⟨hsent.faults, hsent.calls, hnothing fault rfl (Bool.not_eq_false _ ▸ hlong), hafter⟩

/-- What a stream gives, by the model and by how its first call ends. A fault of a hosted model is
told and is the end of it. Otherwise a prompt may have been refused as too long: then a model on
the own machine is asked once more, with what was found about the question replaced by a note, and
the stream is what it says to that; the usual model is not asked again, and an apology is all that
the stream gives. What has been said before a refusal stays; there is nothing of that kind unless
replies break off. -/
theorem stream_by_first_call {outcome : Result Unit}
    (hp : (prepare .stream settings r).on h = (.ok (.ok p), k)) (hline : h.line.faults = [])
    (hfirst : (p.voice.speak choiceText p.arguments).on k = (outcome, m)) :
    match Hosted.ofName? .stream r.provider, outcome with
    | some hosted, outcome => Streams settings r h (said k m ++ hosted.told outcome) m.calls
    | none, .ok _ => Streams settings r h (said k m) m.calls
    | none, .error fault =>
        if isTooLong fault = false then
          Streams settings r h (said k m ++ [.str ("\nError: " ++ fault.message)]) m.calls
        else
          ((∀ reply, k.library.breaks reply = none) → said k m = []) ∧
          if r.provider = "ollama" then
            ∃ options setting context text,
              p.arguments = ownArguments (Prompt.whole setting context none text) options ∧
              m.calls = k.calls ++ [⟨"ollama", .obj p.arguments⟩] ∧
              Streams settings r h (said k m ++ ownWords m.library m.model)
                (m.calls ++ [⟨"ollama", .obj (ownArguments (Prompt.short setting text) options)⟩])
          else Streams settings r h (said k m ++ [.str apology]) m.calls := by
  obtain ⟨setting, context, text, options, g, g', hvoice, harguments, hshort⟩ := prepare_eq_ok hp
  have hquiet := Ignores.line_eq (prepare .stream settings r) h
  rw [hp] at hquiet
  have hk : k.line.faults = [] := by rw [← hline]; exact congrArg Connection.faults hquiet
  -- The cases are on the model; `p` stays as it is, since the first call speaks of it.
  obtain ⟨voice, hv⟩ : ∃ voice, p.voice = voice := ⟨_, rfl⟩
  have hopened : Opened r.provider voice := hv ▸ start_opened hvoice
  cases hopened with
  | hosted hnamed hreached =>
    rw [hnamed]
    obtain ⟨m', hanswer, hcalls, hevents⟩ := answer_hosted_once hreached hv hk hfirst
    exact hcalls ▸ streams_of_answer hp hanswer hevents
  | ollama hown made =>
    have hnone : Hosted.ofName? .stream r.provider = none := by rw [hown]; rfl
    have hmade : p.arguments = ownArguments (Prompt.whole setting context none text) made := by
      rw [hv, arguments, Run.on_pure, Prod.mk.injEq, Except.ok.injEq] at harguments
      exact harguments.1.symm
    have hlistened := streams_listened hp hk (by rw [hv]; rfl) (by rw [firstTry, hv])
      (by rw [hv]; infer_instance) (fun _ _ => ollamaText_passing)
      (fun _ _ => broken_of_lateChunks) hfirst
    rw [hnone]
    cases outcome with
    | ok _ => exact hlistened
    | error fault =>
      dsimp only at hlistened ⊢
      cases hlong : isTooLong fault with
      | false => simpa only [hlong, if_true] using hlistened
      | true =>
        rw [hlong, if_neg (by simp)] at hlistened
        obtain ⟨hm, hcalls, hnothing, hafter⟩ := hlistened
        rw [if_neg (by simp), if_pos hown]
        exact ⟨hnothing, made, setting, context, text, hmade, hcalls,
          hshort ▸ hafter _ _ (afterFault_own hv hm hlong)⟩
  | google hother hunnamed name made =>
    have hlistened := streams_listened hp hk (by rw [hv]; rfl) (by rw [firstTry, hv])
      (by rw [hv]; unfold speak; infer_instance) (fun _ _ => fieldText_passing)
      (fun _ _ => broken_of_ofElements) hfirst
    rw [hunnamed]
    cases outcome with
    | ok _ => exact hlistened
    | error fault =>
      dsimp only at hlistened ⊢
      cases hlong : isTooLong fault with
      | false => simpa only [hlong, if_true] using hlistened
      | true =>
        rw [hlong, if_neg (by simp)] at hlistened
        obtain ⟨hm, -, hnothing, hafter⟩ := hlistened
        rw [if_neg (by simp), if_neg hother]
        exact ⟨hnothing, List.append_nil m.calls ▸ hafter _ _ (afterFault_google hv hm hlong)⟩

end

/-! ## Models that refuse a prompt -/

/-- Whether a model was prepared that refuses its first prompt as too long and says nothing. -/
def refusedAt : Result (Except Refusal Prepared) × Host → Bool
  | (.ok (.ok p), k) =>
      match (p.voice.speak choiceText p.arguments).on k with
      | (.error fault, m) => isTooLong fault && (said k m).isEmpty
      | _ => false
  | _ => false

theorem of_refusedAt {found : Result (Except Refusal Prepared) × Host}
    (h : refusedAt found = true) :
    ∃ p k fault m, found = (.ok (.ok p), k) ∧
      (p.voice.speak choiceText p.arguments).on k = (.error fault, m) ∧
      isTooLong fault = true ∧ said k m = [] := by
  rcases found with ⟨_ | _ | p, k⟩
  · cases h
  · cases h
  · rw [refusedAt] at h
    split at h
    · next fault m hspeak =>
      rw [Bool.and_eq_true, List.isEmpty_iff] at h
      exact ⟨p, k, fault, m, rfl, hspeak, h⟩
    · cases h

def askedOf (provider : String) : Request :=
  { asked "https://github.com/o/r" with provider }

/-- A host where the model refuses a prompt and has an answer to the next one. -/
def refusing (reply : Json) : Host :=
  { indexedHost with
    model := [tooLongReply, .arr [reply]]
    env := [("OPENAI_API_KEY", "k")] }

def ownReply : Json :=
  .obj [("response", .str "hello")]

/-- The model on the own machine is asked again, and a stream is what it says to that. -/
theorem stream_by_first_call_own_model :
    ∃ p k fault m, (prepare .stream ownModel (askedOf "ollama")).on (refusing ownReply) =
        (.ok (.ok p), k) ∧
      (p.voice.speak choiceText p.arguments).on k = (.error fault, m) ∧
      isTooLong fault = true ∧
      ∃ options setting context text,
        p.arguments = ownArguments (Prompt.whole setting context none text) options ∧
        m.calls = k.calls ++ [⟨"ollama", .obj p.arguments⟩] ∧
        Streams ownModel (askedOf "ollama") (refusing ownReply) (ownWords m.library m.model)
          (m.calls ++ [⟨"ollama", .obj (ownArguments (Prompt.short setting text) options)⟩]) := by
  have hrefused : refusedAt ((prepare .stream ownModel (askedOf "ollama")).on
      (refusing ownReply)) = true := by decide +kernel
  obtain ⟨p, k, fault, m, hp, hfirst, hlong, hnothing⟩ := of_refusedAt hrefused
  have hcall := stream_by_first_call hp rfl hfirst
  have hnone : Hosted.ofName? .stream (askedOf "ollama").provider = none := rfl
  rw [hnone] at hcall
  dsimp only at hcall
  have hown : (askedOf "ollama").provider = "ollama" := rfl
  rw [hlong, if_neg (by simp), if_pos hown, hnothing] at hcall
  exact ⟨p, k, fault, m, hp, hfirst, hlong, hcall.2⟩

def hostedModel : Fields :=
  Fields.set "providers"
    (.obj [("openai", .obj [(Config.clientField, Config.ClientClass.openai.mark),
      ("default_model", .str "m"), ("models", .obj [("m", .obj [("temperature", .int 1)])])])])
    oneModel

def heardAndCalled (settings : Fields) (r : Request) (service : String) (h : Host) :
    Option String × Nat :=
  (soleText? ((stream settings r).on h).1,
    (((stream settings r).on h).2.calls.filter fun c => c.name = service).length)

/-- Neither the usual model nor a hosted one is asked again after it has refused a prompt. -/
theorem refused_once :
    heardAndCalled oneModel (askedOf "google") "google"
        (refusing (.obj [("text", .str "hello")])) = (some apology, 1) ∧
      heardAndCalled hostedModel (askedOf "openai") "chat"
        (refusing (.obj [("choices", .arr [.obj [("delta", .obj [("content", .str "hello")])]])])) =
        (some (Hosted.openai.problem false (.service "token limit reached")), 1) := by
  decide +kernel

end Chat
end RepoWiki
