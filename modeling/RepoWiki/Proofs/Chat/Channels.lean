import RepoWiki.Proofs.Chat.Answering
import RepoWiki.Proofs.Chat.Notes
import RepoWiki.Proofs.Offline
/-
The socket in place of the stream.

Both channels look up the same things for a question. Then the socket asks for the notes on the
project, and the stream does not. `socket_in_place_of_stream` says what that is worth: where the
stream gives pieces, the socket sends the same pieces and closes, unless the notes fail; then it
sends that fault alone and closes.
-/

namespace RepoWiki.Chat

open List Run

variable {settings : Fields} {r : Request} {h g : Host} {f : Findings} {channel : Channel}
  {p : Prepared} {pieces : List Json} {count : String → Nat}

/-! ## What is looked up -/

/-- What both channels have looked up before the socket asks for the notes. -/
structure Findings where
  last : Message
  context : String
  language : String
  file : String

/-- What is found for a request on the way from one host to another. -/
structure Found (settings : Fields) (r : Request) (h : Host) (f : Findings) (g : Host) : Prop where
  last : r.last? = some f.last
  fromUser : f.last.isFromUser = true
  language : languageName settings r.language = .ok f.language
  steps : ∃ documents g₀ g₁, (retrieval settings r).on h = (.ok documents, g₀) ∧
    (contextFor documents r (Question.ofMessages r.messages f.last).text).on g₀ =
      (.ok f.context, g₁) ∧
    (fileFor r).on g₁ = (.ok f.file, g)

theorem Found.withLine (hf : Found settings r h f g) (line : Connection) :
    Found settings r (h.withLine line) f (g.withLine line) := by
  obtain ⟨documents, g₀, g₁, hdocuments, hcontext, hfile⟩ := hf.steps
  refine ⟨hf.last, hf.fromUser, hf.language, documents, g₀.withLine line, g₁.withLine line,
    ?_, ?_, ?_⟩
  · rw [Ignores.on_put, hdocuments]
  · rw [Ignores.on_put, hcontext]
  · rw [Ignores.on_put, hfile]

theorem Found.line_eq (hf : Found settings r h f g) : g.line = h.line := by
  obtain ⟨documents, g₀, g₁, hdocuments, hcontext, hfile⟩ := hf.steps
  have h₀ := Ignores.line_eq (retrieval settings r) h
  have h₁ := Ignores.line_eq
    (contextFor documents r (Question.ofMessages r.messages f.last).text) g₀
  have h₂ := Ignores.line_eq (fileFor r) g₁
  rw [hdocuments] at h₀
  rw [hcontext] at h₁
  rw [hfile] at h₂
  rw [h₂, h₁, h₀]

def Findings.prompts (f : Findings) (channel : Channel) (r : Request) (notes : Option String) :
    String × String :=
  let q := Question.ofMessages r.messages f.last
  let subject : Instruction.Subject := ⟨r.kindText, r.address, r.repositoryName, f.language⟩
  let setting : Prompt.Setting := {
    instruction := Instruction.text channel subject q.round
    exchanges := exchanges r.messages
    fileName := r.file.getD ""
    file := f.file }
  (Prompt.whole setting f.context notes q.text, Prompt.short setting q.text)

def equip (channel : Channel) (settings : Fields) (r : Request) (prompts : String × String) :
    Run (Except Refusal Prepared) := do
  let model ← lift (Config.model settings (.str r.provider) (.ofText? r.model))
  let voice ← Voice.start channel r.provider (.ofText? r.model) model.options
  return .ok ⟨voice, ← voice.arguments prompts.1, prompts.2⟩

theorem prompts_on {documents : Index.Retrieval} {g₀ g₁ : Host}
    (hshort : tooLong count channel f.last = false)
    (hlanguage : languageName settings r.language = .ok f.language)
    (hcontext : (contextFor documents r (Question.ofMessages r.messages f.last).text).on g₀ =
      (.ok f.context, g₁)) (hfile : (fileFor r).on g₁ = (.ok f.file, g)) :
    (prompts count channel settings r documents f.last).on g₀ =
      (do return f.prompts channel r (← notesFor channel r)).on g := by
  unfold prompts
  dsimp only
  rw [hshort]
  simp only [Bool.false_eq_true, if_false]
  rw [on_bind_ok hcontext, hlanguage, on_lift_bind, next_ok, on_bind_ok hfile]
  rfl

theorem prepare_on (hf : Found settings r h f g)
    (hshort : tooLong (r.counter h.library) channel f.last = false) :
    (prepare channel settings r).on h =
      (notesFor channel r >>= fun notes =>
        equip channel settings r (f.prompts channel r notes)).on g := by
  obtain ⟨documents, g₀, g₁, hdocuments, hcontext, hfile⟩ := hf.steps
  have hattempt := on_attempt (retrieval settings r) h
  rw [hdocuments] at hattempt
  rw [prepare, on_bind_ok (on_library h), on_bind_ok hattempt]
  dsimp only
  rw [hf.last]
  dsimp only
  rw [hf.fromUser]
  simp only [Bool.not_true, Bool.false_eq_true, if_false]
  rw [on_bind, prompts_on hshort hf.language hcontext hfile, ← on_bind, bind_assoc]
  rfl

variable {k : Host}

theorem found_of_prompts {documents : Index.Retrieval} {last : Message} {made : String × String}
    {g₀ : Host} (hshort : tooLong count channel last = false)
    (hp : (prompts count channel settings r documents last).on g₀ = (.ok made, k)) :
    ∃ context language file g₁ g, languageName settings r.language = .ok language ∧
      (contextFor documents r (Question.ofMessages r.messages last).text).on g₀ =
        (.ok context, g₁) ∧
      (fileFor r).on g₁ = (.ok file, g) := by
  unfold prompts at hp
  dsimp only at hp
  rw [hshort] at hp
  simp only [Bool.false_eq_true, if_false] at hp
  obtain ⟨context, g₁, hcontext, hp⟩ := bind_eq_ok hp
  obtain ⟨language, m, hlanguage, hp⟩ := bind_eq_ok hp
  obtain ⟨file, g, hfile, _⟩ := bind_eq_ok hp
  rw [on_lift, Prod.mk.injEq] at hlanguage
  rw [← hlanguage.2] at hfile
  exact ⟨context, language, file, g₁, g, hlanguage.1, hcontext, hfile⟩

theorem found_of_prepare
    (hshort : ∀ last, r.last? = some last → tooLong (r.counter h.library) .stream last = false)
    (hp : (prepare .stream settings r).on h = (.ok (.ok p), k)) :
    ∃ f g, Found settings r h f g := by
  -- Each step that finds nothing ends in a refusal, which `hp` rules out.
  rw [prepare, on_bind_ok (on_library h)] at hp
  obtain ⟨found, g₀, hfound, hp⟩ := bind_eq_ok hp
  rw [on_attempt, Prod.mk.injEq, Except.ok.injEq] at hfound
  obtain ⟨rfl, rfl⟩ := hfound
  rcases hdocuments : (retrieval settings r).on h with ⟨fault | documents, g₀⟩
  · rw [hdocuments] at hp
    dsimp only at hp
    replace hp := pure_eq_ok hp
    cases hp.1
  · rw [hdocuments] at hp
    dsimp only at hp
    split at hp
    · replace hp := pure_eq_ok hp
      cases hp.1
    · next last hlast =>
      cases huser : last.isFromUser with
      | false =>
        rw [huser] at hp
        simp only [Bool.not_false, if_true] at hp
        replace hp := pure_eq_ok hp
        cases hp.1
      | true =>
        rw [huser] at hp
        simp only [Bool.not_true, Bool.false_eq_true, if_false] at hp
        obtain ⟨made, m, hmade, _⟩ := bind_eq_ok hp
        obtain ⟨context, language, file, g₁, g, hlanguage, hcontext, hfile⟩ :=
          found_of_prompts (hshort last hlast) hmade
        exact ⟨⟨last, context, language, file⟩, g, hlast, huser, hlanguage, documents, g₀, g₁,
          hdocuments, hcontext, hfile⟩

def lookUp (settings : Fields) (r : Request) : Run Unit := do
  let documents ← retrieval settings r
  if let some last := r.last? then
    let _ ← contextFor documents r (Question.ofMessages r.messages last).text
    let _ ← fileFor r

theorem Found.lookUp_on (hf : Found settings r h f g) : (lookUp settings r).on h = (.ok (), g) := by
  obtain ⟨documents, g₀, g₁, hdocuments, hcontext, hfile⟩ := hf.steps
  rw [lookUp, on_bind_ok hdocuments, hf.last]
  dsimp only
  rw [on_bind_ok hcontext, on_bind_ok hfile, on_pure]

/-! ## Parting ways -/

theorem equip_apart {prompts : String × String} (hprovider : r.provider ∈ sharedProviders)
    (hp : (equip .stream settings r prompts).on g = (.ok (.ok p), k)) (others : String × String)
    (part : Connection × FileTree × String) :
    Shared p.voice ∧ k.line = g.line ∧ ∃ q, q.voice = p.voice ∧
      (equip .socket settings r others).on (g.apart part) = (.ok (.ok q), k.apart part) := by
  obtain ⟨model, _, hmodel, hp⟩ := bind_eq_ok hp
  obtain ⟨voice, m, hvoice, hp⟩ := bind_eq_ok hp
  obtain ⟨arguments, _, harguments, hp⟩ := bind_eq_ok hp
  rw [on_lift, Prod.mk.injEq] at hmodel
  obtain ⟨hmodel, rfl⟩ := hmodel
  have hshared := start_shared hprovider hvoice
  obtain ⟨_, hsame⟩ := hshared.arguments prompts.1 m
  rw [hsame, Prod.mk.injEq] at harguments
  obtain ⟨_, rfl⟩ := harguments
  rw [on_pure, Prod.mk.injEq, Except.ok.injEq, Except.ok.injEq] at hp
  obtain ⟨rfl, rfl⟩ := hp
  obtain ⟨asked, hasked⟩ := hshared.arguments others.1 (m.apart part)
  have hline := Ignores.line_eq
    (Voice.start .stream r.provider (.ofText? r.model) model.options) g
  rw [hvoice] at hline
  refine ⟨hshared, hline, ⟨voice, asked, others.2⟩, rfl, ?_⟩
  have hopened : (Voice.start .socket r.provider (.ofText? r.model) model.options).on
      (g.apart part) = (.ok voice, m.apart part) := by
    rw [start_channel hprovider, Ignores.on_put, hvoice]
  rw [equip, hmodel, on_lift_bind, next_ok, on_bind_ok hopened, on_bind_ok hasked, on_pure]

theorem stream_eq_ok (hs : (stream settings r).on h = (.ok pieces, k)) :
    ∃ p m, (prepare .stream settings r).on h = (.ok (.ok p), m) ∧
      (answer .stream settings r p).on m = (.ok (), k) ∧
      pieces = k.line.sent.drop m.line.sent.length := by
  obtain ⟨found, m, hfound, hs⟩ := bind_eq_ok hs
  rw [on_attempt, Prod.mk.injEq, Except.ok.injEq] at hfound
  rcases hp : (prepare .stream settings r).on h with ⟨fault | refusal | p, m'⟩ <;>
    rw [hp] at hfound <;> obtain ⟨rfl, rfl⟩ := hfound <;> dsimp only at hs
  · rw [on_throw, Prod.mk.injEq] at hs
    cases hs.1
  · rw [on_throw, Prod.mk.injEq] at hs
    cases hs.1
  · rw [on_get_bind] at hs
    obtain ⟨_, k', hanswer, hs⟩ := bind_eq_ok hs
    rw [on_get_bind, on_pure, Prod.mk.injEq, Except.ok.injEq] at hs
    obtain ⟨rfl, rfl⟩ := hs
    exact ⟨p, m', rfl, hanswer, rfl⟩

def reply (settings : Fields) (r : Request) : Except Refusal Prepared → Run Unit
  | .error refusal => do
      send (.str refusal.text)
      close
  | .ok p => answer .socket settings r p

def tell (fault : Fault) : Run Unit :=
  orElse
    (do
      send (.str ("Error: " ++ fault.message))
      close)
    fun _ => pure ()

theorem socket_on {v : Json} (hread : Request.read v = .ok r) (h : Host) :
    (socket settings (some v)).on h =
      (orElse (prepare .socket settings r >>= reply settings r) tell).on
        (h.withLine (h.line.add .accept)) := by
  rw [socket, on_bind_ok (on_accept h)]
  refine on_orElse_congr ?_ tell
  rw [converse, hread, on_lift_bind, next_ok, on_bind, on_bind]
  rfl

theorem tell_on (hl : h.line.faults = []) (fault : Fault) :
    (tell fault).on h = (.ok (), { h with
      line := (h.line.begin.add (.send (.str ("Error: " ++ fault.message)))).add .close }) := by
  refine on_orElse_ok ?_ _
  rw [on_bind_ok (on_send hl _), on_close]

/-! ## The same pieces -/

theorem tooLong_eq_false {m : Message} :
    tooLong count channel m = false ↔ count m.content ≤ channel.tokenLimit := by
  simp [tooLong]

theorem socket_of_notes_error {v : Json} {g' : Host} {fault : Fault}
    (hread : Request.read v = .ok r) (hline : h.line.faults = [])
    (hfound : Found settings r h f g)
    (hshort : tooLong (r.counter h.library) .socket f.last = false)
    (hnotes : (notesFor .socket r).on g = (.error fault, g')) :
    ((socket settings (some v)).on h).1 = .ok () ∧
    ((socket settings (some v)).on h).2.line.events = h.line.events ++ .accept ::
      [.send (.str ("Error: " ++ fault.message))] ++ [.close] := by
  have hexit : isExit fault = false :=
    ((inferInstance : Lasting (notesFor .socket r)).tellable g).not_exit fault (by rw [hnotes])
  generalize hl : h.line.add .accept = line
  have hfaults : line.faults = [] := by rw [← hl]; exact hline
  have hasked : (notesFor .socket r).on (g.withLine line) = (.error fault, g'.withLine line) := by
    rw [Ignores.on_put, hnotes]
  have hprepare : (prepare .socket settings r).on (h.withLine line) =
      (.error fault, g'.withLine line) := by
    rw [prepare_on (hfound.withLine line) hshort, on_bind_error hasked]
  rw [socket_on hread, hl, on_orElse_error (on_bind_error hprepare _) hexit, tell_on hfaults]
  refine ⟨rfl, ?_⟩
  simp [Host.withLine, Connection.add, Connection.begin, ← hl]

theorem socket_of_notes_ok {v : Json} {g' m : Host} {notes : Option String}
    (hread : Request.read v = .ok r) (hline : h.line.faults = [])
    (hfound : Found settings r h f g)
    (hshort : tooLong (r.counter h.library) .socket f.last = false)
    (hprovider : r.provider ∈ sharedProviders)
    (hnotes : (notesFor .socket r).on g = (.ok notes, g'))
    (hequip : (equip .stream settings r (f.prompts .stream r none)).on g = (.ok (.ok p), m))
    (hfirst : p.voice.answered m = true)
    (hanswer : (answer .stream settings r p).on m = (.ok (), k)) :
    ((socket settings (some v)).on h).1 = .ok () ∧
    ∃ pieces : List Json, k.line.events = m.line.events ++ pieces.map .send ∧
      ((socket settings (some v)).on h).2.line.events = h.line.events ++ .accept ::
        pieces.map .send ++ [.close] := by
  generalize hl : h.line.add .accept = line
  have hfaults : line.faults = [] := by rw [← hl]; exact hline
  -- The notes have left the hosts apart in line, files and console only.
  obtain ⟨tree, printed, hbeside⟩ := (notesFor_beside g .socket r).after g (.refl g)
  rw [hnotes] at hbeside
  have hasked : (notesFor .socket r).on (g.withLine line) =
      (.ok notes, g.apart (line, tree, printed)) := by
    rw [Ignores.on_put, hnotes, hbeside]
    rfl
  obtain ⟨hshared, hm, q, hq, hopened⟩ := equip_apart hprovider hequip
    (f.prompts .socket r notes) (line, tree, printed)
  have hprepare : (prepare .socket settings r).on (h.withLine line) =
      (.ok (.ok q), m.apart (line, tree, printed)) := by
    rw [prepare_on (hfound.withLine line) hshort, on_bind_ok hasked, hopened]
  have halike : Alike m (m.apart (line, tree, printed)) :=
    ⟨rfl, rfl, rfl, rfl, by rw [hm, hfound.line_eq]; exact hline, hfaults⟩
  obtain ⟨result, m', k', hsame, hanswered, hmatched⟩ :=
    answer_matched settings r hq hshared halike hfirst
  rw [hanswer, Prod.mk.injEq] at hsame
  obtain ⟨rfl, rfl⟩ := hsame
  obtain ⟨pieces, hpieces, hevents⟩ := hmatched.sent
  have hreply : (prepare .socket settings r >>= reply settings r).on (h.withLine line) =
      (.ok (), k') := by
    rw [on_bind_ok hprepare, reply, hanswered]
  rw [socket_on hread, hl, on_orElse_ok hreply]
  refine ⟨rfl, pieces, hpieces, ?_⟩
  rw [hevents, ending_ok, ← hl]
  simp [Host.apart, Connection.add]

theorem sent_drop {line before : Connection} (h : line.events = before.events ++ pieces.map .send) :
    line.sent.drop before.sent.length = pieces := by
  have hsent : line.sent = before.sent ++ pieces := by
    rw [Connection.sent, h, filterMap_append, filterMap_map]
    exact congrArg (before.sent ++ ·) (filterMap_some)
  rw [hsent, drop_left]

/-- What a socket sends in place of the pieces of the stream, by the outcome of the notes. -/
def inPlaceOf (pieces : List Json) : Result (Option String) → List Event
  | .ok _ => pieces.map .send
  | .error fault => [.send (.str ("Error: " ++ fault.message))]

theorem inPlaceOf_of_isOk {notes : Result (Option String)} (h : notes.isOk = true) :
    inPlaceOf pieces notes = pieces.map .send := by
  cases notes with
  | ok _ => rfl
  | error _ => cases h

/-- Where the stream gives pieces, a socket sends the same pieces and closes, unless the notes on
the project fail, which only the socket asks for; then it sends that fault and closes. -/
theorem socket_in_place_of_stream {settings : Fields} {v : Json} {r : Request} {h : Host}
    {pieces : List Json} (hread : Request.read v = .ok r)
    (hprovider : r.provider ∈ sharedProviders)
    (hshort : ∀ m, r.last? = some m → r.counter h.library m.content ≤ 8000)
    (hline : h.line.faults = [])
    (hfirst : ∀ p k, (prepare .stream settings r).on h = (.ok (.ok p), k) →
      p.voice.answered k = true)
    (hstream : ((stream settings r).on h).1 = .ok pieces) :
    ((socket settings (some v)).on h).1 = .ok () ∧
    ((socket settings (some v)).on h).2.line.events = h.line.events ++ .accept ::
      inPlaceOf pieces (r.notesName >>= fun name =>
        ((showNotes name).on ((lookUp settings r).on h).2).1) ++ [.close] := by
  have hstreamed : (stream settings r).on h = (.ok pieces, ((stream settings r).on h).2) := by
    rw [← hstream]
  obtain ⟨p, m, hp, hanswer, hpieces⟩ := stream_eq_ok hstreamed
  have hstreamShort : ∀ last, r.last? = some last →
      tooLong (r.counter h.library) .stream last = false :=
    fun last hlast => tooLong_eq_false.2 (hshort last hlast)
  obtain ⟨f, g, hfound⟩ := found_of_prepare hstreamShort hp
  have hsocketShort : tooLong (r.counter h.library) .socket f.last = false :=
    tooLong_eq_false.2 (Nat.le_trans (hshort f.last hfound.last) (by decide))
  have hequip := hp
  rw [prepare_on hfound (hstreamShort f.last hfound.last), notesFor, Run.on_pure_bind] at hequip
  -- Both channels come to `g`; only there the socket does more, and asks for the notes.
  rw [hfound.lookUp_on, ← notesFor_socket_on]
  rcases hnotes : (notesFor .socket r).on g with ⟨fault | notes, g'⟩
  · exact socket_of_notes_error hread hline hfound hsocketShort hnotes
  · obtain ⟨hdone, sent, hsent, hevents⟩ := socket_of_notes_ok hread hline hfound hsocketShort
      hprovider hnotes hequip (hfirst p m hp) hanswer
    rw [hpieces, sent_drop hsent]
    exact ⟨hdone, hevents⟩

/-! ## A known host and another one -/

def oneModel : Fields :=
  let google := Config.ClientClass.google.mark
  let options := ["temperature", "top_p", "top_k"].map fun name => (name, Json.int 1)
  [("providers", .obj [("google", .obj [(Config.clientField, google), ("default_model", .str "m"),
      ("models", .obj [("m", .obj options)])])]),
    ("embedder", .obj [(Config.clientField, google), ("model_kwargs", .obj [])]),
    ("retriever", .obj []),
    ("lang_config", .obj [("default", .str "en"), ("supported_languages", .obj [])])]

/-- A host with a copy and an index of the repository `o/r`, where the model will say one word. -/
def indexedHost : Host where
  tree := { cwd := "/", entries := [
    ([".adalflow"], .directory none),
    ([".adalflow", "repos"], .directory none),
    ([".adalflow", "repos", "o_r"], .directory none),
    ([".adalflow", "repos", "o_r", "x"], .directory none),
    ([".adalflow", "databases"], .directory none),
    ([".adalflow", "databases", "o_r.pkl"],
      .file (.value (.arr [Document.pack { text := "x", vector := .value (.arr [.int 1]) }]))
        none)] }
  model := [.arr [.obj [("text", .str "hello")]]]

def asking (address : String) : Json :=
  .obj [("repo_url", .str address),
    ("messages", .arr [.obj [("role", .str "user"), ("content", .str "hi")]])]

def asked (address : String) : Request where
  address
  messages := [⟨"user", "hi"⟩]
  file := none
  token := none
  kind := some "github"
  provider := "google"
  model := none
  language := some "en"
  excludedDirs := none
  excludedFiles := none
  includedDirs := none
  includedFiles := none

theorem read_asking (address : String) : Request.read (asking address) = .ok (asked address) := rfl

def soleText? : Result (List Json) → Option String
  | .ok [.str s] => some s
  | _ => none

theorem eq_ok_of_soleText {found : Result (List Json)} {text : String}
    (h : soleText? found = some text) : found = .ok [.str text] := by
  unfold soleText? at h
  split at h
  · rw [Option.some.inj h]
  · cases h

def willAnswer : Result (Except Refusal Prepared) × Host → Bool
  | (.ok (.ok p), k) => p.voice.answered k
  | _ => true

theorem socket_in_place_of_stream_known_host :
    ((stream oneModel (asked "https://github.com/o/r")).on indexedHost).1 = .ok [.str "hello"] ∧
    ((socket oneModel (some (asking "https://github.com/o/r"))).on indexedHost).2.line.events =
      [.accept, .send (.str "hello"), .close] := by
  generalize hr : asked "https://github.com/o/r" = r
  have hstream : ((stream oneModel r).on indexedHost).1 = .ok [.str "hello"] := by
    rw [← hr]
    exact eq_ok_of_soleText (by decide +kernel)
  have hready : willAnswer ((prepare .stream oneModel r).on indexedHost) = true := by
    rw [← hr]
    decide +kernel
  have hnoted : (r.notesName >>= fun name =>
      ((showNotes name).on ((lookUp oneModel r).on indexedHost).2).1).isOk = true := by
    rw [← hr]
    decide +kernel
  have hsocket := (socket_in_place_of_stream (hr ▸ read_asking "https://github.com/o/r")
    (by rw [← hr]; decide) (fun m hm => by subst hr; cases hm; decide) rfl
    (fun p k hp => by rwa [hp] at hready) hstream).2
  rw [inPlaceOf_of_isOk hnoted] at hsocket
  exact ⟨hstream, hsocket⟩

def eventText : Event → String
  | .accept => "accept"
  | .send v => "send " ++ v.inText
  | .close => "close"

/-- For a repository on a host without a label the stream answers, and a socket refuses. -/
theorem socket_refuses_unlabelled_host :
    ((stream oneModel (asked "https://git.example.org/o/r")).on indexedHost).1 =
      .ok [.str "hello"] ∧
    ((socket oneModel (some (asking "https://git.example.org/o/r"))).on
        indexedHost).2.line.events.map eventText =
      ["accept", "send Error: Unsupported Git host: git.example.org", "close"] := by
  have hstream : soleText? ((stream oneModel (asked "https://git.example.org/o/r")).on
      indexedHost).1 = some "hello" := by decide +kernel
  exact ⟨eq_ok_of_soleText hstream, by decide +kernel⟩

end RepoWiki.Chat
