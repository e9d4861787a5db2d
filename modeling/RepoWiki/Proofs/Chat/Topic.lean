import RepoWiki.Proofs.Chat.Fallback
/-
The question of a research that goes on.

A message that only asks to go on stands for the question with which the research began. That
question is looked for among the messages of the user that do not speak of going on. So it is kept
as long as it does not use that word itself, and as long as the last message still asks to go on
with the research when its mark is gone, which has the second word in it (`query_keeps_topic`).
-/

namespace RepoWiki.Chat
namespace Research

open List

variable {messages : List Message} {first last : Message}

theorem unmark_cases (last m : Message) : unmark last m = m ∨ m = last := by
  rw [unmark]
  split
  · next hsame =>
    rw [Bool.and_eq_true, beq_iff_eq] at hsame
    exact .inr hsame.2
  · exact .inl rfl

def opens (m : Message) : Bool :=
  m.isFromUser && !saysContinue m.content

theorem firstTopic_eq_find? (messages : List Message) :
    firstTopic messages = ((messages.find? opens).map fun m => topicOf m.content).getD "" :=
  rfl

/-- The messages that lose their mark speak of going on before and after that. -/
theorem find?_opens_unmark (hlast : saysContinue last.content = true)
    (hown : saysContinue (unmark last last).content = true) :
    (messages.map (unmark last)).find? opens = messages.find? opens := by
  have hopens : opens ∘ unmark last = opens := by
    funext m
    rcases unmark_cases last m with hsame | rfl
    · rw [Function.comp_apply, hsame]
    · rw [Function.comp_apply, opens, opens, hlast, hown, Bool.not_true,
        Bool.and_false, Bool.and_false]
  rw [find?_map, hopens]
  cases hfound : messages.find? opens with
  | none => rfl
  | some m =>
    rcases unmark_cases last m with hsame | rfl
    · rw [Option.map_some, hsame]
    · have hopen := find?_some hfound
      rw [opens, hlast, Bool.not_true, Bool.and_false] at hopen
      cases hopen

theorem firstTopic_of_first (hfirst : messages.find? Message.isFromUser = some first)
    (h : saysContinue first.content = false) : firstTopic messages = topicOf first.content := by
  obtain ⟨huser, before, after, hsplit, hbefore⟩ := find?_eq_some_iff_append.1 hfirst
  have hfound : messages.find? opens = some first := by
    rw [find?_eq_some_iff_append]
    refine ⟨by rw [opens, huser, h]; rfl, before, after, hsplit, fun m hm => ?_⟩
    have hother := hbefore m hm
    rw [Bool.not_eq_true'] at hother ⊢
    rw [opens, hother, Bool.false_and]
  rw [firstTopic_eq_find?, hfound, Option.map_some, Option.getD_some]

theorem firstTopic_cases (messages : List Message) :
    firstTopic messages = "" ∨ ∃ m ∈ messages, m.isFromUser = true ∧
      saysContinue m.content = false ∧
      firstTopic messages = topicOf m.content := by
  rw [firstTopic_eq_find?]
  cases hfound : messages.find? opens with
  | none => exact .inl rfl
  | some m =>
    have hopen := find?_some hfound
    rw [opens, Bool.and_eq_true, Bool.not_eq_true'] at hopen
    exact .inr ⟨m, mem_of_find?_eq_some hfound, hopen.1, hopen.2, rfl⟩

end Research

theorem Question.text_of_research {messages : List Message} {last : Message}
    (hmarked : messages.any Research.isMarked = true)
    (hlast : Research.asksToContinue last.content = true) :
    (Question.ofMessages messages last).text =
      if Research.asksToContinue (Research.unmark last last).content = true ∧
        Research.firstTopic messages ≠ "" then Research.firstTopic messages
      else (Research.unmark last last).content := by
  rw [Question.ofMessages, hmarked, if_pos rfl]
  dsimp only
  cases hown : Research.asksToContinue (Research.unmark last last).content with
  | false => simp
  | true =>
    rw [Research.asksToContinue, Bool.and_eq_true] at hlast hown
    rw [Research.firstTopic_eq_find? (messages.map _), Research.find?_opens_unmark hlast.1 hown.1,
      ← Research.firstTopic_eq_find?]
    simp

def Prepared.Asks (p : Prepared) (k : Host) (text : String) : Prop :=
  ∃ setting context g,
    (p.voice.arguments (Prompt.whole setting context none text)).on g = (.ok p.arguments, k) ∧
      p.short = Prompt.short setting text

theorem asks_of_prepare {settings : Fields} {r : Request} {p : Prepared}
    {h k : Host} {last : Message}
    (hp : (prepare .stream settings r).on h = (.ok (.ok p), k)) (hlast : r.last? = some last) :
    p.Asks k (Question.ofMessages r.messages last).text := by
  obtain ⟨last', setting, context, options, g, g', hlast', -, hasked⟩ := prepare_asks hp
  obtain rfl : last = last' := Option.some.inj (hlast.symm.trans hlast')
  exact ⟨setting, context, g', hasked⟩

/-- A stream asks the question of a marked first message of the user, if that does not speak of
going on and the last message without its mark still asks for it. Otherwise it asks what the last
message says, or the question of another message. -/
theorem query_keeps_topic {settings : Fields} {r : Request} {p : Prepared} {h k : Host}
    {first last : Message} (hp : (prepare .stream settings r).on h = (.ok (.ok p), k))
    (hfirst : r.messages.find? Message.isFromUser = some first)
    (hmarked : Research.isMarked first = true) (htopic : Research.topicOf first.content ≠ "")
    (hlast : r.last? = some last) (hask : Research.asksToContinue last.content = true) :
    (Research.saysContinue first.content = false ∧
        Research.asksToContinue (Research.unmark last last).content = true →
      p.Asks k (Research.topicOf first.content)) ∧
    (¬(Research.saysContinue first.content = false ∧
        Research.asksToContinue (Research.unmark last last).content = true) →
      p.Asks k (Research.unmark last last).content ∨
      ∃ m ∈ r.messages, m ≠ first ∧ m.isFromUser = true ∧
        p.Asks k (Research.topicOf m.content)) := by
  have hany : r.messages.any Research.isMarked = true :=
    List.any_eq_true.2 ⟨first, List.mem_of_find?_eq_some hfirst, hmarked⟩
  have hasks := asks_of_prepare hp hlast
  rw [Question.text_of_research hany hask] at hasks
  constructor
  · intro hkept
    rw [Research.firstTopic_of_first hfirst hkept.1, if_pos ⟨hkept.2, htopic⟩] at hasks
    exact hasks
  · intro hlost
    split at hasks
    · next hgoes =>
      have hword : Research.saysContinue first.content = true := by
        rw [← Bool.not_eq_false]
        exact fun hopen => hlost ⟨hopen, hgoes.1⟩
      rcases Research.firstTopic_cases r.messages with hnone | ⟨m, hm, huser, hopen, htext⟩
      · exact absurd hnone hgoes.2
      · refine .inr ⟨m, hm, ?_, huser, htext ▸ hasks⟩
        rintro rfl
        rw [hword] at hopen
        cases hopen
    · exact .inl hasks

/-! ## Conversations -/

def conversing (opening closing : String) : Request :=
  { asked "https://github.com/o/r" with
    messages := [⟨"user", opening⟩, ⟨"assistant", "It depends."⟩, ⟨"user", closing⟩] }

def isPrepared : Result (Except Refusal Prepared) × Host → Bool
  | (.ok (.ok _), _) => true
  | _ => false

theorem of_isPrepared {found : Result (Except Refusal Prepared) × Host}
    (h : isPrepared found = true) : ∃ p k, found = (.ok (.ok p), k) := by
  rcases found with ⟨_ | _ | p, k⟩
  · cases h
  · cases h
  · exact ⟨p, k, rfl⟩

theorem query_keeps_topic_of_loops :
    ∃ p k, (prepare .stream oneModel (conversing "[DEEP RESEARCH] How do loops work?"
        "[DEEP RESEARCH] Continue the RESEARCH")).on indexedHost = (.ok (.ok p), k) ∧
      p.Asks k "How do loops work?" := by
  have hprepared : isPrepared ((prepare .stream oneModel (conversing
      "[DEEP RESEARCH] How do loops work?" "[DEEP RESEARCH] Continue the RESEARCH")).on
        indexedHost) =
        true := by decide +kernel
  obtain ⟨p, k, hp⟩ := of_isPrepared hprepared
  have hfirst : (conversing "[DEEP RESEARCH] How do loops work?"
      "[DEEP RESEARCH] Continue the RESEARCH").messages.find? Message.isFromUser =
        some ⟨"user", "[DEEP RESEARCH] How do loops work?"⟩ := by decide +kernel
  have htopic : Research.topicOf "[DEEP RESEARCH] How do loops work?" = "How do loops work?" := by
    decide +kernel
  obtain ⟨hkept, -⟩ := query_keeps_topic hp hfirst (by decide +kernel) (by decide +kernel) rfl
    (by decide +kernel)
  exact ⟨p, k, hp, htopic ▸ hkept (by decide +kernel)⟩

/-- A question that has the word in it is not found again, and a last message that has the second
word in its mark only does not ask for it. -/
theorem query_loses_topic :
    (∃ p k, (prepare .stream oneModel
      (conversing "[DEEP RESEARCH] How does the continue statement work?"
        "[DEEP RESEARCH] Continue the research")).on indexedHost = (.ok (.ok p), k) ∧
      p.Asks k "Continue the research") ∧
    ∃ p k, (prepare .stream oneModel (conversing "[DEEP RESEARCH] How do loops work?"
        "[DEEP RESEARCH] continue")).on indexedHost = (.ok (.ok p), k) ∧ p.Asks k "continue" := by
  have hfirst : isPrepared ((prepare .stream oneModel (conversing
      "[DEEP RESEARCH] How does the continue statement work?"
      "[DEEP RESEARCH] Continue the research")).on indexedHost) = true := by decide +kernel
  have hsecond : isPrepared ((prepare .stream oneModel (conversing
      "[DEEP RESEARCH] How do loops work?" "[DEEP RESEARCH] continue")).on indexedHost) = true := by
    decide +kernel
  have htexts :
      (Question.ofMessages (conversing "[DEEP RESEARCH] How does the continue statement work?"
        "[DEEP RESEARCH] Continue the research").messages
          ⟨"user", "[DEEP RESEARCH] Continue the research"⟩).text = "Continue the research" ∧
      (Question.ofMessages (conversing "[DEEP RESEARCH] How do loops work?"
        "[DEEP RESEARCH] continue").messages ⟨"user", "[DEEP RESEARCH] continue"⟩).text =
          "continue" := by decide +kernel
  obtain ⟨p, k, hp⟩ := of_isPrepared hfirst
  obtain ⟨q, m, hq⟩ := of_isPrepared hsecond
  exact ⟨⟨p, k, hp, htexts.1 ▸ asks_of_prepare hp rfl⟩, q, m, hq, htexts.2 ▸ asks_of_prepare hq rfl⟩

end RepoWiki.Chat
