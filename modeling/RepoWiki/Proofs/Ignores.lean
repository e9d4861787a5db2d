import RepoWiki.Proofs.Lasting
/-
Parts of the host that a step has nothing to do with.

`Ignores put step` says that the step commutes with exchanging a part of the host: it neither reads
the part nor changes it. The ways to put steps together keep that, so each step of the program
follows from its own parts. Two parts matter: the line to the browser alone, and the line together
with the files and the console, which no model service ever sees.
-/

namespace RepoWiki

open Run

namespace Host

def withLine (line : Connection) (h : Host) : Host :=
  { h with line }

/-- The host with another line, other files and another console. -/
def apart (part : Connection × FileTree × String) (h : Host) : Host :=
  { h with line := part.1, tree := part.2.1, printed := part.2.2 }

end Host

/-- A step that commutes with exchanging a part of the host. -/
class Ignores {σ α : Type} (put : σ → Host → Host) (step : Run α) : Prop where
  on_put : ∀ part h, step.on (put part h) = ((step.on h).1, put part (step.on h).2)

/-- A step that has nothing to do with the line. -/
abbrev Offline {α : Type} (step : Run α) : Prop :=
  Ignores Host.withLine step

/-- A step that has nothing to do with the line, the files and the console. -/
abbrev Detached {α : Type} (step : Run α) : Prop :=
  Ignores Host.apart step

namespace Ignores

variable {σ α β : Type} {put : σ → Host → Host}

/-! ## Steps that are put together -/

instance pure (a : α) : Ignores put (pure a : Run α) :=
  ⟨fun _ _ => by rw [on_pure, on_pure]⟩

instance throw (fault : Fault) : Ignores put (throw fault : Run α) :=
  ⟨fun _ _ => by rw [on_throw, on_throw]⟩

instance lift (r : Result α) : Ignores put (Run.lift r) :=
  ⟨fun _ _ => by rw [on_lift, on_lift]⟩

instance ofLibrary (r : Except String α) : Ignores put (Run.ofLibrary r) :=
  lift _

instance bind (step : Run α) (f : α → Run β) [hs : Ignores put step] [hf : ∀ a, Ignores put (f a)] :
    Ignores put (step >>= f) where
  on_put part h := by
    rw [on_bind, on_bind, hs.on_put]
    rcases step.on h with ⟨fault | a, k⟩
    · rfl
    · exact (hf a).on_put part k

instance throw_bind (fault : Fault) (f : α → Run β) :
    Ignores put ((MonadExcept.throw fault : Run α) >>= f) :=
  ⟨fun part h => by rw [on_throw_bind, on_throw_bind]⟩

theorem andThen {step : Run α} {f : α → Run β} (hs : Ignores put step)
    (hf : ∀ a, Ignores put (f a)) : Ignores put (step >>= f) :=
  bind step f

instance ite (c : Prop) [Decidable c] (s t : Run α) [hs : Ignores put s] [ht : Ignores put t] :
    Ignores put (if c then s else t) := by
  split
  · exact hs
  · exact ht

instance tryCatch (step : Run α) (rescue : Fault → Run α) [hs : Ignores put step]
    [hr : ∀ fault, Ignores put (rescue fault)] : Ignores put (tryCatch step rescue) where
  on_put part h := by
    rw [on_tryCatch, on_tryCatch, hs.on_put]
    rcases step.on h with ⟨fault | a, k⟩
    · exact (hr fault).on_put part k
    · rfl

instance orElse (step : Run α) (rescue : Fault → Run α) [Ignores put step]
    [hr : ∀ fault, Ignores put (rescue fault)] : Ignores put (Run.orElse step rescue) := by
  have : ∀ fault : Fault, Ignores put
      (match fault with
        | .exit _ => MonadExcept.throw fault
        | fault => rescue fault : Run α) := by
    intro fault
    cases fault with
    | exit code => exact Ignores.throw _
    | _ => exact hr _
  exact Ignores.tryCatch step _

instance attempt (step : Run α) [hs : Ignores put step] : Ignores put (Run.attempt step) where
  on_put part h := by
    rw [on_attempt, on_attempt, hs.on_put]

instance mapM (f : α → Run β) (items : List α) [∀ a, Ignores put (f a)] :
    Ignores put (items.mapM f) := by
  induction items with
  | nil => rw [List.mapM_nil]; infer_instance
  | cons a items ih => rw [List.mapM_cons]; infer_instance

theorem read {f : Host → Run β} (hread : ∀ part h, f (put part h) = f h)
    (hf : ∀ h, Ignores put (f h)) : Ignores put (get >>= f) where
  on_put part h := by
    rw [on_get_bind, on_get_bind, hread, (hf h).on_put]

theorem modify {g : Host → Host} (hg : ∀ part h, g (put part h) = put part (g h)) :
    Ignores put (modify g : Run Unit) where
  on_put part h := by
    rw [on_modify, on_modify, hg]

/-! ## The whole and the smaller part -/

theorem tree_eq (step : Run α) [hs : Detached step] (h : Host) : (step.on h).2.tree = h.tree :=
  congrArg (fun r => r.2.tree) (hs.on_put (h.line, h.tree, h.printed) h)

theorem printed_eq (step : Run α) [hs : Detached step] (h : Host) :
    (step.on h).2.printed = h.printed :=
  congrArg (fun r => r.2.printed) (hs.on_put (h.line, h.tree, h.printed) h)

instance offline (step : Run α) [hs : Detached step] : Offline step where
  on_put line h := by
    have hput := hs.on_put (line, h.tree, h.printed) h
    have htree := tree_eq step h
    have hprinted := printed_eq step h
    rw [show Host.withLine line h = Host.apart (line, h.tree, h.printed) h from rfl, hput,
      Host.apart, Host.withLine, htree, hprinted]

end Ignores

/-! ## Steps that end nothing and see a part only -/

/-- A step that never ends the program and has nothing to do with a part of the host. -/
class Tame {σ α : Type} (put : σ → Host → Host) (step : Run α) : Prop where
  lasting : Lasting step
  ignores : Ignores put step

/-- A tame step that sees the services only. -/
abbrev Remote {α : Type} (step : Run α) : Prop :=
  Tame Host.apart step

/-- A tame step that sees everything but the line. -/
abbrev Silent {α : Type} (step : Run α) : Prop :=
  Tame Host.withLine step

namespace Tame

variable {σ α β : Type} {put : σ → Host → Host}

instance (priority := low) both (step : Run α) [hl : Lasting step] [hi : Ignores put step] :
    Tame put step :=
  ⟨hl, hi⟩

instance (priority := low) (step : Run α) [h : Tame put step] : Ignores put step :=
  h.ignores

instance (priority := low) (step : Run α) [h : Silent step] : Lasting step :=
  h.lasting

instance (priority := low) (step : Run α) [h : Remote step] : Silent step :=
  ⟨h.lasting, Ignores.offline step⟩

theorem andThen {step : Run α} {f : α → Run β} (hs : Tame put step) (hf : ∀ a, Tame put (f a)) :
    Tame put (step >>= f) :=
  ⟨.andThen hs.lasting fun a => (hf a).lasting, .andThen hs.ignores fun a => (hf a).ignores⟩

theorem read {f : Host → Run β} (hread : ∀ part h, f (put part h) = f h)
    (hf : ∀ h, Tame put (f h)) : Tame put (get >>= f) :=
  ⟨.read fun h => (hf h).lasting, .read hread fun h => (hf h).ignores⟩

theorem modify {g : Host → Host} (hg : ∀ part h, g (put part h) = put part (g h)) :
    Tame put (modify g : Run Unit) :=
  ⟨.modify g, .modify hg⟩

end Tame

/-! ## Services -/

instance (name : String) (args : Json) : Detached (note name args) :=
  .modify fun _ _ => rfl

instance (name : String) : Detached (env? name) :=
  .read (fun _ _ => rfl) fun _ => inferInstance

instance : Detached library :=
  .read (fun _ _ => rfl) fun _ => inferInstance

namespace Provider
namespace Service

instance : Remote reply := by
  refine .read (fun _ _ => rfl) fun h => ?_
  split
  · infer_instance
  · refine .andThen (.modify fun _ _ => rfl) fun _ => ?_
    split <;> infer_instance

variable (arguments settings : Fields)

instance (name : String) : Remote (ask name arguments) := by
  unfold ask
  infer_instance

instance (reply : Json) : Remote (broken reply) := by
  unfold broken
  infer_instance

instance (waiting : Bool) : Remote (chat waiting arguments) := by
  unfold chat
  infer_instance

instance (name : Json) : Remote (envNamed name) := by
  unfold envNamed
  split <;> infer_instance

instance (given name : Json) : Remote (settingOrEnv given name) := by
  unfold settingOrEnv
  infer_instance

instance (variableName usual : String) : Remote (address settings variableName usual) := by
  unfold address
  dsimp only
  split
  · infer_instance
  · refine .andThen inferInstance fun found => ?_
    split <;> infer_instance

instance (client : Config.ClientClass) (names : List String) :
    Remote (takeOnly client names settings) := by
  unfold takeOnly
  split <;> infer_instance

end Service

variable (settings : Fields)

instance (client : OpenAI.Client) : Remote client.connection := by
  unfold OpenAI.Client.connection
  infer_instance

instance : Remote (OpenAI.Client.ofSettings settings) := by
  unfold OpenAI.Client.ofSettings
  infer_instance

instance (client : Azure.Client) : Remote client.connection := by
  unfold Azure.Client.connection
  infer_instance

instance : Remote (Azure.Client.ofSettings settings) := by
  unfold Azure.Client.ofSettings
  infer_instance

instance (client : DashScope.Client) : Remote client.connection := by
  unfold DashScope.Client.connection
  infer_instance

instance : Remote (DashScope.Client.ofSettings settings) := by
  unfold DashScope.Client.ofSettings
  infer_instance

instance : Remote OpenRouter.Client.open := by
  unfold OpenRouter.Client.open
  infer_instance

instance (id secret role region : Json) : Remote (Bedrock.connect id secret role region) := by
  unfold Bedrock.connect
  refine .andThen inferInstance fun _ => ?_
  dsimp only
  split
  · refine .andThen inferInstance fun _ => .andThen inferInstance fun reply => ?_
    infer_instance
  · infer_instance

instance : Remote (Bedrock.Client.ofSettings settings) := by
  unfold Bedrock.Client.ofSettings
  infer_instance

instance (provider : String) : Remote (Client.ofSettings provider settings) := by
  unfold Client.ofSettings
  split <;> infer_instance

instance (c : Config.ClientClass) : Detached (tryOpen c settings) := by
  unfold tryOpen
  split <;> infer_instance

instance (mark : Json) : Detached (tryOpenMarked mark settings) := by
  unfold tryOpenMarked
  split <;> infer_instance

instance (configuration : Fields) : Detached (openEmbedder configuration) := by
  unfold openEmbedder
  dsimp only
  split
  · refine .andThen inferInstance fun embedder => .andThen inferInstance fun mark =>
      .andThen inferInstance fun given => ?_
    split
    · refine .andThen inferInstance fun settings => ?_
      split <;> infer_instance
    · infer_instance
  · infer_instance

instance (input : Json) : Detached (Embedder.embed input) := by
  unfold Embedder.embed
  refine .andThen inferInstance fun _ => .read (fun _ _ => rfl) fun h =>
    .andThen inferInstance fun found => ?_
  split <;> infer_instance

end Provider

namespace Ollama

instance (text : String) : Detached (vectorOf text) := by
  unfold vectorOf
  refine .andThen inferInstance fun found => ?_
  split <;> infer_instance

instance (d : Document) : Detached (passOver d) := by
  unfold passOver
  infer_instance

variable (expected : Option Nat) (documents : List Document)

instance (d : Document) : Detached (embedOne expected d) := by
  unfold embedOne
  refine .andThen ?_ fun found => ?_
  · refine @Ignores.attempt _ _ _ _ (.andThen inferInstance fun vector => ?_)
    split <;> infer_instance
  · split <;> infer_instance

instance : Detached (embedFrom expected documents) := by
  induction documents generalizing expected with
  | nil => unfold embedFrom; infer_instance
  | cons d rest ih => unfold embedFrom; infer_instance

instance : Detached (embedDocuments documents) := by
  unfold embedDocuments
  infer_instance

end Ollama

instance (settings : Fields) (single : Bool) (documents : List Document) :
    Detached (Index.Database.embed settings single documents) := by
  unfold Index.Database.embed
  infer_instance

end RepoWiki
