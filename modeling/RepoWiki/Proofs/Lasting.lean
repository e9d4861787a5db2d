import RepoWiki.Chat.Session
import RepoWiki.Proofs.Run
/-
Steps that never end the program.

A fault other than the program's own end can be told to the user. Reading values, looking at files
and calling services all fail in such ways only, so everything that is done for an answer is
`Lasting`: whoever asked hears what went wrong.
-/

namespace RepoWiki

open List Run

/-! ## Faults that can be told -/

class Told (fault : Fault) : Prop where
  not_exit : isExit fault = false

namespace Told

variable (text : String)

instance : Told (.value text) := ⟨rfl⟩
instance : Told (.kind text) := ⟨rfl⟩
instance : Told (.operation text) := ⟨rfl⟩
instance (owner name : String) : Told (.attribute owner name) := ⟨rfl⟩
instance (key : Json) : Told (.key key) := ⟨rfl⟩
instance (what : String) : Told (.index what) := ⟨rfl⟩
instance (problem : FileProblem) (path : String) : Told (.file problem path) := ⟨rfl⟩
instance (fault : Text.Utf8.Fault) : Told (.decode fault) := ⟨rfl⟩
instance (fault : EncodeFault) : Told (.encode fault) := ⟨rfl⟩
instance (problem : RequestProblem) : Told (.request problem text) := ⟨rfl⟩
instance : Told (.service text) := ⟨rfl⟩
instance : Told (.unsupported text) := ⟨rfl⟩
instance (name : String) : Told (.unbound name) := ⟨rfl⟩
instance : Told (.form text) := ⟨rfl⟩

instance (kind : Provider.Kind) : Told (Provider.Service.unsupportedKind kind) := ⟨rfl⟩
instance (kind : Option Provider.Kind) : Told (Provider.Bedrock.unsupportedKind kind) := ⟨rfl⟩
instance (v : Json) : Told (Provider.Client.notATable v) := ⟨rfl⟩

end Told

class Tellable {α : Type} (r : Result α) : Prop where
  not_exit : ∀ fault, r = .error fault → isExit fault = false

variable {fault : Fault}

namespace Tellable

variable {α β : Type}

instance ok (a : α) : Tellable (.ok a : Result α) :=
  ⟨fun _ h => nomatch h⟩

instance pure (a : α) : Tellable (pure a : Result α) :=
  ok a

theorem error (hf : isExit fault = false) : Tellable (.error fault : Result α) :=
  ⟨fun _ h => Except.error.inj h ▸ hf⟩

instance told (fault : Fault) [hf : Told fault] : Tellable (.error fault : Result α) :=
  error hf.not_exit

instance throw (fault : Fault) [hf : Told fault] : Tellable (throw fault : Result α) :=
  error hf.not_exit

instance bind (r : Result α) (f : α → Result β) [hr : Tellable r] [hf : ∀ a, Tellable (f a)] :
    Tellable (r >>= f) where
  not_exit fault h := by
    cases r with
    | error e => exact hr.not_exit fault (congrArg Except.error (Except.error.inj h))
    | ok a => exact (hf a).not_exit fault h

theorem andThen {r : Result α} {f : α → Result β} (hr : Tellable r) (hf : ∀ a, Tellable (f a)) :
    Tellable (r >>= f) :=
  bind r f

instance ite (c : Prop) [Decidable c] (r s : Result α) [hr : Tellable r] [hs : Tellable s] :
    Tellable (if c then r else s) := by
  split
  · exact hr
  · exact hs

instance throw_bind (fault : Fault) (f : α → Result β) [hf : Told fault] :
    Tellable ((MonadExcept.throw fault : Result α) >>= f) :=
  error hf.not_exit

instance error_bind (fault : Fault) (f : α → Result β) [hf : Told fault] :
    Tellable ((.error fault : Result α) >>= f) :=
  error hf.not_exit

theorem check {c : Prop} [Decidable c] [Told fault] {f : α → Result β} {r : Result β}
    (hr : Tellable r) : Tellable (if c then (.error fault : Result α) >>= f else r) :=
  ite c _ r

theorem passed {r : Result α} (hr : Tellable r) (h : r = .error fault) :
    Tellable (.error fault : Result β) :=
  error (hr.not_exit fault h)

instance mapM (f : α → Result β) (xs : List α) [hf : ∀ a, Tellable (f a)] :
    Tellable (xs.mapM f) := by
  induction xs with
  | nil => rw [mapM_nil]; infer_instance
  | cons x xs ih => rw [mapM_cons]; infer_instance

end Tellable

namespace Url

instance (inside : String) : Tellable (checkBracketed inside) := by
  unfold checkBracketed
  infer_instance

variable (authority : String)

instance : Tellable (checkBrackets authority) := by
  unfold checkBrackets
  split <;> infer_instance

instance : Tellable (checkMarks authority) := by
  unfold checkMarks
  infer_instance

instance (s : String) : Tellable (ofText s) := by
  unfold ofText
  dsimp only
  infer_instance

end Url

namespace Repository

variable (address : String)

instance : Tellable (labelOfShell address) := by
  unfold labelOfShell
  split
  · infer_instance
  · dsimp only
    split
    · infer_instance
    · split <;> infer_instance

instance : Tellable (labelOfUrl address) := by
  unfold labelOfUrl
  refine Tellable.andThen inferInstance fun url => ?_
  dsimp only
  split
  · infer_instance
  · split
    · infer_instance
    · split <;> infer_instance

instance : Tellable (labelOfPair address) := by
  unfold labelOfPair
  dsimp only
  split
  · infer_instance
  · split <;> infer_instance

instance : Tellable (label address) := by
  unfold label
  infer_instance

end Repository

namespace FileTree

variable (tree : FileTree) (p : String)

instance : Tellable (tree.makeDirectory p) := by
  unfold makeDirectory
  split <;> infer_instance

instance : Tellable (tree.ensureDirectory p) := by
  have hmake : Tellable (tree.makeDirectory p) := inferInstance
  unfold ensureDirectory
  split
  · infer_instance
  · next fault hfault =>
    split
    · infer_instance
    · exact .error (hmake.not_exit fault hfault)

instance (fuel : Nat) : Tellable (makeDirectoriesFrom fuel tree p) := by
  induction fuel generalizing tree p with
  | zero => unfold makeDirectoriesFrom; infer_instance
  | succ fuel ih =>
    unfold makeDirectoriesFrom
    dsimp only
    split
    · have habove := ih tree (splitLast p).1
      split
      · infer_instance
      · infer_instance
    · infer_instance

instance : Tellable (tree.makeDirectories p) := by
  unfold makeDirectories
  infer_instance

instance : Tellable (tree.open? p) := by
  unfold open?
  split
  · infer_instance
  · split <;> infer_instance

instance : Tellable (tree.readText p) := by
  unfold readText
  refine .andThen inferInstance fun content => ?_
  split
  · infer_instance
  · exact .error rfl

instance (c : Content) : Tellable (tree.write p c) := by
  unfold write
  dsimp only
  split
  · infer_instance
  · split <;> infer_instance

end FileTree

instance (text : String) : Tellable (Json.read text) where
  not_exit fault h := by
    unfold Json.read at h
    dsimp only at h
    generalize (if text.toList.head? = some (Char.ofNat 0xFEFF) then
      Except.error ⟨.byteOrderMark, 0⟩ else Json.readChars text.toList) = found at h
    cases found with
    | ok v => cases h
    | error e =>
      rw [← Except.error.inj h, Json.ReadFault.toFault]
      split <;> rfl

/-! ## Steps that never end the program -/

class Lasting {α : Type} (step : Run α) : Prop where
  tellable : ∀ h, Tellable (step.on h).1

namespace Lasting

variable {α β : Type}

instance pure (a : α) : Lasting (pure a : Run α) :=
  ⟨fun h => by rw [on_pure]; infer_instance⟩

instance lift (r : Result α) [hr : Tellable r] : Lasting (Run.lift r) :=
  ⟨fun h => by rw [on_lift]; exact hr⟩

instance tree : Lasting Run.tree :=
  ⟨fun h => by rw [on_tree]; infer_instance⟩

theorem throw (hf : isExit fault = false) : Lasting (throw fault : Run α) :=
  ⟨fun h => by rw [on_throw]; exact .error hf⟩

instance bind (step : Run α) (f : α → Run β) [hs : Lasting step] [hf : ∀ a, Lasting (f a)] :
    Lasting (step >>= f) where
  tellable h := by
    have hstep := hs.tellable h
    rw [on_bind]
    rcases hrun : step.on h with ⟨fault | a, k⟩ <;> rw [hrun] at hstep
    · exact .error (hstep.not_exit fault rfl)
    · exact (hf a).tellable k

theorem andThen {step : Run α} {f : α → Run β} (hs : Lasting step) (hf : ∀ a, Lasting (f a)) :
    Lasting (step >>= f) :=
  bind step f

theorem read {f : Host → Run β} (hf : ∀ h, Lasting (f h)) : Lasting (get >>= f) where
  tellable h := by
    rw [on_get_bind]
    exact (hf h).tellable h

instance ite (c : Prop) [Decidable c] (s t : Run α) [hs : Lasting s] [ht : Lasting t] :
    Lasting (if c then s else t) := by
  split
  · exact hs
  · exact ht

theorem tryCatch {step : Run α} {rescue : Fault → Run α} (hs : Lasting step)
    (hr : ∀ fault, isExit fault = false → Lasting (rescue fault)) :
    Lasting (tryCatch step rescue) where
  tellable h := by
    have hstep := hs.tellable h
    rw [on_tryCatch]
    rcases hrun : step.on h with ⟨fault | a, k⟩ <;> rw [hrun] at hstep
    · exact (hr fault (hstep.not_exit fault rfl)).tellable k
    · exact .ok a

instance changeTree (f : FileTree → Result FileTree) [hf : ∀ t, Tellable (f t)] :
    Lasting (Run.changeTree f) where
  tellable h := by
    have hchange := hf h.tree
    rw [on_changeTree]
    split
    · infer_instance
    · next fault hfault => exact .error (hchange.not_exit fault hfault)

instance print (s : String) : Lasting (Run.print s) := by
  refine .read fun h => ?_
  split
  · exact ⟨fun k => by rw [on_modify]; infer_instance⟩
  · exact .throw rfl

instance told (fault : Fault) [hf : Told fault] : Lasting (MonadExcept.throw fault : Run α) :=
  throw hf.not_exit

instance told_bind (fault : Fault) (f : α → Run β) [hf : Told fault] :
    Lasting ((MonadExcept.throw fault : Run α) >>= f) where
  tellable h := by
    rw [on_throw_bind]
    infer_instance

instance attempt (step : Run α) : Lasting (Run.attempt step) :=
  ⟨fun h => by rw [on_attempt]; infer_instance⟩

instance modify (f : Host → Host) : Lasting (modify f : Run Unit) :=
  ⟨fun h => by rw [on_modify]; infer_instance⟩

instance note (name : String) (args : Json) : Lasting (Run.note name args) :=
  modify _

instance env? (name : String) : Lasting (Run.env? name) :=
  read fun _ => inferInstance

instance library : Lasting Run.library :=
  read fun _ => inferInstance

theorem orElse {step : Run α} {rescue : Fault → Run α} (hs : Lasting step)
    (hr : ∀ fault, isExit fault = false → Lasting (rescue fault)) :
    Lasting (Run.orElse step rescue) := by
  refine .tryCatch hs fun fault hf => ?_
  split
  · cases hf
  · exact hr _ hf

instance orElse_any (step : Run α) (rescue : Fault → Run α) [hs : Lasting step]
    [hr : ∀ fault, Lasting (rescue fault)] : Lasting (Run.orElse step rescue) :=
  orElse hs fun fault _ => hr fault

instance mapM (f : α → Run β) (xs : List α) [hf : ∀ a, Lasting (f a)] : Lasting (xs.mapM f) := by
  induction xs with
  | nil => rw [mapM_nil]; infer_instance
  | cons x xs ih => rw [mapM_cons]; infer_instance

end Lasting

/-! ## Values -/

namespace Json

variable (key : String) (v : Json)

instance : Tellable (v.item key) := by
  unfold item
  split
  · split <;> infer_instance
  all_goals infer_instance

instance : Tellable v.asKey := by
  unfold asKey
  infer_instance

instance {α : Type} (what : String) (items : List α) (n : Int) :
    Tellable (itemAt what items n) := by
  unfold itemAt
  dsimp only
  generalize (if (if n < 0 then n + items.length else n) < 0 then none else _ : Option α) = found
  cases found <;> infer_instance

instance : Tellable v.first := by
  unfold first
  split
  all_goals try split
  all_goals infer_instance

instance (default : Json) : Tellable (v.getD key default) := by
  unfold getD
  split <;> infer_instance

instance : Tellable (v.get key) := by
  unfold get
  infer_instance

instance (key : Json) : Tellable (index key v) := by
  unfold index
  split
  · refine .andThen inferInstance fun k => ?_
    split <;> infer_instance
  all_goals infer_instance

instance (key : Json) : Tellable (includes key v) := by
  unfold includes
  split
  · refine .andThen inferInstance fun k => ?_
    split <;> infer_instance
  all_goals infer_instance

instance : Tellable (v.holds key) := by
  unfold holds
  split <;> infer_instance

instance : Tellable v.elements := by
  unfold elements
  split <;> infer_instance

instance : Tellable v.size := by
  unfold size
  split <;> infer_instance

instance (operation : String) : Tellable (v.asWord operation) := by
  unfold asWord
  split <;> infer_instance

instance : Tellable v.asSubject := by
  unfold asSubject
  split <;> infer_instance

end Json

/-! ## Addresses and web services -/

namespace Url

instance (v : Json) : Tellable (ofValue v) := by
  unfold ofValue
  split <;> infer_instance

instance (u : Url) : Tellable u.port? := by
  unfold port?
  split
  · infer_instance
  · split
    · split <;> infer_instance
    · infer_instance

end Url

namespace Web

instance (r : Response) : Tellable r.json := by
  unfold Response.json
  have hread : Tellable (Json.read r.text) := inferInstance
  split
  · infer_instance
  · infer_instance
  · next hfault => exact hread.passed hfault

instance (r : Response) : Tellable r.check := by
  unfold Response.check
  dsimp only
  infer_instance

end Web

namespace Repository
namespace GitHub

instance (repository path : Json) : Tellable (contentUrl repository path) := by
  unfold contentUrl
  refine .andThen inferInstance fun url => ?_
  split
  · infer_instance
  · split <;> infer_instance

instance (v : Json) : Tellable (decodeContent v) := by
  unfold decodeContent
  have hword : Tellable (v.asWord "replace") := inferInstance
  split
  · next hfault => exact hword.passed hfault
  · dsimp only
    split
    · infer_instance
    · split
      · infer_instance
      · split <;> infer_instance

instance (answer : Json) : Tellable (textOf answer) := by
  unfold textOf
  infer_instance

end GitHub

namespace GitLab

instance (url : Url) : Tellable (interface url) := by
  unfold interface
  refine .andThen inferInstance fun port => ?_
  split <;> infer_instance

instance (repository : Json) : Tellable (projectUrl repository) := by
  unfold projectUrl
  infer_instance

instance (path : Json) : Tellable (encodedPath path) := by
  unfold encodedPath
  split <;> infer_instance

instance (text : String) : Tellable (checkMessage text) := by
  unfold checkMessage
  have hread : Tellable (Json.read text) := inferInstance
  split
  · split
    · infer_instance
    · infer_instance
    · next hfault => exact hread.passed hfault
  · infer_instance

end GitLab

namespace Bitbucket

instance (repository : Json) : Tellable (repositoryUrl repository) := by
  unfold repositoryUrl
  refine .andThen inferInstance fun address => ?_
  split
  · infer_instance
  · split <;> infer_instance

end Bitbucket
end Repository

/-! ## Finding documents -/

namespace Index
namespace Retrieval

instance (s : Searcher) : Tellable (wanted s) := by
  unfold wanted
  split <;> infer_instance

instance (documents : List Document) (position : Json) :
    Tellable (documentAt documents position) := by
  unfold documentAt
  split <;> infer_instance

end Retrieval
end Index

/-! ## Services -/

namespace Config

instance (v : Json) : Tellable (asOptions v) := by
  unfold asOptions
  split <;> infer_instance

instance (settings : Fields) (provider name : Json) : Tellable (model settings provider name) := by
  unfold model
  split
  · dsimp only
    split
    case' h_2 => refine .andThen inferInstance fun _ => .andThen inferInstance fun _ => ?_
    all_goals
      refine .andThen inferInstance fun chosen => .check (.andThen inferInstance fun client => ?_)
      refine .check (.andThen inferInstance fun default => .check ?_)
      refine .andThen inferInstance fun models => .andThen inferInstance fun listed => ?_
      refine .andThen inferInstance fun _ => .andThen inferInstance fun options => ?_
      infer_instance
  · infer_instance

end Config

namespace Provider
namespace Record

instance (v : Json) : Tellable (first v) := by
  unfold first
  split <;> infer_instance

instance (v : Json) : Tellable (elements v) := by
  unfold elements
  split <;> infer_instance

instance (v : Json) : Tellable (size v) := by
  unfold size
  split <;> infer_instance

end Record

instance (reply : Json) (broken : Option String) : Tellable (Chunks.ofElements reply broken) := by
  unfold Chunks.ofElements
  infer_instance

instance (c : Completion) : Tellable c.lateChunks := by
  unfold Completion.lateChunks
  split <;> infer_instance

instance (input : Json) : Tellable (textsToEmbed input) := by
  unfold textsToEmbed
  split <;> infer_instance

namespace OpenAI

instance (c : Client) (input : Json) : Tellable (promptParts? c input) := by
  unfold promptParts?
  infer_instance

end OpenAI

namespace Azure

variable (c : Client)

instance (input : Json) : Tellable (c.messagesFor input) := by
  unfold Client.messagesFor
  dsimp only
  split
  · infer_instance
  · refine .andThen inferInstance fun text => ?_
    split <;> infer_instance

instance (input : Json) (options : Fields) (kind : Kind) :
    Tellable (c.arguments input options kind) := by
  unfold Client.arguments
  split <;> infer_instance

end Azure

namespace DashScope

instance (outer inner : String) (value : Json) (arguments : Fields) :
    Tellable (setInside outer inner value arguments) := by
  unfold setInside
  split <;> infer_instance

instance (workspace : Json) (arguments : Fields) :
    Tellable (addWorkspace workspace arguments) := by
  unfold addWorkspace
  infer_instance

instance (input : Input) : Tellable (messagesFor input) := by
  unfold messagesFor
  split <;> infer_instance

instance (connection : Connection) (input : Input) (options : Fields) (kind : Kind) :
    Tellable (arguments connection input options kind) := by
  unfold arguments
  split <;> infer_instance

end DashScope

namespace OpenRouter

instance (input : Json) : Tellable (messagesFor input) := by
  unfold messagesFor
  split <;> infer_instance

instance (input : Json) (options : Fields) (kind : Option Kind) :
    Tellable (arguments input options kind) := by
  unfold arguments
  split <;> infer_instance

end OpenRouter

namespace Bedrock

instance (input : Json) (options : Fields) (kind : Option Kind) :
    Tellable (arguments input options kind) := by
  unfold arguments
  infer_instance

end Bedrock

instance (client : Client) (v : Json) : Tellable (client.optionsOf v) := by
  unfold Client.optionsOf
  split <;> infer_instance

end Provider

/-! ## What an answer is made from -/

namespace Chat

instance (v : Json) : Tellable (Request.read v) := by
  have hbody (owner : String) : Tellable (Form.body owner v) := by
    unfold Form.body
    split <;> infer_instance
  have houtcome (fields : Fields) : Tellable
      (Form.outcome Request.title (Request.ofFields fields)) := by
    unfold Form.outcome
    split <;> infer_instance
  unfold Request.read
  infer_instance

instance (settings : Fields) (language : Option String) :
    Tellable (languageName settings language) := by
  unfold languageName
  have hname (known code : Json) : Tellable (do
      let names ← known.item "supported_languages"
      match names, code with
      | .obj _, .arr _ | .obj _, .obj _ =>
          .error (.operation s!"unhashable type: '{code.kindName}'")
      | .obj fields, .str s => return ((Fields.get? s fields).getD (.str "English")).inText
      | .obj _, _ => return "English"
      | v, _ => .error (.attribute v.kindName "get") : Result String) := by
    refine .andThen inferInstance fun names => ?_
    split <;> infer_instance
  dsimp only
  split
  · split <;> infer_instance
  · infer_instance

namespace Voice

variable (options : Fields)

instance (name : String) : Tellable (option options name) := by
  unfold option
  split <;> infer_instance

instance (names : List String) : Tellable (optionsOf options names) := by
  unfold optionsOf
  infer_instance

instance (h : Hosted) (model : Json) : Tellable (hostedOptions h model options) := by
  unfold hostedOptions
  dsimp only
  split <;> infer_instance

instance : Tellable (ollamaOptions options) := by
  unfold ollamaOptions
  infer_instance

end Voice
end Chat
end RepoWiki
