import RepoWiki.Proofs.Ignores
/-
Looking things up for an answer goes without the line to the browser.

Before a word is sent the documents of the repository are prepared, the ones for the question are
found, the file and the notes are read. Each of these steps is `Offline`: on a host with another
line it gives the same and leaves the same host but for the line.
-/

namespace RepoWiki

theorem Ignores.line_eq {α : Type} (step : Run α) [hs : Offline step] (h : Host) :
    (step.on h).2.line = h.line :=
  congrArg (fun r => r.2.line) (hs.on_put h.line h)

/-! ## Files and console -/

instance : Offline Run.tree :=
  .read (fun _ _ => rfl) fun _ => inferInstance

instance (t : FileTree) : Offline (Run.setTree t) :=
  .modify fun _ _ => rfl

instance (f : FileTree → Result FileTree) : Offline (Run.changeTree f) := by
  unfold Run.changeTree
  infer_instance

instance (s : String) : Offline (Run.print s) := by
  refine .read (fun _ _ => rfl) fun h => ?_
  split
  · exact .modify fun _ _ => rfl
  · infer_instance

/-! ## Web services -/

namespace Web

variable (url : String)

instance : Remote (reply url) := by
  refine .read (fun _ _ => rfl) fun h => ?_
  split
  · infer_instance
  · refine .andThen (.modify fun _ _ => rfl) fun _ => ?_
    split <;> infer_instance

instance (headers : Fields) : Remote (fetch url headers) := by
  unfold fetch
  refine .andThen inferInstance fun _ => .andThen inferInstance fun found => ?_
  split <;> infer_instance

instance (headers : Fields) (body : Json) : Remote (send url headers body) := by
  unfold send
  infer_instance

end Web

namespace Ollama

variable (model : Json)

instance (host : String) : Detached (askFor model host) := by
  unfold askFor
  infer_instance

instance (host : String) : Detached (hasModel.ask model host) := by
  unfold hasModel.ask
  infer_instance

instance (host : Json) : Detached (hasModel model host) := by
  unfold hasModel
  split <;> infer_instance

end Ollama

namespace Repository

instance {α : Type} (lead : String) (step : Run α) [Remote step] :
    Remote (wrapFaults lead step) := by
  unfold wrapFaults
  infer_instance

instance {α : Type} (lead : String) (step : Run α) [hs : Remote step] :
    Remote (wrapRequestFaults lead step) := by
  refine ⟨.tryCatch hs.lasting fun fault hf => .throw ?_, ?_⟩
  · split
    · rfl
    · exact hf
  · unfold wrapRequestFaults
    infer_instance

variable (repository path token address directory : Json) (hosting : Hosting)

instance : Remote (GitHub.fileContent repository path token) := by
  unfold GitHub.fileContent
  have hread (response : Web.Response) : Remote
      (match response.json with
        | .ok answer => Run.lift (GitHub.textOf answer)
        | .error (.request .badBody _) => throw (.value "Invalid response from GitHub API")
        | .error fault => throw fault) := by
    have hjson : Tellable response.json := inferInstance
    split
    · infer_instance
    · infer_instance
    · next hfault => exact ⟨.throw (hjson.not_exit _ hfault), inferInstance⟩
  infer_instance

instance (project : String) (headers : Fields) : Remote (GitLab.branch project headers) := by
  unfold GitLab.branch
  infer_instance

instance : Remote (GitLab.fileContent repository path token) := by
  unfold GitLab.fileContent
  infer_instance

instance (repository : String) (headers : Fields) :
    Remote (Bitbucket.branch repository headers) := by
  unfold Bitbucket.branch
  infer_instance

instance : Remote (Bitbucket.fileContent repository path token) := by
  unfold Bitbucket.fileContent
  have hread (response : Web.Response) : Remote
      (match Bitbucket.statusProblem? response.status with
        | some problem => throw (.value problem)
        | none => do
            Run.lift response.check
            return response.text) := by
    split <;> infer_instance
  infer_instance

instance : Remote (fileContent hosting repository path token) := by
  unfold fileContent
  split <;> infer_instance

/-! ## Copies of repositories -/

instance (arguments : List Json) : Offline (runGit arguments) := by
  unfold runGit
  infer_instance

instance : Offline (runClone address directory token) := by
  unfold runClone
  refine .andThen inferInstance fun _ => .read (fun _ _ => rfl) fun h => ?_
  split
  · infer_instance
  · exact .andThen (.modify fun _ _ => rfl) fun _ => .andThen inferInstance fun _ => inferInstance

instance (directory : String) : Offline (prepareTarget directory) := by
  unfold prepareTarget
  infer_instance

instance : Offline (prepareClone address directory hosting token) := by
  unfold prepareClone
  infer_instance

instance : Offline (clone address directory hosting token) := by
  unfold clone
  refine .andThen inferInstance fun _ => .read (fun _ _ => rfl) fun h =>
    .andThen inferInstance fun _ => .andThen inferInstance fun found => ?_
  split <;> infer_instance

end Repository

namespace Index

instance (count : String → Nat) (settings : Fields) (root : Json) (wishes : Wishes) :
    Offline (readBy count settings root wishes) := by
  unfold readBy
  refine .andThen inferInstance fun filter => ?_
  split <;> infer_instance

namespace Database

variable (address token : Json) (hosting : Repository.Hosting) (settings : Fields)
  (single : Option Bool) (wishes : Wishes)

instance : Offline (locate address hosting token) := by
  unfold locate
  refine .read (fun _ _ => rfl) fun h => ?_
  dsimp only
  refine .andThen inferInstance fun _ => .andThen inferInstance fun address => ?_
  split
  · refine .andThen inferInstance fun tree => .andThen inferInstance fun filled => ?_
    split <;> infer_instance
  · infer_instance

instance (db : Database) : Offline (db.create address hosting token) := by
  unfold create
  refine .andThen inferInstance fun found => ?_
  split <;> infer_instance

instance (paths : Paths) : Offline (build settings paths single wishes) := by
  unfold build
  cases single <;> infer_instance

instance (db : Database) : Offline (db.index settings single wishes) := by
  unfold index
  split
  · infer_instance
  · refine .andThen inferInstance fun tree => ?_
    dsimp only
    split
    · infer_instance
    · refine .andThen inferInstance fun made => ?_
      split <;> infer_instance

instance : Offline (prepare settings address hosting token single wishes) := by
  unfold prepare
  refine .andThen inferInstance fun made => ?_
  split
  split <;> infer_instance

end Database

/-! ## Finding documents -/

namespace Retrieval

variable (settings : Fields) (r : Retrieval) (question : Json)

instance : Detached (checkLocalModel settings) := by
  unfold checkLocalModel
  refine .andThen inferInstance fun model => ?_
  split <;> infer_instance

instance (provider model : Json) : Detached (start settings provider model) := by
  unfold start
  infer_instance

instance (documents : List Document) : Detached (buildSearcher settings documents) := by
  have hopen (limit : Json) : Detached (do
      match (← get).indexFault with
      | some message => throw (.service message)
      | none => return ⟨limit, documents.length⟩ : Run Searcher) := by
    refine .read (fun _ _ => rfl) fun h => ?_
    split <;> infer_instance
  unfold buildSearcher
  dsimp only
  split <;> infer_instance

instance (address : Json) (hosting : Repository.Hosting) (token : Json) (wishes : Wishes) :
    Offline (r.prepare address hosting token wishes) := by
  unfold prepare
  refine .andThen inferInstance fun found => ?_
  split
  split
  · infer_instance
  · dsimp only
    split
    · infer_instance
    · refine @Ignores.ite _ _ _ _ _ _ _ inferInstance (.andThen inferInstance fun made => ?_)
      split <;> infer_instance

instance (s : Searcher) : Silent (search s question) := by
  unfold search
  refine .andThen inferInstance fun _ => .read (fun _ _ => rfl) fun h => ?_
  split <;> infer_instance

instance : Silent (r.find question) := by
  unfold find
  split <;> infer_instance

instance : Silent (r.find? question) := by
  unfold find?
  infer_instance

end Retrieval
end Index

/-! ## The notes on a project -/

namespace Outline
namespace Archive

instance : Silent directory := by
  unfold directory
  refine .read (fun _ _ => rfl) fun h =>
    .andThen ⟨.tryCatch inferInstance fun fault hf => ?_, inferInstance⟩ fun _ => inferInstance
  split
  · infer_instance
  · exact .throw hf

instance (project : String) (kind : Kind) : Silent (pathOf project kind) := by
  unfold pathOf
  infer_instance

instance (project : String) (kind : Kind) : Silent (load project kind) := by
  unfold load
  refine .andThen inferInstance fun path => .andThen inferInstance fun tree => ?_
  split
  · infer_instance
  · have hopen : Tellable (tree.readText path) := inferInstance
    split
    · next fault hfault =>
      split
      · infer_instance
      · exact ⟨.throw (hopen.not_exit fault hfault), inferInstance⟩
    · next text _ =>
      have hread : Tellable (Json.read text) := inferInstance
      split
      · infer_instance
      · infer_instance
      · next fault _ hfault => exact ⟨.throw (hread.not_exit fault hfault), inferInstance⟩

end Archive

instance (project : String) : Silent (Project.notes project) := by
  unfold Project.notes
  infer_instance

end Outline

/-! ## What an answer is made from -/

namespace Chat

variable (r : Request)

instance (settings : Fields) : Offline (retrieval settings r) := by
  unfold retrieval
  infer_instance

instance (documents : Index.Retrieval) (question : String) :
    Silent (contextFor documents r question) := by
  unfold contextFor
  refine .andThen inferInstance fun found => ?_
  split <;> infer_instance

instance : Silent (fileFor r) := by
  unfold fileFor
  split <;> infer_instance

instance (channel : Channel) : Silent (notesFor channel r) := by
  unfold notesFor
  split <;> infer_instance

instance (channel : Channel) (provider : String) (model : Json) (options : Fields) :
    Remote (Voice.start channel provider model options) := by
  unfold Voice.start
  split
  · infer_instance
  · infer_instance
  · split <;> infer_instance

end Chat

/-! ## What a model is asked with -/

namespace Provider
namespace Image

instance (path : String) : Silent (encode path) := by
  unfold encode
  refine .andThen inferInstance fun tree => ?_
  split <;> infer_instance

instance (source detail : Json) : Silent (content source detail) := by
  unfold content
  split <;> infer_instance

instance (text images detail : Json) : Silent (textWith text images detail) := by
  unfold textWith
  dsimp only
  split <;> infer_instance

instance (name : String) (options : Fields) : Silent (encodeSetting name options) := by
  unfold encodeSetting
  split <;> infer_instance

end Image

instance (c : OpenAI.Client) (input images detail : Json) :
    Silent (c.messagesFor input images detail) := by
  unfold OpenAI.Client.messagesFor
  refine .andThen inferInstance fun parts => ?_
  split <;> infer_instance

instance (c : OpenAI.Client) (input : Json) (options : Fields) (kind : Kind) :
    Silent (c.arguments input options kind) := by
  unfold OpenAI.Client.arguments
  split <;> infer_instance

instance (client : Client) (input : DashScope.Input) (options : Json) (kind : Option Kind) :
    Silent (client.arguments input options kind) := by
  unfold Client.arguments
  refine .andThen inferInstance fun fields => ?_
  dsimp only
  split <;> infer_instance

end Provider

namespace Chat

instance (voice : Voice) (prompt : String) : Silent (voice.arguments prompt) := by
  unfold Voice.arguments
  dsimp only
  split <;> infer_instance

instance (count : String → Nat) (channel : Channel) (settings : Fields) (r : Request)
    (documents : Index.Retrieval) (last : Message) :
    Silent (prompts count channel settings r documents last) := by
  unfold prompts
  dsimp only
  infer_instance

instance (channel : Channel) (settings : Fields) (r : Request) :
    Silent (prepare channel settings r) := by
  unfold prepare
  refine .andThen inferInstance fun library => .andThen inferInstance fun found => ?_
  split
  · infer_instance
  · split <;> infer_instance

end Chat
end RepoWiki
