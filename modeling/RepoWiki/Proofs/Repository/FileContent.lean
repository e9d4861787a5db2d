import RepoWiki.Proofs.Json.Reading
import RepoWiki.Proofs.Offline
import RepoWiki.Proofs.Text.Base64
import RepoWiki.Proofs.Text.Occurrence
import RepoWiki.Proofs.Utf8
/-
The content of a file as its host sends it, and as it is handed on.

From one kind of host it comes in sixty-four characters, on as many lines as the host likes, and is
decoded again (`GitHub.fileContent_decoded`). From another it comes as it is. There a text that
looks like a message of the host is taken for one, and every other text is handed on
(`GitLab.fileContent_verbatim`).
-/

namespace RepoWiki

open Fields Json List Run Text Text.Utf8 Web

/-! ## Requests -/

namespace Web

def asked (url : String) (headers : Fields) : Call :=
  ⟨"GET", .obj [("url", .str url), ("headers", .obj headers)]⟩

def outcome (url : String) : List WebReply → Result Response
  | [] => .error (.request .failed "no scripted response")
  | .answer status reason body value? :: _ => .ok ⟨url, status, reason, body, value?⟩
  | .failure _ text :: _ => .error (.request .failed text)

def after (url : String) (headers : Fields) (h : Host) : Host :=
  { h with web := h.web.tail, calls := h.calls ++ [asked url headers] }

theorem on_fetch (url : String) (headers : Fields) (h : Host) :
    (fetch url headers).on h = (outcome url h.web, after url headers h) := by
  rw [fetch, on_bind_ok (on_note _ _ h), on_bind, reply, on_get_bind]
  dsimp only
  cases hweb : h.web with
  | nil => simp [outcome, after, asked, hweb]
  | cons r rest => cases r <;> simp [outcome, after, asked, hweb, -bind_pure_comp]

theorem fetch_bind_host {α : Type} {step : Response → Run α}
    (hstep : ∀ response k, ((step response).on k).2 = k) (url : String)
    (headers : Fields) (h : Host) :
    ((fetch url headers >>= step).on h).2 = after url headers h := by
  rw [on_bind, on_fetch]
  cases outcome url h.web with
  | error fault => rfl
  | ok response => exact hstep response _

theorem Response.text_of_bytes {r : Response} {s : String}
    (h : r.content.bytes = encode s) : r.text = s := by
  unfold Response.text
  cases hc : r.content with
  | text t =>
    rw [hc] at h
    exact encode_inj h
  | octets bs =>
    rw [hc] at h
    dsimp only
    rw [h, decodeLossy_encode, String.ofList_toList]
  | value v =>
    rw [hc] at h
    dsimp only
    rw [h, decodeLossy_encode, String.ofList_toList]

end Web

namespace Repository

section

variable {α : Type} (lead : String) {step : Run α} {h k : Host}

theorem on_wrapFaults_ok {a : α} (hs : step.on h = (.ok a, k)) :
    (wrapFaults lead step).on h = (.ok a, k) :=
  on_orElse_ok hs _

theorem on_wrapFaults_error [hlast : Lasting step] {fault : Fault}
    (hs : step.on h = (.error fault, k)) :
    (wrapFaults lead step).on h = (.error (.value (lead ++ fault.message)), k) := by
  have hexit := (hlast.tellable h).not_exit fault (congrArg Prod.fst hs)
  rw [wrapFaults, on_orElse_error hs hexit, on_throw]

theorem on_wrapRequestFaults_ok {a : α} (hs : step.on h = (.ok a, k)) :
    (wrapRequestFaults lead step).on h = (.ok a, k) := by
  rw [wrapRequestFaults, on_tryCatch, hs, mended]

theorem wrapRequestFaults_host : ((wrapRequestFaults lead step).on h).2 = (step.on h).2 := by
  rw [wrapRequestFaults, on_tryCatch]
  rcases step.on h with ⟨fault | a, k⟩
  · rw [mended, on_throw]
  · rw [mended]

theorem on_answered {β : Type} {reason : String} {body : Content} {value? : Option Json}
    {rest : List WebReply} (hweb : h.web = .answer 200 reason body value? :: rest) (url : String)
    (headers : Fields) (f : Web.Response → β) :
    (wrapRequestFaults lead do
      let response ← fetch url headers
      lift response.check
      return f response).on h =
      (.ok (f ⟨url, 200, reason, body, value?⟩), after url headers h) := by
  have hfetch := on_fetch url headers h
  rw [hweb, outcome] at hfetch
  have hcheck : (Web.Response.mk url 200 reason body value?).check = .ok () := by
    simp [Web.Response.check]
  apply on_wrapRequestFaults_ok
  rw [on_bind_ok hfetch, hcheck, on_lift_bind, next_ok, on_pure]

theorem wrapFaults_host [Lasting step] : ((wrapFaults lead step).on h).2 = (step.on h).2 := by
  rcases hs : step.on h with ⟨fault | a, k⟩
  · rw [on_wrapFaults_error lead hs]
  · rw [on_wrapFaults_ok lead hs]

end

theorem eq_ok_of_toOption {α : Type} {r : Result α} {a : α}
    (h : r.toOption = some a) : r = .ok a := by
  cases r with
  | error fault => cases h
  | ok b => exact congrArg Except.ok (Option.some.inj h)

/-! ## Content in sixty-four characters -/

namespace GitHub

theorem filter_intercalate {p : Char → Bool} {sep : List Char} (hsep : ∀ c ∈ sep, p c = false)
    (lines : List (List Char)) : (sep.intercalate lines).filter p = lines.flatten.filter p := by
  have hnone : sep.filter p = [] := by
    rw [filter_eq_nil_iff]
    intro c hc
    rw [hsep c hc]
    exact Bool.false_ne_true
  induction lines with
  | nil => rfl
  | cons line lines ih =>
    cases lines with
    | nil => simp
    | cons next lines =>
      rw [flatten_cons, filter_append, intercalate_cons_cons, filter_append,
        filter_append, hnone, ih, append_nil]

theorem decodeContent_lines {t : String} {lines : List String}
    (hlines : join "" lines = String.ofList (Text.Base64.encode (encode t))) :
    decodeContent (.str (join "\n" lines)) = .ok t := by
  have hplain := Text.Base64.encode_plain (encode t)
  have hwhole : (join "\n" lines).toList.filter (· != '\n') =
      Text.Base64.encode (encode t) := by
    have hkept : (Text.Base64.encode (encode t)).filter (· != '\n') =
        Text.Base64.encode (encode t) :=
      filter_eq_self.2 fun c hc => bne_iff_ne.2 (hplain c hc).2
    have hone := congrArg String.toList hlines
    rw [join, String.toList_intercalate, String.toList_empty, String.toList_ofList] at hone
    rw [← hkept, ← hone, join, String.toList_intercalate, filter_intercalate (by simp),
      filter_intercalate (by simp)]
  have hsmall :
      ((Text.Base64.encode (encode t)).any fun c => 0x80 ≤ c.toNat) = false := by
    rw [any_eq_false]
    intro c hc
    have := (hplain c hc).1
    simpa using this
  rw [decodeContent, asWord]
  dsimp only
  rw [hwhole, hsmall, if_neg Bool.false_ne_true,
    Text.Base64.decode_encode fun b hb => lt_of_mem_encode hb]
  dsimp only
  rw [decode_encode]
  dsimp only
  rw [String.ofList_toList]

theorem textOf_content {fields : Fields} {content : Json}
    (hcontent : fields.get? "content" = some content)
    (hencoding : fields.get? "encoding" = some (.str "base64"))
    (hmessage : ¬(fields.has "message" = true ∧ fields.has "documentation_url" = true)) :
    textOf (.obj fields) = decodeContent content := by
  have hboth : (fields.has "message" && fields.has "documentation_url") = false := by
    rw [← Bool.not_eq_true, Bool.and_eq_true]
    exact hmessage
  have hhas : (fields.has "content" && fields.has "encoding") = true := by
    rw [has, has, hcontent, hencoding]
    rfl
  have hsame : (str "base64").same (.str "base64") = true := by simp [same]
  simp only [textOf, holds, item, hcontent, hencoding, ok_bind]
  rw [hboth, if_neg Bool.false_ne_true, hhas, if_pos rfl, hsame, if_pos rfl]

/-- The text of a file comes back from its written form, on whatever lines the host sends it. -/
theorem fileContent_decoded {repository path : Json} {url t reason : String} {lines : List String}
    {body : Content} {value? : Option Json} {rest : List WebReply} {fields : Fields} {h : Host}
    (hlines : Text.join "" lines = String.ofList (Text.Base64.encode (encode t)))
    (hurl : contentUrl repository path = .ok url)
    (hweb : h.web = .answer 200 reason body value? :: rest)
    (hjson : (Web.Response.mk url 200 reason body value?).json = .ok (.obj fields))
    (hcontent : fields.get? "content" = some (.str (Text.join "\n" lines)))
    (hencoding : fields.get? "encoding" = some (.str "base64"))
    (hmessage : ¬(fields.has "message" = true ∧ fields.has "documentation_url" = true))
    (token : Json) :
    (fileContent repository path token).on h =
      (.ok t, after url (tokenHeader "Authorization" (tokenAfter "token ") token) h) := by
  apply on_wrapFaults_ok
  rw [hurl, Run.on_lift_bind, Run.next_ok,
    Run.on_bind_ok (on_answered fetchProblem hweb url _ fun response => response)]
  rw [hjson]
  dsimp only
  rw [Run.on_lift, textOf_content hcontent hencoding hmessage, decodeContent_lines hlines]

def foldedAnswer : Fields :=
  [("message", .str "ok"), ("content", .str "4oKs8\nJ+YgA\n==\n"), ("encoding", .str "base64")]

def foldedHost : Host :=
  { tree := { cwd := "/", entries := [] },
    web := [.answer 200 "OK" (.text ((obj foldedAnswer).write .compact)) none] }

theorem read_foldedAnswer :
    read ((obj foldedAnswer).write .compact) = .ok (.obj foldedAnswer) := by
  have hlegible : Json.Legible (984 + 1) (.obj foldedAnswer) := by
    refine .obj (by decide) fun f hf => ?_
    simp only [foldedAnswer, mem_cons, not_mem_nil, or_false] at hf
    rcases hf with rfl | rfl | rfl <;> exact .str _
  exact read_write compact_spaced hlegible

theorem fileContent_decoded_folded :
    ((fileContent (.str "https://github.com/o/r") (.str "a.py") .null).on foldedHost).1 =
      .ok "€😀" := by
  have hlines : Text.join "" ["4oKs8", "J+YgA", "==", ""] =
      String.ofList (Text.Base64.encode (encode "€😀")) := by decide +kernel
  have hcontent : Text.join "\n" ["4oKs8", "J+YgA", "==", ""] = "4oKs8\nJ+YgA\n==\n" := by
    decide +kernel
  have hurl : (contentUrl (.str "https://github.com/o/r") (.str "a.py")).toOption =
      some "https://api.github.com/repos/o/r/contents/a.py" := by decide +kernel
  have hjson : (Web.Response.mk "https://api.github.com/repos/o/r/contents/a.py" 200 "OK"
      (.text ((obj foldedAnswer).write .compact)) none).json = .ok (.obj foldedAnswer) := by
    rw [Web.Response.json, Web.Response.text, read_foldedAnswer]
  have hfound := fileContent_decoded hlines (eq_ok_of_toOption hurl) (h := foldedHost) rfl hjson
    (by rw [hcontent]; rfl) rfl (by decide) .null
  rw [hfound]

end GitHub

/-! ## Content as it is -/

namespace GitLab

/-- A text that is taken for a message of the host. It opens an object and names a message; and it
is read as an object with this field, or there is too much of it to be read. -/
structure TakenForMessage (text : String) : Prop where
  opens : Text.startsWith "\x7b" text = true
  names : Text.hasInfix "\"message\":" text = true
  reads : (∃ fields, read text = .ok (.obj fields) ∧ Fields.has "message" fields = true) ∨
    ∃ fault, read text = .error fault ∧ ∀ problem, fault ≠ .json problem

theorem checkMessage_of_not {text : String} (h : ¬TakenForMessage text) :
    checkMessage text = .ok text := by
  unfold checkMessage
  split
  · next hlook =>
    rw [Bool.and_eq_true] at hlook
    split
    · next answer hread =>
      obtain ⟨fields, rfl⟩ := obj_of_read hlook.1 hread
      have hfree : has "message" fields = false := by
        rw [← Bool.not_eq_true]
        exact fun hhas => h ⟨hlook.1, hlook.2, .inl ⟨fields, hread, hhas⟩⟩
      rw [holds, ok_bind, hfree, if_neg Bool.false_ne_true]
      rfl
    · rfl
    · next fault hother hread =>
      exact absurd ⟨hlook.1, hlook.2, .inr ⟨fault, hread, hother⟩⟩ h
  · rfl

theorem TakenForMessage.checkMessage {text : String} (h : TakenForMessage text) :
    ∃ fault, checkMessage text = .error fault := by
  unfold GitLab.checkMessage
  rw [h.opens, h.names, Bool.and_self, if_pos rfl]
  rcases h.reads with ⟨fields, hread, hhas⟩ | ⟨fault, hread, hother⟩
  · rw [hread]
    dsimp only
    rw [holds, ok_bind, hhas, if_pos rfl]
    cases (obj fields).item "message" with
    | error fault => exact ⟨fault, rfl⟩
    | ok message => exact ⟨_, rfl⟩
  · rw [hread]
    refine ⟨fault, ?_⟩
    cases fault with
    | json problem => exact absurd rfl (hother problem)
    | _ => rfl

theorem on_branch (project : String) (headers : Fields) (h : Host) :
    ∃ found, (branch project headers).on h = (.ok found, after project headers h) := by
  let step (response : Web.Response) : Run Json :=
    if response.status = 200 then
      lift do (← response.json).getD "default_branch" defaultBranch
    else return defaultBranch
  have hbranch : branch project headers =
      orElse (fetch project headers >>= step) fun _ => return defaultBranch := rfl
  have hlasting : Lasting (fetch project headers >>= step) := inferInstance
  have hhost : ((fetch project headers >>= step).on h).2 = after project headers h := by
    apply fetch_bind_host
    intro response k
    rw [on_ite]
    split
    · rw [on_lift]
    · rw [on_pure]
  rw [hbranch]
  rcases hstep : (fetch project headers >>= step).on h with ⟨fault | found, k⟩
  · rw [hstep] at hhost
    have hexit := (hlasting.tellable h).not_exit fault (congrArg Prod.fst hstep)
    exact ⟨defaultBranch, by rw [on_orElse_error hstep hexit, on_pure, ← hhost]⟩
  · rw [hstep] at hhost
    exact ⟨found, by rw [on_orElse_ok hstep, ← hhost]⟩

def rawUrl (project file : String) (branch : Json) : String :=
  project ++ "/repository/files/" ++ Text.Percent.encode file ++ "/raw?ref=" ++ branch.inText

def receive (url : String) (headers : Fields) : Run String := do
  let text ← wrapRequestFaults fetchProblem do
    let response ← fetch url headers
    lift response.check
    return response.text
  lift (checkMessage text)

instance (url : String) (headers : Fields) : Lasting (receive url headers) := by
  unfold receive
  infer_instance

theorem receive_host (url : String) (headers : Fields) (h : Host) :
    ((receive url headers).on h).2 = after url headers h := by
  have hask : ((wrapRequestFaults fetchProblem do
      let response ← fetch url headers
      lift response.check
      return response.text).on h).2 = after url headers h := by
    rw [wrapRequestFaults_host]
    apply fetch_bind_host
    intro response k
    rw [on_lift_bind]
    cases response.check with
    | error fault => rfl
    | ok _ => rw [next_ok, on_pure]
  rw [receive, on_bind]
  rcases hstep : (wrapRequestFaults fetchProblem do
      let response ← fetch url headers
      lift response.check
      return response.text).on h with ⟨fault | text, k⟩
  · rw [hstep] at hask
    exact hask
  · rw [hstep] at hask
    rw [next_ok, on_lift]
    exact hask

section

variable {repository : Json} {project : String} (hproject : projectUrl repository = .ok project)
  (file : String) (token : Json) (h : Host)
include hproject

theorem fileContent_on : ∃ found : Json, (fileContent repository (.str file) token).on h =
    (wrapFaults contentProblem (receive (rawUrl project file found)
      (tokenHeader "PRIVATE-TOKEN" id token))).on
        (after project (tokenHeader "PRIVATE-TOKEN" id token) h) := by
  obtain ⟨found, hfound⟩ := on_branch project (tokenHeader "PRIVATE-TOKEN" id token) h
  refine ⟨found, ?_⟩
  unfold fileContent wrapFaults
  apply on_orElse_congr
  rw [hproject, on_lift_bind, next_ok, encodedPath, on_lift_bind, next_ok, on_bind_ok hfound]
  rfl

theorem fileContent_calls : ∃ found : Json,
    ((fileContent repository (.str file) token).on h).2.calls = h.calls ++
      [Web.asked project (tokenHeader "PRIVATE-TOKEN" id token),
        Web.asked (rawUrl project file found) (tokenHeader "PRIVATE-TOKEN" id token)] := by
  obtain ⟨found, hfound⟩ := fileContent_on hproject file token h
  refine ⟨found, ?_⟩
  rw [hfound, wrapFaults_host, receive_host, Web.after, Web.after, append_assoc]
  rfl

end

/-- A file that is sent as a text is handed on as this text, unless it is taken for a message. Then
it is refused. -/
theorem fileContent_verbatim {repository : Json} {project text reason : String} {first : WebReply}
    {body : Content} {value? : Option Json} {rest : List WebReply} {h : Host}
    (hproject : projectUrl repository = .ok project)
    (hweb : h.web = first :: .answer 200 reason body value? :: rest)
    (hbody : body.bytes = encode text) (file : String) (token : Json) :
    (((fileContent repository (.str file) token).on h).1 = .ok text ↔ ¬TakenForMessage text) ∧
      (TakenForMessage text → ∃ problem, ((fileContent repository (.str file) token).on h).1 =
        .error (.value (contentProblem ++ problem))) := by
  obtain ⟨found, hfound⟩ := fileContent_on hproject file token h
  have hreply : (Web.after project (tokenHeader "PRIVATE-TOKEN" id token) h).web =
      .answer 200 reason body value? :: rest := by
    rw [Web.after, hweb]
    rfl
  have hreceive : ∃ k, (receive (rawUrl project file found)
      (tokenHeader "PRIVATE-TOKEN" id token)).on
        (Web.after project (tokenHeader "PRIVATE-TOKEN" id token) h) = (checkMessage text, k) := by
    rw [receive, Run.on_bind_ok (on_answered fetchProblem hreply _ _ Web.Response.text),
      Web.Response.text_of_bytes hbody, Run.on_lift]
    exact ⟨_, rfl⟩
  obtain ⟨k, hreceive⟩ := hreceive
  rw [hfound]
  by_cases hmessage : TakenForMessage text
  · obtain ⟨fault, hcheck⟩ := hmessage.checkMessage
    rw [hcheck] at hreceive
    rw [on_wrapFaults_error contentProblem hreceive]
    exact ⟨by simp [hmessage], fun _ => ⟨fault.message, rfl⟩⟩
  · rw [checkMessage_of_not hmessage] at hreceive
    rw [on_wrapFaults_ok contentProblem hreceive]
    simp [hmessage]

def sending (text : String) : Host :=
  { tree := { cwd := "/", entries := [] }
    web := [.answer 200 "OK" (.text "\x7b\"default_branch\": \"dev\"\x7d") none,
      .answer 200 "OK" (.text text) none] }

def nested : Fields :=
  [("a", .obj [("message", .str "x")])]

theorem read_nested : read "\x7b\"a\":\x7b\"message\":\"x\"\x7d\x7d" = .ok (.obj nested) := by
  have hwritten : "\x7b\"a\":\x7b\"message\":\"x\"\x7d\x7d" = (obj nested).write .compact := by
    decide +kernel
  have hinner : Json.Legible (983 + 1) (.obj [("message", .str "x")]) :=
    .obj (by decide) (by simp [Json.Legible.str])
  have hlegible : Json.Legible (984 + 1) (.obj nested) :=
    .obj (by decide) (by simpa [nested] using hinner)
  rw [hwritten]
  exact read_write compact_spaced hlegible

/-- A message deeper inside does not make a message of a file. -/
theorem fileContent_verbatim_nested :
    ((fileContent (.str "https://gitlab.com/g/p") (.str "a.json") .null).on
        (sending "\x7b\"a\":\x7b\"message\":\"x\"\x7d\x7d")).1 =
      .ok "\x7b\"a\":\x7b\"message\":\"x\"\x7d\x7d" := by
  have hproject : (projectUrl (.str "https://gitlab.com/g/p")).toOption =
      some "https://gitlab.com/api/v4/projects/g%2Fp" := by decide +kernel
  have hfile : ¬TakenForMessage "\x7b\"a\":\x7b\"message\":\"x\"\x7d\x7d" := by
    intro hmessage
    rcases hmessage.reads with ⟨fields, hread, hhas⟩ | ⟨fault, hread, -⟩
    · rw [read_nested] at hread
      cases hread
      exact absurd hhas (by decide)
    · rw [read_nested] at hread
      cases hread
  exact (fileContent_verbatim (eq_ok_of_toOption hproject) rfl rfl _ _).1.2 hfile

def problem? : Result String → Option String
  | .error (.value problem) => some problem
  | _ => none

/-- A file that is an object with a message is refused, as if the host had sent a message. -/
theorem fileContent_refuses_file :
    problem? ((fileContent (.str "https://gitlab.com/g/p") (.str "a.json") .null).on
        (sending "\x7b\"message\": \"hi\"\x7d")).1 =
      some "Failed to get file content: GitLab API error: hi" := by
  decide +kernel

end GitLab

end Repository
end RepoWiki
