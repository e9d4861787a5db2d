import RepoWiki.Proofs.Provider.Vectors
/-
Embedding by the DashScope client, with a call and with a call that waits.

Blank texts and values that are no texts are not sent. The vectors that come back are put where
their texts were, and the other places get zeros, as many as the first vector has values
(`assembled`). If the reply shows no vector the two ways of calling take different lengths for the
zeros. No embeddings come of it either way (`refill_nil`), only the reason that is told can differ.
-/

namespace RepoWiki.Provider.DashScope

open Fields Json List Option Run Service

open Batch (settled)

variable {reply : Json} {e : Embeddings} {texts : List Json} {fault : Fault} {h k : Host}
  {arguments : Fields}

/-! ## Places without a vector -/

section

variable {dimension : Option Nat} {i : Nat} {t : Json} {texts : List Json}

theorem refill_missing (ht : isUsable t = true) :
    refill dimension i (t :: texts) [] = .error (.index "list") := by
  simp [refill, ht]

theorem refill_found (ht : isUsable t = true) (e : Embedded) (found : List Embedded) :
    refill dimension i (t :: texts) (e :: found) =
      (refill dimension (i + 1) texts found).map (e :: ·) := by
  rw [refill.eq_def]
  simp only [ht, if_true]
  cases refill dimension (i + 1) texts found <;> rfl

theorem refill_unknown (ht : isUsable t = false) (found : List Embedded) :
    refill none i (t :: texts) found =
      .error (.operation "can't multiply sequence by non-int of type 'NoneType'") := by
  simp [refill, ht]

theorem refill_zeros (ht : isUsable t = false) (n : Nat) (found : List Embedded) :
    refill (some n) i (t :: texts) found =
      (refill (some n) (i + 1) texts found).map (.vector (zeros n) (.nat i) :: ·) := by
  rw [refill.eq_def]
  simp only [ht, Bool.false_eq_true, if_false]
  cases refill (some n) (i + 1) texts found <;> rfl

theorem refill_fault {found : List Embedded} (h : refill dimension i texts found = .error fault) :
    isExit fault = false := by
  induction texts generalizing i found with
  | nil => simp [refill] at h
  | cons t texts ih =>
    cases ht : isUsable t with
    | true =>
      cases found with
      | nil =>
        rw [refill_missing ht, Except.error.injEq] at h
        rw [← h]
        rfl
      | cons e found =>
        rw [refill_found ht, except_map_eq_error] at h
        exact ih h
    | false =>
      cases dimension with
      | none =>
        rw [refill_unknown ht, Except.error.injEq] at h
        rw [← h]
        rfl
      | some n =>
        rw [refill_zeros ht, except_map_eq_error] at h
        exact ih h

theorem refill_nil (dimension : Option Nat) (i : Nat) (h : ∃ t ∈ texts, isUsable t = true) :
    ∃ fault, refill dimension i texts [] = .error fault := by
  induction texts generalizing i with
  | nil => simp at h
  | cons t texts ih =>
    cases ht : isUsable t with
    | true => exact ⟨_, refill_missing ht⟩
    | false =>
      cases dimension with
      | none => exact ⟨_, refill_unknown ht []⟩
      | some n =>
        obtain ⟨fault, hfault⟩ := ih (i + 1) (by simpa [ht] using h)
        exact ⟨fault, by rw [refill_zeros ht, hfault, Except.map]⟩

end

/-! ## What a reply tells -/

/-- A reply off which at least one vector can be read. The first vector has a length. -/
def Tells (read : VectorReader) (reply : Json) : Prop :=
  ∃ values index rest n, read reply = .ok ((values, index) :: rest) ∧ Record.size values = .ok n

variable {read : VectorReader}

theorem dimension?_of_tells (h : Tells read reply) :
    ∃ n, dimension? (parseEmbeddings read reply) = some n := by
  obtain ⟨values, index, rest, n, hread, hsize⟩ := h
  have hmeasured : measured read reply = .ok ((values, index) :: rest) := by
    rw [measured, hread, ok_bind]
    dsimp only
    rw [hsize]
    rfl
  refine ⟨n, ?_⟩
  rw [parseEmbeddings, Provider.parseEmbeddings, hmeasured]
  change (Record.size values).toOption = some n
  rw [hsize]
  rfl

theorem size_of_measured {values index : Json} {rest : List (Json × Json)}
    (h : measured read reply = .ok ((values, index) :: rest)) :
    ∃ n, Record.size values = .ok n := by
  obtain ⟨found, -, h⟩ := except_bind_eq_ok.1 h
  split at h
  · cases h
  · obtain ⟨n, hsize, h⟩ := except_bind_eq_ok.1 h
    cases except_pure_eq_ok.1 h
    cases hvalues : Record.size values with
    | ok n => exact ⟨n, rfl⟩
    | error fault => rw [hvalues] at hsize; cases hsize

theorem data_of_dimension?_eq_none (h : dimension? (parseEmbeddings read reply) = none) :
    (parseEmbeddings read reply).data = some [] := by
  rw [parseEmbeddings, Provider.parseEmbeddings] at h ⊢
  cases hread : measured read reply with
  | error message => rfl
  | ok found =>
    rw [hread] at h
    cases found with
    | nil => rfl
    | cons e rest =>
      obtain ⟨n, hsize⟩ := size_of_measured hread
      change (Record.size e.1).toOption = none at h
      rw [hsize] at h
      cases h

/-! ## What is made of a reply -/

/-- What a call makes of the reply to the usable ones of some texts. -/
def assembled (read : VectorReader) (fallback : Option Nat) (texts : List Json) (reply : Json) :
    Result Embeddings :=
  if (texts.filter isUsable).length = texts.length then .ok (parseEmbeddings read reply)
  else
    (refill ((dimension? (parseEmbeddings read reply)).or fallback) 0 texts
      ((parseEmbeddings read reply).data.getD [])).map fun data =>
        { data := some data, raw := (parseEmbeddings read reply).raw }

theorem assembled_fault {fallback : Option Nat}
    (h : assembled read fallback texts reply = .error fault) : isExit fault = false := by
  rw [assembled] at h
  split at h
  · simp at h
  · exact refill_fault (except_map_eq_error.1 h)

theorem assembled_cases (husable : ∃ t ∈ texts, isUsable t = true) (reply : Json) :
    (∀ f g, assembled read f texts reply = assembled read g texts reply) ∨
      ¬Tells read reply ∧ (∃ t ∈ texts, isUsable t = false) ∧
        ∀ f, ∃ fault, assembled read f texts reply = .error fault := by
  by_cases hall : (texts.filter isUsable).length = texts.length
  · exact .inl fun f g => by rw [assembled, assembled, if_pos hall, if_pos hall]
  · cases hdimension : dimension? (parseEmbeddings read reply) with
    | some n =>
      refine .inl fun f g => ?_
      rw [assembled, assembled, if_neg hall, if_neg hall, hdimension, some_or, some_or]
    | none =>
      refine .inr ⟨fun htells => ?_, ?_, fun f => ?_⟩
      · obtain ⟨n, hn⟩ := dimension?_of_tells htells
        rw [hdimension] at hn
        nomatch hn
      · refine Classical.byContradiction fun hnone => hall ?_
        have hfilter : texts.filter isUsable = texts := by
          refine filter_eq_self.2 fun t ht => ?_
          cases husable : isUsable t with
          | true => rfl
          | false => exact absurd ⟨t, ht, husable⟩ hnone
        rw [hfilter]
      · obtain ⟨fault, hfault⟩ := refill_nil f 0 husable
        refine ⟨fault, ?_⟩
        rw [assembled, if_neg hall, hdimension, data_of_dimension?_eq_none hdimension,
          none_or, getD_some, hfault, Except.map]

/-! ## Calls -/

def textsOf : Json → Option (List Json)
  | .arr texts => some texts
  | .str s => some [.str s]
  | _ => none

def asking (arguments : Fields) (texts : List Json) : Run Json :=
  ask "embeddings" (Fields.set "input" (.arr (texts.filter isUsable)) arguments)

theorem reply_fault (hr : Service.reply.on h = (.error fault, k)) :
    isExit fault = false := by
  rw [Service.reply, on_get_bind] at hr
  split at hr
  · rw [on_throw, Prod.mk.injEq, Except.error.injEq] at hr
    rw [← hr.1]
    rfl
  · rw [on_modify_bind] at hr
    split at hr
    · rw [on_throw, Prod.mk.injEq, Except.error.injEq] at hr
      rw [← hr.1]
      rfl
    · rw [on_pure] at hr
      cases hr

theorem reply_eq_ok (hr : Service.reply.on h = (.ok reply, k)) :
    h.model.head? = some reply := by
  rw [Service.reply, on_get_bind] at hr
  split at hr
  · rw [on_throw] at hr
    cases hr
  · next hmodel =>
    rw [on_modify_bind] at hr
    split at hr
    · rw [on_throw] at hr
      cases hr
    · replace hr := pure_eq_ok hr
      rw [hmodel, head?_cons, hr.1]

theorem asking_on (arguments : Fields) (texts : List Json) (h : Host) :
    ∃ calls, (asking arguments texts).on h = Service.reply.on { h with calls } := by
  rw [asking, Service.ask, note, on_modify_bind]
  exact ⟨_, rfl⟩

theorem asking_replied {rest : List Json} (hmodel : h.model = reply :: rest)
    (hraise : reply.field? "raise" = none) (arguments : Fields) (texts : List Json) :
    (asking arguments texts).on h =
      (.ok reply,
        { h with
          model := rest
          calls := h.calls ++
            [⟨"embeddings",
              .obj (set "input" (.arr (texts.filter isUsable)) arguments)⟩] }) := by
  rw [asking, Service.ask, note, on_modify_bind, Service.reply, on_get_bind]
  simp only [hmodel]
  rw [on_modify_bind, hraise]
  exact on_pure _ _

theorem asking_told {rest : List Json} (hmodel : h.model = reply :: rest)
    (hraise : reply.field? "raise" = none) (arguments : Fields) (texts : List Json) :
    ∃ k, (asking arguments texts).on h = (.ok reply, k) :=
  ⟨_, asking_replied hmodel hraise arguments texts⟩

theorem asking_fault (ha : (asking arguments texts).on h = (.error fault, k)) :
    isExit fault = false := by
  obtain ⟨calls, hon⟩ := asking_on arguments texts h
  exact reply_fault (hon.symm.trans ha)

def assembling (fallback : Option Nat) (arguments : Fields) (texts : List Json) :
    Run Embeddings := do
  let library ← Run.library
  let reply ← asking arguments texts
  let found := parseEmbeddings library.read reply
  if (texts.filter isUsable).length = texts.length then return found
  let dimension := (dimension? found).or fallback
  let data ← lift (refill dimension 0 texts (found.data.getD []))
  return { data := some data, raw := found.raw }

theorem assembling_on (fallback : Option Nat) (arguments : Fields) (texts : List Json) (h : Host) :
    (assembling fallback arguments texts).on h =
      (((asking arguments texts).on h).1 >>= assembled h.library.read fallback texts,
        ((asking arguments texts).on h).2) := by
  rw [assembling, on_bind_ok (on_library h)]
  rcases hask : (asking arguments texts).on h with ⟨fault | reply, k⟩
  · rw [on_bind_error hask]
    rfl
  · rw [on_bind_ok hask, ok_bind, assembled]
    dsimp only
    split
    · rw [on_pure]
    · rw [on_lift_bind]
      cases refill ((dimension? (parseEmbeddings h.library.read reply)).or fallback) 0 texts
          ((parseEmbeddings h.library.read reply).data.getD []) with
      | error fault => rfl
      | ok data => rw [next_ok, on_pure, Except.map]

theorem assembling_fault {fallback : Option Nat}
    (ha : (assembling fallback arguments texts).on h = (.error fault, k)) :
    isExit fault = false := by
  rw [assembling_on] at ha
  rcases hask : (asking arguments texts).on h with ⟨problem | reply, l⟩
  · rw [hask] at ha
    exact Except.error.inj (Prod.mk.inj ha).1 ▸ asking_fault hask
  · rw [hask] at ha
    exact assembled_fault (Prod.mk.inj ha).1

theorem embed_on {input : Json} (hinput : get? "input" arguments = some input)
    (htexts : textsOf input = some texts) (htruthy : input.truthy = true) (fallback : Option Nat)
    (h : Host) :
    (embed fallback arguments).on h =
      if (texts.filter isUsable).isEmpty then
        (.ok (.failed "No valid texts found after filtering"), h)
      else
        (orElse (assembling fallback arguments texts)
          fun fault => return .failed fault.message).on h := by
  simp only [embed, hinput, getD_some, htruthy, Bool.not_true, if_neg Bool.false_ne_true]
  cases input with
  | arr items =>
    obtain rfl := Option.some.inj htexts
    dsimp only
    rw [on_lift_bind, elements, next_ok]
    split
    · rw [on_pure]
    · rfl
  | str s =>
    obtain rfl := Option.some.inj htexts
    dsimp only
    rw [on_pure_bind]
    split
    · rw [on_pure]
    · rfl
  | _ => cases htexts

theorem truthy_of_usable {input : Json} (htexts : textsOf input = some texts)
    (husable : ∃ t ∈ texts, isUsable t = true) : input.truthy = true := by
  obtain ⟨t, ht, husable⟩ := husable
  cases input with
  | arr items =>
    obtain rfl := Option.some.inj htexts
    rw [truthy, isEmpty_eq_false_iff_exists_mem.2 ⟨t, ht⟩, Bool.not_false]
  | str s =>
    obtain rfl := Option.some.inj htexts
    rw [mem_singleton.1 ht] at husable
    rw [truthy, decide_eq_true_eq]
    rintro rfl
    exact absurd husable (by decide)
  | _ => nomatch htexts

theorem embed_of_usable (hinput : (get? "input" arguments).bind textsOf = some texts)
    (husable : ∃ t ∈ texts, isUsable t = true) (fallback : Option Nat) (h : Host) :
    (embed fallback arguments).on h =
      (.ok (settled
        (((asking arguments texts).on h).1 >>= assembled h.library.read fallback texts)),
        ((asking arguments texts).on h).2) := by
  obtain ⟨input, hget, htexts⟩ := bind_eq_some_iff.1 hinput
  have hempty : ¬(texts.filter isUsable).isEmpty = true := by
    obtain ⟨t, ht⟩ := husable
    rw [Bool.not_eq_true]
    exact isEmpty_eq_false_iff_exists_mem.2 ⟨t, mem_filter.2 ht⟩
  rw [embed_on hget htexts (truthy_of_usable htexts husable), if_neg hempty]
  have hstep := assembling_on fallback arguments texts h
  cases hresult : ((asking arguments texts).on h).1 >>= assembled h.library.read fallback texts with
  | ok e =>
    rw [hresult] at hstep
    exact on_orElse_ok hstep _
  | error fault =>
    rw [hresult] at hstep
    rw [on_orElse_error hstep (assembling_fault hstep), on_pure]
    rfl

theorem embed_of_unusable (hinput : (get? "input" arguments).bind textsOf = some texts)
    (hnone : ¬∃ t ∈ texts, isUsable t = true) (h : Host) :
    ∃ message, ∀ fallback, (embed fallback arguments).on h = (.ok (.failed message), h) := by
  obtain ⟨input, hget, htexts⟩ := bind_eq_some_iff.1 hinput
  cases htruthy : input.truthy with
  | false =>
    refine ⟨"No input texts provided", fun fallback => ?_⟩
    simp only [embed, hget, getD_some, htruthy, Bool.not_false, if_true]
    rw [on_pure]
  | true =>
    have hempty : (texts.filter isUsable).isEmpty = true := by
      rw [List.isEmpty_iff, List.filter_eq_nil_iff]
      exact fun t ht husable => hnone ⟨t, ht, husable⟩
    refine ⟨"No valid texts found after filtering", fun fallback => ?_⟩
    rw [embed_on hget htexts htruthy, if_pos hempty]

/-- Two results with the same data, which both tell an error or both do not. -/
structure Alike (a b : Embeddings) : Prop where
  data : a.data = b.data
  error : a.error.isSome = b.error.isSome

theorem Alike.of_eq {a b : Embeddings} (h : a = b) : Alike a b :=
  h ▸ ⟨rfl, rfl⟩

/-- Whatever is fallen back on, the same is embedded. Where the reply tells embeddings, or all texts
were sent, there is no difference at all. -/
theorem embed_alike (hinput : (get? "input" arguments).bind textsOf = some texts)
    (h : Host) (f g : Option Nat) :
    ∃ a b k, (embed f arguments).on h = (.ok a, k) ∧ (embed g arguments).on h = (.ok b, k) ∧
      Alike a b ∧
      ((∀ t ∈ texts, isUsable t = true) ∨
          (∃ reply, h.model.head? = some reply ∧ Tells h.library.read reply) →
        a = b) := by
  by_cases husable : ∃ t ∈ texts, isUsable t = true
  case neg =>
    obtain ⟨message, hfailed⟩ := embed_of_unusable hinput husable h
    exact ⟨_, _, h, hfailed f, hfailed g, .of_eq rfl, fun _ => rfl⟩
  have hembed := fun fallback => embed_of_usable hinput husable fallback h
  rcases hask : (asking arguments texts).on h with ⟨fault | reply, k⟩
  · rw [hask] at hembed
    exact ⟨_, _, k, hembed f, hembed g, .of_eq rfl, fun _ => rfl⟩
  · rw [hask] at hembed
    refine ⟨_, _, k, hembed f, hembed g, ?_⟩
    rcases assembled_cases husable reply with hsame | ⟨hsilent, hblank, hfault⟩
    · have hequal : settled (assembled h.library.read f texts reply) =
          settled (assembled h.library.read g texts reply) := by
        rw [hsame f g]
      exact ⟨.of_eq hequal, fun _ => hequal⟩
    · obtain ⟨first, hfirst⟩ := hfault f
      obtain ⟨second, hsecond⟩ := hfault g
      rw [ok_bind, ok_bind, hfirst, hsecond]
      refine ⟨⟨rfl, rfl⟩, ?_⟩
      rintro (hall | ⟨told, hhead, htells⟩)
      · obtain ⟨t, ht, hunusable⟩ := hblank
        rw [hall t ht] at hunusable
        nomatch hunusable
      · obtain ⟨calls, hon⟩ := asking_on arguments texts h
        have hreply := reply_eq_ok (hon.symm.trans hask)
        rw [show h.model.head? = some reply from hreply, Option.some.injEq] at hhead
        exact absurd (hhead ▸ htells) hsilent

def valueOf (h : Host) (name : String) : Option String :=
  (h.env.find? fun e => e.1 == name).map (·.2)

/-- A client that finds its key, in its settings or in the environment. Its address and the name
of the variable for its workspace are texts. -/
structure Ready (client : Client) (h : Host) : Prop where
  key : client.key.truthy = true ∨
    ∃ name value, client.keyName = .str name ∧ valueOf h name = some value ∧ value ≠ ""
  workspace : ∃ name, client.workspaceName = .str name
  address : ∃ url, client.baseUrl = .str url

theorem settingOrEnv_given {given : Json} (hgiven : given.truthy = true) (name : Json) (h : Host) :
    (settingOrEnv given name).on h = (.ok given, h) := by
  rw [settingOrEnv, if_pos hgiven, on_pure]

theorem settingOrEnv_named {given : Json} (hgiven : ¬given.truthy = true) (name : String)
    (h : Host) :
    (settingOrEnv given (.str name)).on h = (.ok (ofText? (valueOf h name)), h) := by
  have hvalue : (env? name).on h = (.ok (valueOf h name), h) := by
    rw [env?, on_get_bind, on_pure, valueOf]
  rw [settingOrEnv, if_neg hgiven, envNamed, on_bind_ok hvalue, on_pure]

theorem Ready.connection {client : Client} (hr : Ready client h) :
    ∃ c, client.connection.on h = (.ok c, h) := by
  obtain ⟨key, hkey, htruthy⟩ : ∃ key, (settingOrEnv client.key client.keyName).on h =
      (.ok key, h) ∧ key.truthy = true := by
    by_cases hgiven : client.key.truthy = true
    · exact ⟨_, settingOrEnv_given hgiven _ h, hgiven⟩
    · obtain ⟨name, value, hname, hvalue, hne⟩ := hr.key.resolve_left hgiven
      refine ⟨.str value, ?_, ?_⟩
      · rw [hname, settingOrEnv_named hgiven, hvalue]
        rfl
      · simpa [truthy] using hne
  obtain ⟨workspace, hworkspace⟩ : ∃ workspace,
      (settingOrEnv client.workspace client.workspaceName).on h = (.ok workspace, h) := by
    by_cases hgiven : client.workspace.truthy = true
    · exact ⟨_, settingOrEnv_given hgiven _ h⟩
    · obtain ⟨name, hname⟩ := hr.workspace
      exact ⟨_, by rw [hname, settingOrEnv_named hgiven]⟩
  obtain ⟨url, hurl⟩ := hr.address
  rw [Client.connection, on_bind_ok hkey, on_bind_ok hworkspace]
  simp only [htruthy, Bool.not_true, if_neg Bool.false_ne_true, hurl]
  split
  · exact ⟨_, on_pure _ h⟩
  · rw [on_lift_bind, asWord, next_ok, on_pure]
    exact ⟨_, rfl⟩

theorem call_of_embed (he : (embed none arguments).on h = (.ok e, k)) :
    (call arguments .embedder).on h = (.ok (.embeddings e), k) := by
  rw [call, on_bind_ok he, on_pure]

theorem Ready.callLater_of_embed {client : Client} (hr : Ready client h)
    (he : (embed (some usualDimension) arguments).on h = (.ok e, k)) :
    (client.callLater arguments .embedder).on h = (.ok (.embeddings e), k) := by
  obtain ⟨c, hopen⟩ := hr.connection
  rw [Client.callLater, on_bind_ok hopen, on_bind_ok he, on_pure]

/-- A call and a call that waits agree on embeddings, whatever the library reads off a reply. They
return the same data, and tell an error both or neither. They agree in full if all texts were sent,
or if the library reads at least one vector off the reply and the first one has a length. -/
theorem call_alike {client : Client} {h : Host} (hready : Ready client h) {arguments : Fields}
    {texts : List Json} (hinput : (Fields.get? "input" arguments).bind textsOf = some texts) :
    ∃ a b k, (call arguments .embedder).on h = (.ok (.embeddings a), k) ∧
      (client.callLater arguments .embedder).on h = (.ok (.embeddings b), k) ∧
      a.data = b.data ∧ a.error.isSome = b.error.isSome ∧
      ((∀ t ∈ texts, isUsable t = true) ∨
          (∃ reply, h.model.head? = some reply ∧ Tells h.library.read reply) →
        a = b) := by
  obtain ⟨a, b, k, hnow, hlater, halike, hequal⟩ := embed_alike hinput h none (some usualDimension)
  exact ⟨a, b, k, call_of_embed hnow, hready.callLater_of_embed hlater, halike.data, halike.error,
    hequal⟩

def keyed : Client :=
  ⟨.str "k", .str "DASHSCOPE_API_KEY", .null, .str "DASHSCOPE_WORKSPACE_ID", .str defaultUrl,
    .str "text"⟩

theorem keyed_ready (h : Host) : Ready keyed h :=
  ⟨.inl rfl, ⟨_, rfl⟩, ⟨_, rfl⟩⟩

def replying (reply : Json) : Host :=
  { tree := { cwd := "/", entries := [] }, model := [reply] }

def embedding (texts : List Json) : Fields :=
  [("model", .str "e"), ("input", .arr texts)]

def oneVector : Json :=
  .obj [("data", .arr [.obj [("embedding", .arr [.int 1]), ("index", .int 0)]])]

/-- A blank text and a value that is none stand between texts; the reply has one vector too few. -/
theorem call_alike_short :
    ∃ a b k, (call (embedding [.str " ", .str "a", .null, .str "b"]) .embedder).on
        (replying oneVector) = (.ok (.embeddings a), k) ∧
      (keyed.callLater (embedding [.str " ", .str "a", .null, .str "b"]) .embedder).on
        (replying oneVector) = (.ok (.embeddings b), k) ∧ a = b := by
  have hinput : (Fields.get? "input" (embedding [.str " ", .str "a", .null, .str "b"])).bind
      textsOf = some [.str " ", .str "a", .null, .str "b"] := rfl
  obtain ⟨a, b, k, hnow, hlater, -, -, hequal⟩ :=
    call_alike (keyed_ready (replying oneVector)) hinput
  exact ⟨a, b, k, hnow, hlater, hequal (.inr ⟨oneVector, rfl, _, _, [], 1, rfl, rfl⟩)⟩

def halfTold : Json :=
  .obj [("data", .arr [.obj [("embedding", .arr [.int 1]), ("index", .int 0)],
    .obj [("index", .int 1)]])]

/-- A reply with a broken entry is read as one without vectors, whatever else it holds. If the first
text is blank the two calls then tell different errors. -/
theorem errors_differ :
    ∃ a b k, (call (embedding [.str "", .str "a", .str "b"]) .embedder).on (replying halfTold) =
        (.ok (.embeddings a), k) ∧
      (keyed.callLater (embedding [.str "", .str "a", .str "b"]) .embedder).on
        (replying halfTold) = (.ok (.embeddings b), k) ∧
      a.error = some "can't multiply sequence by non-int of type 'NoneType'" ∧
      b.error = some "list index out of range" := by
  have hinput : (Fields.get? "input" (embedding [.str "", .str "a", .str "b"])).bind textsOf =
      some [.str "", .str "a", .str "b"] := rfl
  have husable : ∃ t ∈ [str "", .str "a", .str "b"], isUsable t = true :=
    ⟨.str "a", by simp, by decide⟩
  have hembed := fun fallback => embed_of_usable hinput husable fallback (replying halfTold)
  have hmodel : (replying halfTold).model = [halfTold] := rfl
  obtain ⟨k, hask⟩ := asking_told hmodel rfl (embedding [.str "", .str "a", .str "b"])
    [.str "", .str "a", .str "b"]
  have hblank : isUsable (.str "") = false := by decide
  have hfilter : ¬([str "", .str "a", .str "b"].filter isUsable).length =
      [str "", .str "a", .str "b"].length := by decide
  have hdimension : dimension? (parseEmbeddings (replying halfTold).library.read halfTold) = none :=
    rfl
  have hnone := data_of_dimension?_eq_none hdimension
  simp only [hask, ok_bind] at hembed
  refine ⟨_, _, _, call_of_embed (hembed none),
    (keyed_ready _).callLater_of_embed (hembed (some usualDimension)), ?_, ?_⟩
  · rw [assembled, if_neg hfilter, hdimension, Option.none_or, refill_unknown hblank]
    rfl
  · rw [assembled, if_neg hfilter, hdimension, hnone, Option.none_or, refill_zeros hblank,
      Option.getD_some, refill_missing (by decide)]
    decide

end RepoWiki.Provider.DashScope
