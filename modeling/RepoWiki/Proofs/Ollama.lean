import RepoWiki.Ollama
import RepoWiki.Proofs.Run
/-
Embedding documents one by one.

Each text is asked for by itself. The first vector that has a size sets the size for all, and what
goes wrong with a document before or after it, in whatever way, costs only that document. So the
documents that come out are those whose own vector has the size of the first one (`withOwn?`). All
of this holds as long as something is known about each document that is passed over, since its path
is asked for; where that fails, the whole run does.
-/

namespace RepoWiki.Ollama

open Document List Provider.Embedder Run

open Provider (Embeddings Embedded)

/-! ## The service -/

def asked (h : Host) (texts : List String) : Host :=
  { h with calls := h.calls ++ texts.map fun t => ⟨"embedder", .str t⟩ }

theorem asked_asked (h : Host) (first second : List String) :
    asked (asked h first) second = asked h (first ++ second) := by
  simp [asked]

def replyTo (h : Host) (text : String) : Result Embeddings :=
  ((embed (.str text)).on h).1

def replyOf : Except String (List Embedded) → Embeddings
  | .ok found => { data := some found }
  | .error message => .failed message

theorem embed_on (h : Host) (text : String) :
    (embed (.str text)).on h =
      ((entries h.embeddings 0 [.str text]).map replyOf, asked h [text]) := by
  simp only [embed, note, on_modify_bind, on_get_bind, on_lift_bind]
  rcases entries h.embeddings 0 [.str text] with fault | ⟨message | found⟩
  · rfl
  · simp only [next_ok, on_pure]
    rfl
  · simp only [next_ok, on_pure]
    rfl

theorem replyTo_asked (h : Host) (texts : List String) (text : String) :
    replyTo (asked h texts) text = replyTo h text := by
  rw [replyTo, replyTo, embed_on, embed_on]
  rfl

/-- The vector of the first item in a reply, and its size. There is none in a reply without items,
in one whose first item is no vector or has no size, and where the service failed. -/
def firstVector? : Result Embeddings → Option (Json × Nat)
  | .ok { data := some (.vector v _ :: _), .. } => v.size.toOption.map fun n => (v, n)
  | _ => none

def vectorFor? (h : Host) (text : String) : Option (Json × Nat) :=
  firstVector? (replyTo h text)

theorem vectorFor?_asked (h : Host) (texts : List String) :
    vectorFor? (asked h texts) = vectorFor? h := by
  funext text
  rw [vectorFor?, vectorFor?, replyTo_asked]

def measured (text : String) : Run (Option (Json × Nat)) := do
  match ← vectorOf text with
  | none => return none
  | some vector => return some (vector, ← lift vector.size)

def readingOf : Result Embeddings → Result (Option (Json × Nat))
  | .error fault => .error fault
  | .ok e =>
      match e.data with
      | some (.vector v _ :: _) => v.size.map fun n => some (v, n)
      | some (.bare v :: _) => .error (.attribute v.kindName "embedding")
      | _ => .ok none

theorem measured_on (h : Host) (text : String) :
    (measured text).on h = (readingOf (replyTo h text), asked h [text]) := by
  have hembed : (embed (.str text)).on h = (replyTo h text, asked h [text]) := by
    rw [replyTo, embed_on]
  rw [measured, vectorOf]
  cases hreply : replyTo h text with
  | error fault =>
    rw [hreply] at hembed
    rw [on_bind_error (on_bind_error hembed _), readingOf]
  | ok e =>
    rw [hreply] at hembed
    rw [on_bind, on_bind_ok hembed, readingOf]
    rcases e.data with _ | _ | ⟨v | v, rest⟩
    · simp
    · simp
    · rw [on_pure, next_ok]
      dsimp only
      rw [on_lift_bind]
      cases v.size <;> simp [Except.map]
    · simp

theorem readingOf_eq_ok {r : Result Embeddings} {found : Json × Nat} :
    readingOf r = .ok (some found) ↔ firstVector? r = some found := by
  rcases r with fault | ⟨_ | _ | ⟨v | v, rest⟩, _, _, _⟩
  · simp [readingOf, firstVector?]
  · simp [readingOf, firstVector?]
  · simp [readingOf, firstVector?]
  · rw [readingOf, firstVector?]
    dsimp only
    cases v.size <;> simp [Except.map, Except.toOption]
  · simp [readingOf, firstVector?]

/-! ## One document -/

variable {h : Host} {d : Document}

/-- A document with the vector of its own text, if that is of the given size. -/
def withOwn? (h : Host) (size : Option Nat) (d : Document) : Option Document :=
  match vectorFor? h d.text with
  | some (v, n) => if size = some n then some { d with vector := .value v } else none
  | none => none

def sizeOf? (h : Host) (d : Document) : Option Nat :=
  (vectorFor? h d.text).map (·.2)

theorem withOwn?_of_none (hd : vectorFor? h d.text = none) (size : Option Nat) :
    withOwn? h size d = none := by
  rw [withOwn?, hd]

theorem passOver_on (hd : ∃ fields, d.about = .obj fields) (h : Host) :
    (passOver d).on h = (.ok none, h) := by
  obtain ⟨fields, habout⟩ := hd
  rw [passOver, askPath_of_obj habout, on_lift_bind, next_ok, on_pure]

theorem passOver_fault (hd : ¬∃ fields, d.about = .obj fields) (h : Host) :
    (passOver d).on h = (.error (.attribute d.about.kindName "get"), h) := by
  rw [passOver, askPath_of_not_obj hd, on_lift_bind, next_error]

/-- One step: the size that is expected is set by the first vector that has one. The document gets
its vector, or it is passed over. -/
theorem embedOne_on (expected : Option Nat) (d : Document) (h : Host) :
    (embedOne expected d).on h =
      match withOwn? h (expected.or (sizeOf? h d)) d with
      | some done => (.ok (some done, expected.or (sizeOf? h d)), asked h [d.text])
      | none => (do return (← passOver d, expected.or (sizeOf? h d))).on (asked h [d.text]) := by
  -- Whatever went wrong with the service is a value here; only passing over can fail.
  have hmeasured := on_attempt (measured d.text) h
  rw [measured_on] at hmeasured
  rw [embedOne]
  refine (on_bind_ok hmeasured _).trans ?_
  rw [withOwn?, sizeOf?]
  cases hvector : vectorFor? h d.text with
  | some found =>
    obtain ⟨v, n⟩ := found
    rw [readingOf_eq_ok.2 hvector]
    dsimp only
    cases expected with
    | none => simp
    | some m =>
      by_cases hm : m = n
      · simp [hm]
      · simp [hm]
  | none =>
    have hnothing : ∀ found, readingOf (replyTo h d.text) ≠ .ok (some found) := by
      intro found hfound
      have := readingOf_eq_ok.1 hfound
      rw [vectorFor?] at hvector
      rw [hvector] at this
      cases this
    rcases hreading : readingOf (replyTo h d.text) with fault | ⟨_ | found⟩
    · simp
    · simp
    · exact absurd hreading (hnothing found)

/-! ## All documents -/

def expectedSize? (h : Host) (documents : List Document) : Option Nat :=
  documents.findSome? (sizeOf? h)

def Bearable (h : Host) (size : Option Nat) (d : Document) : Prop :=
  withOwn? h size d = none → ∃ fields, d.about = .obj fields

theorem sizeOf?_asked (h : Host) (texts : List String) : sizeOf? (asked h texts) = sizeOf? h := by
  funext d
  rw [sizeOf?, sizeOf?, vectorFor?_asked]

theorem withOwn?_asked (h : Host) (texts : List String) :
    withOwn? (asked h texts) = withOwn? h := by
  funext size d
  rw [withOwn?, withOwn?, vectorFor?_asked]

theorem expectedSize?_asked (h : Host) (texts : List String) :
    expectedSize? (asked h texts) = expectedSize? h := by
  funext documents
  rw [expectedSize?, expectedSize?, sizeOf?_asked]

theorem expectedSize?_cons (h : Host) (d : Document) (documents : List Document) :
    expectedSize? h (d :: documents) = (sizeOf? h d).or (expectedSize? h documents) := by
  rw [expectedSize?, findSome?_cons]
  cases sizeOf? h d <;> rfl

theorem withOwn?_in_turn (h : Host) (expected later : Option Nat) (d : Document) :
    withOwn? h (expected.or ((sizeOf? h d).or later)) d =
      withOwn? h (expected.or (sizeOf? h d)) d := by
  cases hvector : vectorFor? h d.text with
  | none => rw [withOwn?_of_none hvector, withOwn?_of_none hvector]
  | some found => simp [sizeOf?, hvector]

theorem embedOne_of_bearable {expected : Option Nat}
    (hd : Bearable h (expected.or (sizeOf? h d)) d) :
    (embedOne expected d).on h =
      (.ok (withOwn? h (expected.or (sizeOf? h d)) d, expected.or (sizeOf? h d)),
        asked h [d.text]) := by
  rw [embedOne_on]
  cases hown : withOwn? h (expected.or (sizeOf? h d)) d with
  | some done => rfl
  | none => exact (on_bind_ok (passOver_on (hd hown) _) _).trans (on_pure _ _)

/-- Documents that go well are done with before the others. What the others bring, `later` among it,
does not count for them. -/
theorem embedFrom_append {before : List Document} {expected size later : Option Nat}
    (hsize : size = expected.or ((expectedSize? h before).or later))
    (hbefore : ∀ d ∈ before, Bearable h size d) (rest : List Document) :
    (embedFrom expected (before ++ rest)).on h =
      (do
        let more ← embedFrom (expected.or (expectedSize? h before)) rest
        return before.filterMap (withOwn? h size) ++ more).on
          (asked h (before.map text)) := by
  -- The induction is on the documents that go well, from any expected size and any host.
  induction before generalizing expected h with
  | nil =>
    have hstart : asked h [] = h := by simp [asked]
    simp [expectedSize?, hstart]
  | cons d before ih =>
    rw [expectedSize?_cons, Option.or_assoc] at hsize
    have hown : withOwn? h (expected.or (sizeOf? h d)) d = withOwn? h size d := by
      rw [hsize, withOwn?_in_turn]
    have hd : Bearable h (expected.or (sizeOf? h d)) d := by
      rw [Bearable, hown]
      exact hbefore d mem_cons_self
    have hrest := @ih (asked h [d.text]) (expected.or (sizeOf? h d))
    simp only [expectedSize?_asked, withOwn?_asked, Bearable, asked_asked, Option.or_assoc] at hrest
    have hrest := hrest hsize fun e he => hbefore e (mem_cons_of_mem d he)
    rw [cons_append, embedFrom, on_bind_ok (embedOne_of_bearable hd)]
    dsimp only
    rw [on_bind, hrest, on_bind, on_bind, expectedSize?_cons, map_cons, hown,
      filterMap_cons, singleton_append]
    rcases (embedFrom (expected.or ((sizeOf? h d).or (expectedSize? h before))) rest).on
      (asked h (d.text :: before.map text)) with ⟨fault | more, k⟩
    · rfl
    · cases withOwn? h size d <;> simp

theorem embedDocuments_of_bearable {documents : List Document}
    (hall : ∀ d ∈ documents, Bearable h (expectedSize? h documents) d) :
    (embedDocuments documents).on h =
      (.ok (documents.filterMap (withOwn? h (expectedSize? h documents))),
        asked h (documents.map text)) := by
  have hsize : expectedSize? h documents = none.or ((expectedSize? h documents).or none) := by simp
  have hrun := embedFrom_append hsize hall []
  rw [append_nil] at hrun
  rw [embedDocuments, hrun, embedFrom, on_pure_bind, on_pure, append_nil]

theorem embedDocuments_of_not_bearable {before after : List Document}
    (hbefore : ∀ e ∈ before, Bearable h (expectedSize? h (before ++ d :: after)) e)
    (hd : ¬Bearable h (expectedSize? h (before ++ d :: after)) d) :
    (embedDocuments (before ++ d :: after)).on h =
      (.error (.attribute d.about.kindName "get"),
        asked h (before.map text ++ [d.text])) := by
  have hsize : expectedSize? h (before ++ d :: after) =
      none.or ((expectedSize? h before).or (expectedSize? h (d :: after))) := by
    rw [expectedSize?, findSome?_append]
    rfl
  obtain ⟨hown, hunknown⟩ := Classical.not_imp.1 hd
  rw [hsize, expectedSize?_cons, ← Option.or_assoc, Option.none_or, withOwn?_in_turn] at hown
  have hstep : (embedOne (expectedSize? h before) d).on (asked h (before.map text)) =
      (.error (.attribute d.about.kindName "get"),
        asked h (before.map text ++ [d.text])) := by
    rw [embedOne_on, sizeOf?_asked, withOwn?_asked, hown, asked_asked]
    exact on_bind_error (passOver_fault hunknown _) _
  rw [embedDocuments, embedFrom_append hsize hbefore, embedFrom, Option.none_or]
  exact on_bind_error (on_bind_error hstep _) _

/-- Documents come out in their order, with the vectors of their own texts, if these have the size
of the first vector that has one. This is so whenever something is known about each of the others;
otherwise the first of them about which nothing is known ends it all with a fault. -/
theorem embedDocuments_outcome (documents : List Document) (h : Host) :
    (∀ d ∈ documents, Bearable h (expectedSize? h documents) d) ∧
      (embedDocuments documents).on h =
        (.ok (documents.filterMap (withOwn? h (expectedSize? h documents))),
          asked h (documents.map text)) ∨
    ∃ before d after, documents = before ++ d :: after ∧
      (∀ e ∈ before, Bearable h (expectedSize? h documents) e) ∧
      ¬Bearable h (expectedSize? h documents) d ∧
      (embedDocuments documents).on h =
        (.error (.attribute d.about.kindName "get"),
          asked h (before.map text ++ [d.text])) := by
  classical
  cases hfirst : documents.find? fun d => ¬Bearable h (expectedSize? h documents) d with
  | none =>
    have hall : ∀ d ∈ documents, Bearable h (expectedSize? h documents) d := by
      simpa using hfirst
    exact .inl ⟨hall, embedDocuments_of_bearable hall⟩
  | some d =>
    obtain ⟨hd, before, after, hsplit, hbefore⟩ := List.find?_eq_some_iff_append.1 hfirst
    have hd : ¬Bearable h (expectedSize? h documents) d := of_decide_eq_true hd
    have hbefore : ∀ e ∈ before, Bearable h (expectedSize? h documents) e := by
      simpa using hbefore
    subst hsplit
    exact .inr ⟨before, d, after, rfl, hbefore, hd, embedDocuments_of_not_bearable hbefore hd⟩

def forgetful : Host :=
  { tree := { cwd := "/", entries := [] }, embeddings := [("a", .null)] }

/-- A document without a vector, about which nothing is known, takes one with it that has a
vector. -/
theorem unknown_document_ends_all :
    withOwn? forgetful (expectedSize? forgetful [{ text := "a" }, { text := "b" }])
        { text := "b" } = some ⟨"b", .null, .value plainVector⟩ ∧
      ∃ k, (embedDocuments [{ text := "a" }, { text := "b" }]).on forgetful =
        (.error (.attribute "NoneType" "get"), k) := by
  have ha : vectorFor? forgetful "a" = none := by
    rw [vectorFor?, replyTo, embed_on]
    rfl
  have hb : vectorFor? forgetful "b" = some (plainVector, 2) := by
    rw [vectorFor?, replyTo, embed_on]
    rfl
  constructor
  · simp [withOwn?, expectedSize?, sizeOf?, ha, hb]
  · have hfault := @embedDocuments_of_not_bearable forgetful { text := "a" } []
      [{ text := "b" }] (by simp)
    refine ⟨_, hfault fun hbearable => ?_⟩
    obtain ⟨fields, hfields⟩ := hbearable (@withOwn?_of_none forgetful { text := "a" } ha _)
    cases hfields

end RepoWiki.Ollama
