import RepoWiki.Proofs.EventStream
/-
The end mark of a stream is a pause. The lines that stand behind it in the same chunk are kept back;
with the next chunk they are taken up, as if they had come with that chunk (`readFrom_resume`).
-/

namespace RepoWiki.EventStream

open List

variable {waiting : Bool} {chunk : Chunk} {u : Unread}

/-! ## Lines before the mark -/

def pieceOfLine (line : List Char) : Option Json :=
  match Event.ofLine line with
  | .data payload => (pieceIn payload).toOption.join
  | _ => none

/-- A line after which the next one is read: it is no end mark, and its data is read or refused as
not being JSON. -/
structure PassedOn (line : List Char) : Prop where
  notEnded : Event.ofLine line ≠ .ended
  notFailed : ∀ payload, Event.ofLine line = .data payload → ∀ fault,
    pieceIn payload = .error fault → ∃ message, fault = .json message

theorem readLines_passedOn {line : List Char} (h : PassedOn line) (rest : List (List Char)) :
    readLines (line :: rest) =
      ((pieceOfLine line).toList ++ (readLines rest).1, (readLines rest).2) := by
  rw [readLines, pieceOfLine]
  cases hevent : Event.ofLine line with
  | ignored => rfl
  | ended => exact absurd hevent h.notEnded
  | data payload =>
    dsimp only
    cases hpiece : pieceIn payload with
    | ok piece => cases piece <;> rfl
    | error fault =>
      obtain ⟨message, rfl⟩ := h.notFailed payload hevent fault hpiece
      rfl

/-- Up to the mark each line adds its piece, and what stands behind the mark is left. -/
theorem readLines_ended {lines : List (List Char)} (hlines : ∀ line ∈ lines, PassedOn line)
    {mark : List Char} (hmark : Event.ofLine mark = .ended) (rest : List (List Char)) :
    readLines (lines ++ mark :: rest) = (lines.filterMap pieceOfLine, rest) := by
  induction lines with
  | nil => rw [nil_append, readLines, hmark, filterMap_nil]
  | cons line lines ih =>
    have hrest := ih fun other hother => hlines other (mem_cons_of_mem line hother)
    rw [cons_append, readLines_passedOn (hlines line mem_cons_self), hrest]
    cases hpiece : pieceOfLine line with
    | none => rw [filterMap_cons_none hpiece]; rfl
    | some piece => rw [filterMap_cons_some hpiece]; rfl

/-! ## Chunks -/

def Chunk.IsBroken (chunk : Chunk) : Prop :=
  ∃ message, chunk = .broken message

theorem Chunk.chars_text (waiting : Bool) (s : String) :
    (Chunk.text s).chars waiting = .ok s.toList :=
  rfl

theorem readFrom_ok {s : List Char} (h : chunk.chars waiting = .ok s) (u : Unread)
    (chunks : List Chunk) :
    readFrom waiting u (chunk :: chunks) =
      (readLines (u.add s).lines).1 ++
        readFrom waiting { u.add s with lines := (readLines (u.add s).lines).2 } chunks := by
  have hwhole : ∀ message, chunk ≠ .broken message := by
    rintro message rfl
    cases h
  rw [readFrom, h]
  exact hwhole

theorem readFrom_error {fault : Fault} (hwhole : ¬chunk.IsBroken)
    (h : chunk.chars waiting = .error fault) (u : Unread) (chunks : List Chunk) :
    readFrom waiting u (chunk :: chunks) =
      .str s!"Error processing response chunk: {fault.message}" :: readFrom waiting u chunks := by
  rw [readFrom, h]
  exact fun message hmessage => hwhole ⟨message, hmessage⟩

/-- What is unread once some chunks have come. A chunk that is no text changes nothing. -/
def Unread.after (waiting : Bool) : Unread → List Chunk → Unread
  | u, [] => u
  | u, chunk :: chunks =>
      match chunk.chars waiting with
      | .error _ => after waiting u chunks
      | .ok s => after waiting { u.add s with lines := (readLines (u.add s).lines).2 } chunks

theorem readFrom_append {before : List Chunk} (hwhole : ∀ chunk ∈ before, ¬chunk.IsBroken)
    (u : Unread) (after : List Chunk) :
    readFrom waiting u (before ++ after) =
      readFrom waiting u before ++ readFrom waiting (u.after waiting before) after := by
  induction before generalizing u with
  | nil => rw [readFrom, Unread.after, nil_append, nil_append]
  | cons chunk before ih =>
    have hrest := ih fun other hother => hwhole other (mem_cons_of_mem chunk hother)
    rw [cons_append, Unread.after]
    cases hchars : chunk.chars waiting with
    | error fault =>
      have hchunk := hwhole chunk mem_cons_self
      rw [readFrom_error hchunk hchars, readFrom_error hchunk hchars, hrest, cons_append]
    | ok s => rw [readFrom_ok hchars, readFrom_ok hchars, hrest, append_assoc]

/-! ## Behind the mark -/

def Unread.text (u : Unread) : List Char :=
  u.lines.flatMap (· ++ ['\n']) ++ u.tail

theorem cutLines_lines {lines : List (List Char)} (h : ∀ line ∈ lines, '\n' ∉ line)
    (cs : List Char) :
    cutLines (lines.flatMap (· ++ ['\n']) ++ cs) = (lines ++ (cutLines cs).1, (cutLines cs).2) := by
  induction lines with
  | nil => rfl
  | cons line lines ih =>
    rw [flatMap_cons, append_assoc, cutLines_append,
      cutLines_line (h line mem_cons_self), nil_append,
      ih fun other hother => h other (mem_cons_of_mem line hother)]
    rfl

theorem line_free {cs line : List Char} (h : line ∈ (cutLines cs).1) : '\n' ∉ line := by
  induction cs generalizing line with
  | nil => cases h
  | cons c cs ih =>
    by_cases hc : c = '\n'
    · subst hc
      rw [cutLines_feed] at h
      rcases mem_cons.1 h with rfl | h
      · exact not_mem_nil
      · exact ih h
    · cases hcs : (cutLines cs).1 with
      | nil =>
        rw [cutLines_open hc hcs] at h
        cases h
      | cons first lines =>
        rw [cutLines_more hc hcs] at h
        rcases mem_cons.1 h with rfl | h
        · rw [mem_cons, not_or]
          exact ⟨Ne.symm hc, ih (hcs ▸ mem_cons_self)⟩
        · exact ih (hcs ▸ mem_cons_of_mem first h)

def Unread.Free (u : Unread) : Prop :=
  ∀ line ∈ u.lines, '\n' ∉ line

theorem Unread.Free.add (h : u.Free) (s : List Char) : (u.add s).Free := by
  intro line hline
  rcases mem_append.1 hline with hline | hline
  · exact h line hline
  · exact line_free hline

theorem readLines_suffix (lines : List (List Char)) : (readLines lines).2 <:+ lines := by
  induction lines with
  | nil => exact suffix_rfl
  | cons line lines ih =>
    have hmore : lines <:+ line :: lines := suffix_cons line lines
    rw [readLines]
    split
    · exact ih.trans hmore
    · exact hmore
    · split
      · exact ih.trans hmore
      · exact ih.trans hmore
      · exact ih.trans hmore
      · exact hmore

theorem Unread.Free.after (h : u.Free) (waiting : Bool) (chunks : List Chunk) :
    (u.after waiting chunks).Free := by
  induction chunks generalizing u with
  | nil => exact h
  | cons chunk chunks ih =>
    rw [Unread.after]
    split
    · exact ih h
    · next s _ => exact ih fun line hline => h.add s line ((readLines_suffix _).subset hline)

theorem readFrom_resume (hu : u.Free) {s : List Char} (h : chunk.chars waiting = .ok s)
    (chunks : List Chunk) :
    readFrom waiting u (chunk :: chunks) =
      read waiting (.text (String.ofList (u.text ++ s)) :: chunks) := by
  have hchars : (Chunk.text (String.ofList (u.text ++ s))).chars waiting = .ok (u.text ++ s) := by
    rw [Chunk.chars_text, String.toList_ofList]
  have hadd : (({} : Unread).add (u.text ++ s)) = u.add s := by
    have hcut : cutLines (u.text ++ s) =
        (u.lines ++ (cutLines (u.tail ++ s)).1, (cutLines (u.tail ++ s)).2) := by
      rw [Unread.text, append_assoc, cutLines_lines hu]
    rw [Unread.add, Unread.add, nil_append, hcut]
    rfl
  rw [read, readFrom_ok h, readFrom_ok hchars, hadd]

/-- A stream whose end mark comes with `chunk`. The lines before the mark add their pieces, and
nothing more is added by this chunk. If no chunk comes any more, this is the end; but each chunk
that does come is read, the first of them together with all that stands behind the mark. -/
theorem read_past_end {waiting : Bool} {before : List Chunk} {chunk : Chunk}
    {s mark tail : List Char} {lines rest : List (List Char)}
    (hwhole : ∀ other ∈ before, ¬other.IsBroken) (hchunk : chunk.chars waiting = .ok s)
    (harrived : (Unread.after waiting {} before).add s = ⟨lines ++ mark :: rest, tail⟩)
    (hlines : ∀ line ∈ lines, PassedOn line) (hmark : Event.ofLine mark = .ended) :
    read waiting (before ++ [chunk]) = read waiting before ++ lines.filterMap pieceOfLine ∧
      (∀ after, read waiting (before ++ chunk :: after) =
        read waiting (before ++ [chunk]) ++ readFrom waiting ⟨rest, tail⟩ after) ∧
      ∀ next t, next.chars waiting = .ok t → ∀ after,
        readFrom waiting ⟨rest, tail⟩ (next :: after) =
          read waiting (.text (String.ofList (Unread.text ⟨rest, tail⟩ ++ t)) :: after) := by
  have hread : ∀ after, read waiting (before ++ chunk :: after) =
      read waiting before ++
        (lines.filterMap pieceOfLine ++ readFrom waiting ⟨rest, tail⟩ after) := by
    intro after
    rw [read, readFrom_append hwhole, readFrom_ok hchunk, harrived, readLines_ended hlines hmark]
    rfl
  have hupTo : read waiting (before ++ [chunk]) =
      read waiting before ++ lines.filterMap pieceOfLine := by
    rw [hread, readFrom, List.append_nil]
  have hfree : Unread.Free ⟨lines ++ mark :: rest, tail⟩ := by
    rw [← harrived]
    refine (Unread.Free.after (fun line hline => ?_) waiting before).add s
    cases hline
  refine ⟨hupTo, fun after => ?_, fun next t hnext after => ?_⟩
  · rw [hread, hupTo, List.append_assoc]
  · refine readFrom_resume (fun line hline => hfree line ?_) hnext after
    exact List.mem_append_right lines (List.mem_cons_of_mem mark hline)

theorem read_greeting (waiting : Bool) :
    read waiting [.text (dataMark ++ greetingText ++ "\n")] = [.str "a"] := by
  have hlines : cutLines (dataMark ++ greetingText ++ "\n").toList =
      ([(dataMark ++ greetingText).toList], []) := by
    rw [String.toList_append]
    exact cutLines_line (by decide +kernel)
  have hpiece : pieceIn greetingText = .ok (some (.str "a")) := by
    rw [pieceIn, read_greetingText]
    rfl
  have hsaid : readLines [(dataMark ++ greetingText).toList] = ([.str "a"], []) := by
    rw [readLines, ofLine_greeting]
    simp only [hpiece]
    rfl
  have hread := readFrom_text waiting [] (dataMark ++ greetingText ++ "\n") []
  rw [nil_append, hlines, hsaid] at hread
  exact hread

theorem passedOn_x : PassedOn "data: x".toList ∧ pieceOfLine "data: x".toList = none := by
  obtain ⟨message, hread⟩ := read_x
  have hpiece : pieceIn "x" = .error (.json message) := by
    rw [pieceIn, hread]
    rfl
  have hx := ofLine_others.2.1
  refine ⟨⟨by rw [hx]; exact Event.noConfusion, fun payload hpayload fault hfault => ?_⟩, ?_⟩
  · obtain rfl := Event.data.inj (hx.symm.trans hpayload)
    exact ⟨message, (Except.error.inj (hpiece.symm.trans hfault)).symm⟩
  · rw [pieceOfLine, hx]
    simp only [hpiece]
    rfl

/-- The end mark comes behind a line that is no value, and is followed by the start of a line of
data, the rest of which comes later. -/
theorem read_past_end_open_line :
    read false [.text "data: ", .text "x\ndata: [DONE]\ndata: "] = [] ∧
      read false [.text "data: ", .text "x\ndata: [DONE]\ndata: ", .text (greetingText ++ "\n")] =
        [.str "a"] := by
  obtain ⟨hx, hnoPiece⟩ := passedOn_x
  have hwhole : ∀ other ∈ [Chunk.text "data: "], ¬other.IsBroken := by
    rintro other hother ⟨message, rfl⟩
    cases List.mem_singleton.1 hother
  have harrived : (Unread.after false {} [.text "data: "]).add "x\ndata: [DONE]\ndata: ".toList =
      ⟨["data: x".toList] ++ "data: [DONE]".toList :: [], "data: ".toList⟩ := rfl
  have hlines : ∀ line ∈ ["data: x".toList], PassedOn line := by
    intro line hline
    rwa [List.mem_singleton.1 hline]
  have hrest : String.ofList (Unread.text ⟨[], "data: ".toList⟩ ++ (greetingText ++ "\n").toList) =
      dataMark ++ greetingText ++ "\n" := by
    decide +kernel
  obtain ⟨hupTo, hlater, hresume⟩ :=
    read_past_end hwhole (Chunk.chars_text false _) harrived hlines ofLine_others.2.2
  rw [List.filterMap_cons_none hnoPiece, List.filterMap_nil, List.append_nil,
    List.singleton_append] at hupTo
  have hnone := hupTo.trans (show read false [.text "data: "] = [] from rfl)
  have hmore := hlater [.text (greetingText ++ "\n")]
  rw [List.singleton_append, List.singleton_append, hnone, List.nil_append,
    hresume _ _ (Chunk.chars_text false _), hrest, read_greeting] at hmore
  exact ⟨hnone, hmore⟩

/-- A line that comes behind the end mark is read all the same. -/
theorem read_line_past_end :
    Event.ofLine "data: [DONE]".toList = .ended ∧ read false [.text "data: [DONE]\n"] = [] ∧
      read false [.text "data: [DONE]\n", .text (dataMark ++ greetingText ++ "\n")] =
        [.str "a"] := by
  have hmark := ofLine_others.2.2
  have hleft : ({} : Unread).add "data: [DONE]\n".toList = ⟨["data: [DONE]".toList], []⟩ := rfl
  have hlines : readLines ["data: [DONE]".toList] = ([], []) := by rw [readLines, hmark]
  have hread : ∀ after, read false (.text "data: [DONE]\n" :: after) = read false after := by
    intro after
    rw [read, readFrom_ok (Chunk.chars_text false _), hleft, hlines]
    rfl
  exact ⟨hmark, hread [], (hread _).trans (read_greeting false)⟩

end RepoWiki.EventStream
