import RepoWiki.EventStream
import RepoWiki.Proofs.Json
import RepoWiki.Proofs.Url
/-
A stream of events says the same however it is cut into chunks.

What has not been read is carried from chunk to chunk. Cutting into lines may be done in two goes
(`cutLines_append`), so the lines that are dealt with in turn are the lines of the whole stream
(`cutLines_eq`). If the lines are orderly, none of them is left over at the end of a chunk
(`readLines_orderly`), and each adds the content that its data has by itself.
-/

namespace RepoWiki
namespace EventStream

open Fields Json List Text
open String (join ofList toList)

/-! ## Lines -/

def linesOf (stream : String) : List String :=
  (Text.splitOn "\n" stream).dropLast

theorem cutLines_feed (cs : List Char) :
    cutLines ('\n' :: cs) = ([] :: (cutLines cs).1, (cutLines cs).2) := by
  rw [cutLines]
  simp only [if_true]

theorem cutLines_open {c : Char} {cs : List Char} (hc : c ≠ '\n') (hcs : (cutLines cs).1 = []) :
    cutLines (c :: cs) = ([], c :: (cutLines cs).2) := by
  rw [cutLines]
  simp only [if_neg hc, hcs]

theorem cutLines_more {c : Char} {cs line : List Char} {lines : List (List Char)} (hc : c ≠ '\n')
    (hcs : (cutLines cs).1 = line :: lines) :
    cutLines (c :: cs) = ((c :: line) :: lines, (cutLines cs).2) := by
  rw [cutLines]
  simp only [if_neg hc, hcs]

theorem cutLines_append (xs ys : List Char) :
    cutLines (xs ++ ys) =
      ((cutLines xs).1 ++ (cutLines ((cutLines xs).2 ++ ys)).1,
        (cutLines ((cutLines xs).2 ++ ys)).2) := by
  induction xs with
  | nil => rfl
  | cons c xs ih =>
    rw [cons_append]
    by_cases hc : c = '\n'
    · subst hc
      rw [cutLines_feed, cutLines_feed, ih]
      rfl
    cases hxs : (cutLines xs).1 with
    | cons line lines =>
      have hboth : (cutLines (xs ++ ys)).1 =
          line :: (lines ++ (cutLines ((cutLines xs).2 ++ ys)).1) := by
        rw [ih, hxs]
        rfl
      rw [cutLines_more hc hxs, cutLines_more hc hboth, ih]
      rfl
    | nil =>
      have hboth : (cutLines (xs ++ ys)).1 = (cutLines ((cutLines xs).2 ++ ys)).1 := by
        rw [ih, hxs]
        rfl
      have htail : (cutLines (xs ++ ys)).2 = (cutLines ((cutLines xs).2 ++ ys)).2 := by
        rw [ih]
      rw [cutLines_open hc hxs, cons_append, nil_append]
      -- The open line is still open, or it gets its end from the second part.
      cases hmore : (cutLines ((cutLines xs).2 ++ ys)).1 with
      | nil =>
        rw [cutLines_open hc (hboth.trans hmore), cutLines_open hc hmore, htail]
      | cons line lines =>
        rw [cutLines_more hc (hboth.trans hmore), cutLines_more hc hmore, htail]

theorem splitFrom_eq (piece cs : List Char) :
    splitFrom ['\n'] 0 piece cs =
      match (cutLines cs).1 with
      | [] => [piece.reverse ++ (cutLines cs).2]
      | line :: lines => (piece.reverse ++ line) :: (lines ++ [(cutLines cs).2]) := by
  induction cs generalizing piece with
  | nil => rw [splitFrom, cutLines, append_nil]
  | cons c cs ih =>
    rw [splitFrom_cons]
    by_cases hc : c = '\n'
    · subst hc
      rw [if_pos rfl, ih, cutLines_feed]
      cases (cutLines cs).1 <;> simp
    · rw [if_neg hc, ih]
      cases hcs : (cutLines cs).1 with
      | nil => rw [cutLines_open hc hcs]; simp
      | cons line lines => rw [cutLines_more hc hcs]; simp

theorem cutLines_eq (stream : String) :
    (cutLines stream.toList).1 = (linesOf stream).map toList := by
  have hfeed : "\n".toList = ['\n'] := rfl
  have hmap : ∀ pieces : List (List Char),
      ((pieces.map ofList).dropLast).map toList = pieces.dropLast := by
    intro pieces
    rw [← map_dropLast, map_map]
    simp [Function.comp_def]
  rw [linesOf, Text.splitOn, hfeed, hmap, splitFrom_eq]
  cases (cutLines stream.toList).1 with
  | nil => rfl
  | cons line lines =>
    dsimp only
    rw [reverse_nil, nil_append, ← cons_append, dropLast_concat]

theorem tail_free (cs : List Char) : '\n' ∉ (cutLines cs).2 := by
  induction cs with
  | nil => exact not_mem_nil
  | cons c cs ih =>
    by_cases hc : c = '\n'
    · subst hc
      rwa [cutLines_feed]
    · cases hcs : (cutLines cs).1 with
      | nil =>
        rw [cutLines_open hc hcs, mem_cons, not_or]
        exact ⟨Ne.symm hc, ih⟩
      | cons line lines => rwa [cutLines_more hc hcs]

theorem linesOf_free {s : String} (h : '\n' ∉ s.toList) : linesOf s = [] := by
  rw [linesOf, splitOn_free (show Text.Sole '\n' "\n" from rfl) h]
  rfl

theorem linesOf_append (s t : String) :
    linesOf (s ++ t) = linesOf s ++ linesOf (ofList (cutLines s.toList).2 ++ t) := by
  refine (map_inj_right fun _ _ => String.toList_inj.1).1 ?_
  rw [map_append, ← cutLines_eq, ← cutLines_eq, ← cutLines_eq, String.toList_append,
    String.toList_append, String.toList_ofList, cutLines_append]

theorem cutLines_line {line : List Char} (h : '\n' ∉ line) :
    cutLines (line ++ ['\n']) = ([line], []) := by
  induction line with
  | nil => rfl
  | cons c line ih =>
    rw [mem_cons, not_or] at h
    rw [cons_append, cutLines_more (Ne.symm h.1) (congrArg Prod.fst (ih h.2)), ih h.2]

/-! ## Contents -/

/-- The content of the first choice of a value: what its delta says, or else its text. -/
def content? (v : Json) : Option Json :=
  match v.field? "choices" with
  | some (.arr (choice :: _)) =>
      let said := ((choice.field? "delta").bind (field? "content")).getD .null
      if said.truthy then some said else choice.field? "text"
  | _ => none

/-- The content of a line, if it is a line of data and its data is a value that has one. -/
def contentOf (line : String) : Option Json :=
  match Event.ofLine line.toList with
  | .data payload => (Json.read payload).toOption.bind content?
  | _ => none

/-- A value as the service sends it: its choices are a list, the first of them an object, and the
delta of that an object. -/
def Proper (v : Json) : Prop :=
  ∃ fields, v = .obj fields ∧ ∀ choices, Fields.get? "choices" fields = some choices →
    ∃ items, choices = .arr items ∧ ∀ first ∈ items.head?, ∃ choice, first = .obj choice ∧
      ∀ delta, Fields.get? "delta" choice = some delta → ∃ inner, delta = .obj inner

/-- Data that is refused as not being JSON, or is read as a value of the proper form. -/
def Sound (payload : String) : Prop :=
  (∃ message, Json.read payload = .error (.json message)) ∨
    ∃ v, Json.read payload = .ok v ∧ Proper v

theorem holds_obj (key : String) (fields : Fields) :
    (obj fields).holds key = .ok (get? key fields).isSome :=
  rfl

theorem said_eq {choice : Fields}
    (hdelta : ∀ delta, get? "delta" choice = some delta → ∃ inner, delta = .obj inner)
    (next : Json → Result (Option Json)) :
    (do
      if !(← (obj choice).holds "delta") then
        let content ← pure null
        next content
      else
        let delta ← (obj choice).item "delta"
        if ← delta.holds "content" then
          let content ← delta.item "content"
          next content
        else
          let content ← pure null
          next content) =
      next (((get? "delta" choice).bind (field? "content")).getD .null) := by
  rw [holds_obj, ok_bind]
  cases hget : get? "delta" choice with
  | none => rfl
  | some delta =>
    obtain ⟨inner, rfl⟩ := hdelta delta hget
    rw [Option.isSome_some, Bool.not_true, if_neg Bool.false_ne_true, item_obj hget,
      ok_bind, holds_obj, ok_bind, Option.bind_some, field?]
    cases hcontent : get? "content" inner with
    | none => rfl
    | some content =>
      rw [Option.isSome_some, if_pos rfl, item_obj hcontent, ok_bind, Option.getD_some]

theorem pieceOf_proper {v : Json} (h : Proper v) : pieceOf v = .ok (content? v) := by
  obtain ⟨fields, rfl, hchoices⟩ := h
  rw [pieceOf, content?, holds_obj, ok_bind, field?]
  cases hget : get? "choices" fields with
  | none => rfl
  | some choices =>
    obtain ⟨items, rfl, hfirst⟩ := hchoices choices hget
    rw [Option.isSome_some, Bool.not_true, if_neg Bool.false_ne_true, item_obj hget, ok_bind]
    cases items with
    | nil => rfl
    | cons first items =>
      obtain ⟨choice, rfl, hdelta⟩ := hfirst first rfl
      have hsize : (arr (.obj choice :: items)).size = .ok (items.length + 1) := rfl
      rw [hsize, ok_bind, if_neg (Nat.succ_ne_zero _), first, ok_bind]
      refine (said_eq hdelta _).trans ?_
      dsimp only [field?]
      split
      · rfl
      · rw [holds_obj, ok_bind]
        cases htext : get? "text" choice with
        | none => rfl
        | some text => rw [Option.isSome_some, if_pos rfl, item_obj htext]; rfl

theorem ofLine_data {payload : String} (hlast : ∃ c ∈ payload.toList.getLast?, isBlank c = false) :
    Event.ofLine (dataMark ++ payload).toList =
      if payload = endMark then .ended else .data payload := by
  obtain ⟨c, hc, hblank⟩ := hlast
  have hstrip : strip (dataMark ++ payload) = dataMark ++ payload := by
    refine trimBy_eq_self (by simp [dataMark]) ?_ ?_
    · rw [String.toList_append]
      rintro d ⟨⟩
      decide
    · intro d hd
      rw [String.toList_append, getLast?_append, hc, Option.some_or] at hd
      rwa [← Option.some.inj hd]
  have hmark : startsWith dataMark (dataMark ++ payload) = true := by
    rw [startsWith, String.toList_append, isPrefixOf_iff_prefix]
    exact prefix_append _ _
  have hpayload : ofList ((dataMark ++ payload).toList.drop dataMark.length) = payload := by
    rw [String.toList_append, ← String.length_toList, drop_left, String.ofList_toList]
  rw [Event.ofLine, String.ofList_toList, hstrip]
  simp only [hmark, hpayload, if_true]

/-! ## Reading -/

/-- Lines that can all be dealt with in turn: their data is sound, and only the last one may be the
end mark. -/
structure Orderly (lines : List String) : Prop where
  sound : ∀ line ∈ lines, ∀ payload, Event.ofLine line.toList = .data payload → Sound payload
  ended : ∀ line ∈ lines.dropLast, Event.ofLine line.toList ≠ .ended

theorem Orderly.left (xs ys : List String) (h : Orderly (xs ++ ys)) : Orderly xs := by
  refine ⟨fun line hline => h.sound line (mem_append_left ys hline), fun line hline => ?_⟩
  refine h.ended line ?_
  by_cases hys : ys = []
  · rwa [hys, append_nil]
  · rw [dropLast_append_of_ne_nil hys]
    exact mem_append_left _ (dropLast_subset xs hline)

theorem Orderly.right (xs ys : List String) (h : Orderly (xs ++ ys)) : Orderly ys := by
  refine ⟨fun line hline => h.sound line (mem_append_right xs hline), fun line hline => ?_⟩
  have hys : ys ≠ [] := by
    rintro rfl
    simp at hline
  refine h.ended line ?_
  rw [dropLast_append_of_ne_nil hys]
  exact mem_append_right _ hline

theorem readLines_orderly {lines : List String} (h : Orderly lines) :
    readLines (lines.map toList) = (lines.filterMap contentOf, []) := by
  induction lines with
  | nil => rfl
  | cons line lines ih =>
    have hlines := ih (Orderly.right [line] lines h)
    rw [map_cons, readLines]
    cases hevent : Event.ofLine line.toList with
    | ignored =>
      have hcontent : contentOf line = none := by rw [contentOf, hevent]
      rw [filterMap_cons_none hcontent]
      exact hlines
    | ended =>
      have hcontent : contentOf line = none := by rw [contentOf, hevent]
      -- The end mark can only stand at the end.
      cases lines with
      | nil => rw [filterMap_cons_none hcontent]; rfl
      | cons other lines => exact absurd hevent (h.ended line (by simp))
    | data payload =>
      dsimp only
      rcases h.sound line mem_cons_self payload hevent with ⟨message, hread⟩ | ⟨v, hread, hv⟩
      · have hcontent : contentOf line = none := by
          rw [contentOf, hevent]
          simp only [hread]
          rfl
        have hpiece : pieceIn payload = .error (.json message) := by
          rw [pieceIn, hread]
          rfl
        rw [filterMap_cons_none hcontent, hpiece]
        exact hlines
      · have hcontent : contentOf line = content? v := by
          rw [contentOf, hevent]
          simp only [hread]
          rfl
        have hpiece : pieceIn payload = .ok (content? v) := by
          rw [pieceIn, hread, ok_bind, pieceOf_proper hv]
        rw [hpiece]
        cases hfound : content? v with
        | none =>
          rw [filterMap_cons_none (hcontent.trans hfound)]
          exact hlines
        | some piece =>
          rw [filterMap_cons_some (hcontent.trans hfound)]
          simp only [hlines]

theorem readFrom_text (waiting : Bool) (tail : List Char) (s : String) (chunks : List Chunk) :
    readFrom waiting ⟨[], tail⟩ (.text s :: chunks) =
      (readLines (cutLines (tail ++ s.toList)).1).1 ++
        readFrom waiting ⟨(readLines (cutLines (tail ++ s.toList)).1).2,
          (cutLines (tail ++ s.toList)).2⟩ chunks := by
  rw [readFrom]
  · rfl
  · simp

theorem readFrom_chunks (waiting : Bool) {tail : List Char} (htail : '\n' ∉ tail)
    (chunks : List String) (h : Orderly (linesOf (ofList tail ++ join chunks))) :
    readFrom waiting ⟨[], tail⟩ (chunks.map .text) =
      (linesOf (ofList tail ++ join chunks)).filterMap contentOf := by
  induction chunks generalizing tail with
  | nil =>
    rw [map_nil, readFrom, String.join_nil, String.append_empty,
      linesOf_free (by rwa [String.toList_ofList])]
    rfl
  | cons s chunks ih =>
    have hjoined : (ofList tail ++ s).toList = tail ++ s.toList := by
      rw [String.toList_append, String.toList_ofList]
    rw [String.join_cons, ← String.append_assoc, linesOf_append, hjoined] at h ⊢
    have hfirst := readLines_orderly (Orderly.left _ _ h)
    rw [← cutLines_eq, hjoined] at hfirst
    rw [map_cons, readFrom_text, hfirst, ih (tail_free _) (Orderly.right _ _ h), filterMap_append]

/-- However an orderly stream is cut into chunks, what is read is the contents of its lines in
turn. -/
theorem read_chunks (waiting : Bool) {stream : String} (horderly : Orderly (linesOf stream))
    {chunks : List String} (hcut : join chunks = stream) :
    read waiting (chunks.map .text) = (linesOf stream).filterMap contentOf := by
  have hstream : ofList [] ++ join chunks = stream := by
    rw [String.ofList_nil, String.empty_append, hcut]
  rw [read, ← hstream]
  exact readFrom_chunks waiting List.not_mem_nil chunks (hstream ▸ horderly)

def greeting : Json :=
  .obj [("choices", .arr [.obj [("delta", .obj [("content", .str "a")])]])]

theorem greeting_legible : Legible depthLimit greeting := by
  have hall : ∀ room, Legible (room + 4) greeting := by
    intro room
    refine .obj (by decide) ?_
    rintro f ⟨⟩
    · refine .arr ?_
      rintro v ⟨⟩
      · refine .obj (by decide) ?_
        rintro g ⟨⟩
        · refine .obj (by decide) ?_
          rintro e ⟨⟩
          · exact .str "a"
          · contradiction
        · contradiction
      · contradiction
    · contradiction
  exact hall 981

def greetingText : String :=
  "\x7b\"choices\":[\x7b\"delta\":\x7b\"content\":\"a\"\x7d\x7d]\x7d"

theorem read_greetingText : Json.read greetingText = .ok greeting := by
  have hwritten : greetingText = greeting.write .compact := by decide +kernel
  rw [hwritten]
  exact read_write compact_spaced greeting_legible

theorem ofLine_greeting :
    Event.ofLine (dataMark ++ greetingText).toList = .data greetingText := by
  rw [ofLine_data ⟨'\x7d', by decide +kernel, by decide⟩, if_neg (by decide +kernel)]

theorem contentOf_greeting : contentOf (dataMark ++ greetingText) = some (.str "a") := by
  rw [contentOf, ofLine_greeting]
  simp only [read_greetingText]
  rfl

theorem ofLine_others :
    Event.ofLine ": note".toList = .ignored ∧ Event.ofLine "data: x".toList = .data "x" ∧
      Event.ofLine "data: [DONE]".toList = .ended := by
  decide +kernel

theorem read_x : ∃ message, Json.read "x" = .error (.json message) :=
  ⟨_, rfl⟩

theorem orderly_greeting :
    Orderly [dataMark ++ greetingText, ": note", "data: x", "data: [DONE]"] := by
  obtain ⟨hnote, hx, hdone⟩ := ofLine_others
  constructor
  · intro line hline payload hpayload
    simp only [mem_cons, not_mem_nil, or_false] at hline
    rcases hline with rfl | rfl | rfl | rfl
    · rw [ofLine_greeting] at hpayload
      cases hpayload
      refine .inr ⟨greeting, read_greetingText, _, rfl, ?_⟩
      rintro choices ⟨⟩
      refine ⟨_, rfl, ?_⟩
      rintro first ⟨⟩
      refine ⟨_, rfl, ?_⟩
      rintro delta ⟨⟩
      exact ⟨_, rfl⟩
    · rw [hnote] at hpayload
      cases hpayload
    · rw [hx] at hpayload
      cases hpayload
      exact .inl read_x
    · rw [hdone] at hpayload
      cases hpayload
  · intro line hline
    simp only [dropLast, mem_cons, not_mem_nil, or_false] at hline
    rcases hline with rfl | rfl | rfl
    · rw [ofLine_greeting]
      exact Event.noConfusion
    · rw [hnote]
      exact Event.noConfusion
    · rw [hx]
      exact Event.noConfusion

def greetingStream : String :=
  dataMark ++ greetingText ++ "\n: note\ndata: x\ndata: [DONE]\nda"

theorem linesOf_greetingStream : linesOf greetingStream =
    [dataMark ++ greetingText, ": note", "data: x", "data: [DONE]"] := by
  decide +kernel

/-- A stream that is cut in the middle of a mark and of a text, with a note, with data that is no
value, and with a line that has not ended. -/
theorem read_chunks_cut_inside :
    Orderly (linesOf greetingStream) ∧
      read false (["da", "", "ta: \x7b\"choices\":[\x7b\"delta\":\x7b\"con",
        "tent\":\"a\"\x7d\x7d]\x7d\n: note\n", "data: x\ndata: [DONE]\nda"].map .text) =
        [.str "a"] := by
  have horderly : Orderly (linesOf greetingStream) := by
    rw [linesOf_greetingStream]
    exact orderly_greeting
  refine ⟨horderly, (read_chunks false horderly (by decide +kernel)).trans ?_⟩
  have hothers : contentOf ": note" = none ∧ contentOf "data: x" = none ∧
      contentOf "data: [DONE]" = none :=
    ⟨rfl, rfl, rfl⟩
  rw [linesOf_greetingStream, List.filterMap_cons_some contentOf_greeting,
    List.filterMap_cons_none hothers.1, List.filterMap_cons_none hothers.2.1,
    List.filterMap_cons_none hothers.2.2]
  rfl

/-! ## Numbers with too many digits -/

def counted (digits : Nat) : String :=
  "\x7b\"n\":" ++ ofList (List.replicate digits '1') ++
    ",\"choices\":[\x7b\"delta\":\x7b\"content\":\"a\"\x7d\x7d]\x7d"

theorem counted_toList (k : Nat) : ∃ rest,
    (counted (k + 1)).toList =
      '\x7b' :: ((quote true "n").toList ++
        ':' :: '1' :: (replicate k '1' ++ ',' :: rest)) := by
  refine ⟨"\"choices\":[\x7b\"delta\":\x7b\"content\":\"a\"\x7d\x7d]\x7d".toList, ?_⟩
  simp only [counted, String.toList_append, String.toList_ofList, replicate_succ]
  rfl

theorem read_counted {digits : Nat} (h : digitLimit < digits) :
    Json.read (counted digits) = .error (.value (tooLongMessage digits)) := by
  obtain ⟨k, rfl⟩ : ∃ k, digits = k + 1 := ⟨digits - 1, by omega⟩
  obtain ⟨rest, hchars⟩ := counted_toList k
  have hones : Digits ('1' :: replicate k '1') := by
    intro c hc
    rw [← replicate_succ] at hc
    rw [eq_of_mem_replicate hc]
    rfl
  have hstops : Stops (',' :: rest) := by
    rintro c ⟨⟩
    decide
  have hvalue : ∀ fuel room pos,
      valueAt (fuel + 1) room ⟨'1' :: (replicate k '1' ++ ',' :: rest), pos⟩ =
        .error ⟨.tooManyDigits (k + 1), pos⟩ := by
    intro fuel room pos
    obtain ⟨next, hnumber⟩ := numberAt_whole false (.more (by decide) hones) hstops pos
    rw [length_cons, length_replicate, if_pos h] at hnumber
    exact (valueAt_number false (show isDigit '1' = true from rfl) _ fuel room pos).trans
      hnumber
  obtain ⟨pos, hread⟩ := readChars_field_fault true "n" (by decide) hvalue
  have hmark : ∀ cs : List Char, ¬('\x7b' :: cs).head? = some (Char.ofNat 0xFEFF) := by
    intro cs
    rw [head?_cons, Option.some.injEq]
    decide
  rw [Json.read, hchars, if_neg (hmark _), hread]
  rfl

theorem ofLine_counted (digits : Nat) :
    Event.ofLine (dataMark ++ counted digits).toList = .data (counted digits) := by
  have hend : counted digits ≠ endMark := by
    intro h
    have := congrArg (fun s : String => s.toList.head?) h
    simp [counted, endMark] at this
  have hlast : '\x7d' ∈ (counted digits).toList.getLast? := by
    rw [counted, String.toList_append, getLast?_append]
    rfl
  rw [ofLine_data ⟨'\x7d', hlast, by decide⟩, if_neg hend]

theorem read_counted_line {digits : Nat} (h : digitLimit < digits) :
    read false [.text (dataMark ++ counted digits ++ "\n")] =
      [.str ("Error processing response chunk: " ++ tooLongMessage digits)] := by
  have hpiece : pieceIn (counted digits) = .error (.value (tooLongMessage digits)) := by
    rw [pieceIn, read_counted h]
    rfl
  have hfree : '\n' ∉ (dataMark ++ counted digits).toList := by
    have hrest : '\n' ∉ (dataMark ++ "\x7b\"n\":").toList ∧
        '\n' ∉ ",\"choices\":[\x7b\"delta\":\x7b\"content\":\"a\"\x7d\x7d]\x7d".toList := by
      decide +kernel
    rw [counted, ← String.append_assoc, ← String.append_assoc, String.toList_append,
      String.toList_append, String.toList_ofList, mem_append, mem_append]
    rintro ((hmem | hmem) | hmem)
    · exact hrest.1 hmem
    · exact absurd (eq_of_mem_replicate hmem) (by decide)
    · exact hrest.2 hmem
  have hlines : (cutLines ([] ++ (dataMark ++ counted digits ++ "\n").toList)).1 =
      [(dataMark ++ counted digits).toList] := by
    rw [nil_append, String.toList_append]
    exact congrArg Prod.fst (cutLines_line hfree)
  have hsaid : readLines [(dataMark ++ counted digits).toList] =
      ([.str ("Error processing response chunk: " ++ tooLongMessage digits)], []) := by
    rw [readLines, ofLine_counted]
    simp only [hpiece]
    rfl
  have hread := readFrom_text false [] (dataMark ++ counted digits ++ "\n") []
  rw [hlines, hsaid] at hread
  exact hread

/-- The content `a` stands beside a number of 4301 digits, and is not read. -/
theorem read_long_number :
    read false [.text (dataMark ++ counted 4301 ++ "\n")] =
      [.str ("Error processing response chunk: " ++ Text.tooLongMessage 4301)] :=
  read_counted_line (by decide)

end EventStream
end RepoWiki
