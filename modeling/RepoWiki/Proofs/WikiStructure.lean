import Mathlib.Data.List.Infix
import RepoWiki.Proofs.Text.Occurrence
import RepoWiki.Proofs.Text.Trim
import RepoWiki.WikiStructure
/-
What is kept when a structure is built anew around its pages. A source is cut into pages and what is
around them; the elements of a name in it are told by where their tags are. The structure that is
built has the pages of the source in order, with the first or all of the elements of each, trimmed.
In print no tag is where it was not before, an id apart, so a structure that was built is read as it
is.
-/

namespace RepoWiki.WikiStructure

open List Text
open String (join ofList toList toList_ofList)

/-! ## Tags -/

/-- The tag of a name. The one that ends an element is the tag of the name behind a stroke. -/
def tag (name : String) : List Char :=
  '<' :: (name.toList ++ ['>'])

def Bare (name : String) : Prop :=
  '<' ∉ name.toList ∧ '>' ∉ name.toList

instance (name : String) : Decidable (Bare name) :=
  inferInstanceAs (Decidable (_ ∧ _))

variable {name other : String} {cs before read rest t : List Char}

theorem tag_ne_nil (name : String) : tag name ≠ [] :=
  cons_ne_nil _ _

theorem tag_eq (name : String) : ("<" ++ name ++ ">").toList = tag name := by
  simp [tag]

theorem tag_end (name : String) : ("</" ++ name ++ ">").toList = tag ("/" ++ name) := by
  simp [tag]

theorem Bare.ending (h : Bare name) : Bare ("/" ++ name) := by
  simpa [Bare] using h

theorem eq_of_isPrefix_tag (hname : Bare name) (hother : Bare other)
    (h : tag name <+: tag other ++ rest) : name = other := by
  obtain ⟨more, hmore⟩ := h
  have hsame : name.toList ++ '>' :: more = other.toList ++ '>' :: rest := by
    simpa [tag] using hmore
  have hcut := cutList_append more hname.2
  rw [hsame, cutList_append rest hother.2, Option.some.injEq, Prod.mk.injEq] at hcut
  exact String.toList_inj.1 hcut.1.symm

theorem noStart_text (ht : '<' ∉ t) : NoStart (tag name) t rest :=
  .of_head rfl ht

theorem noStart_feed : NoStart (tag name) ['\n'] rest :=
  noStart_text (by decide)

def Apart (m : List Char) (name : String) : Prop :=
  ∀ rest, ¬m <+: tag name ++ rest

theorem apart_tag (hname : Bare name) (hother : Bare other) (hne : name ≠ other) :
    Apart (tag name) other :=
  fun _ h => hne (eq_of_isPrefix_tag hname hother h)

theorem apart_both (hname : Bare name) (hother : Bare other) (hne : name ≠ other)
    (hend : name ≠ "/" ++ other) : Apart (tag name) other ∧ Apart (tag name) ("/" ++ other) :=
  ⟨apart_tag hname hother hne, apart_tag hname hother.ending hend⟩

variable {m : List Char}

theorem noStart_tag (hm : m.head? = some '<') (hname : Bare name) (h : Apart m name) :
    NoStart m (tag name) rest :=
  .cons (h rest) (.of_head hm (by simpa using hname.1))

theorem noStart_of_not_isInfix (hname : Bare name) (h : ¬tag name <:+: read)
    (hrest : ∀ c ∈ rest.head?, c = '<') : NoStart (tag name) read rest := by
  refine .of_not_isInfix (fun c hc hmem => ?_) h
  obtain rfl := hrest c hc
  exact hname.1 (by simpa [tag] using hmem)

/-! ## Elements -/

def element (name : String) (t rest : List Char) : List Char :=
  tag name ++ (t ++ (tag ("/" ++ name) ++ rest))

def Holds (name : String) (cs : List Char) : Prop :=
  ∃ before t rest, cs = before ++ element name t rest

/-- No tag is in an element of the name, up to its first end. -/
def Flat (name : String) (cs : List Char) : Prop :=
  ∀ before t rest, cs = before ++ element name t rest → ¬tag ("/" ++ name) <:+: t → '<' ∉ t

/-- The text of the element that begins here, if there is no tag in it. -/
def textAt? (name : String) (cs : List Char) : Option (List Char) :=
  let inside := cs.drop (tag name).length
  if (tag name).isPrefixOf cs && (tag ("/" ++ name)).isPrefixOf (inside.dropWhile (· ≠ '<')) then
    some (inside.takeWhile (· ≠ '<'))
  else none

/-- The texts of all elements of a name, one for each place where such an element begins. -/
def texts (name : String) (cs : List Char) : List (List Char) :=
  cs.tails.filterMap (textAt? name)

theorem Holds.of_isInfix (h : Holds name cs) {more : List Char} (hin : cs <:+: more) :
    Holds name more := by
  obtain ⟨before, t, rest, rfl⟩ := h
  obtain ⟨a, b, rfl⟩ := hin
  exact ⟨a ++ before, t, rest ++ b, by simp [element]⟩

theorem Flat.of_isInfix (h : Flat name cs) {part : List Char} (hin : part <:+: cs) :
    Flat name part := by
  rintro before t rest rfl
  obtain ⟨a, b, rfl⟩ := hin
  exact h (a ++ before) t (rest ++ b) (by simp [element])

theorem Holds.of_noStart (h : NoStart (tag name) read rest) (hh : Holds name (read ++ rest)) :
    Holds name rest := by
  obtain ⟨before, t, after, heq⟩ := hh
  obtain ⟨more, hrest⟩ := h.exists_append heq
  exact ⟨more, t, after, hrest⟩

theorem Flat.skip (h : NoStart (tag name) read rest) (hrest : Flat name rest) :
    Flat name (read ++ rest) := by
  intro before t after heq
  obtain ⟨more, hmore⟩ := h.exists_append heq
  exact hrest more t after hmore

theorem holds_of_textAt? (h : textAt? name cs = some t) : Holds name cs ∧ '<' ∉ t := by
  rw [textAt?] at h
  split at h
  · next hboth =>
    rw [Bool.and_eq_true, isPrefixOf_iff_prefix, isPrefixOf_iff_prefix] at hboth
    obtain ⟨⟨inside, rfl⟩, rest, hrest⟩ := hboth
    rw [drop_left] at hrest h
    obtain rfl := Option.some.inj h
    refine ⟨⟨[], inside.takeWhile (· ≠ '<'), rest, ?_⟩, fun hmem => ?_⟩
    · rw [element, hrest, takeWhile_append_dropWhile]
      rfl
    · simpa using mem_takeWhile_imp hmem
  · cases h

theorem not_mem_of_mem_texts (h : t ∈ texts name cs) : '<' ∉ t := by
  obtain ⟨tail, -, htail⟩ := mem_filterMap.1 h
  exact (holds_of_textAt? htail).2

theorem texts_of_not_holds (h : ¬Holds name cs) : texts name cs = [] := by
  rw [texts, filterMap_eq_nil_iff]
  intro tail htail
  refine Option.eq_none_iff_forall_ne_some.2 fun t ht => h ?_
  exact (holds_of_textAt? ht).1.of_isInfix ((mem_tails _ _).1 htail).isInfix

theorem texts_cons (c : Char) (cs : List Char) :
    texts name (c :: cs) = (textAt? name (c :: cs)).toList ++ texts name cs := by
  rw [texts, tails, filterMap_cons]
  cases textAt? name (c :: cs) <;> rfl

theorem texts_skip (h : NoStart (tag name) read rest) :
    texts name (read ++ rest) = texts name rest := by
  induction read with
  | nil => rfl
  | cons c read ih =>
    have hnone : textAt? name (c :: (read ++ rest)) = none := by
      rw [textAt?, Bool.eq_false_iff.2 (mt isPrefixOf_iff_prefix.1 h.head)]
      rfl
    rw [cons_append, texts_cons, hnone, ih h.tail]
    rfl

section

variable (hname : Bare name) (ht : '<' ∉ t)
include hname ht

theorem noStart_inside :
    NoStart (tag name) (name.toList ++ ['>'] ++ (t ++ tag ("/" ++ name))) rest := by
  refine .append (noStart_text (by simpa using hname.1)) (.append (noStart_text ht) ?_)
  refine noStart_tag rfl hname.ending (apart_tag hname hname.ending fun heq => ?_)
  have hlength := congrArg String.length heq
  rw [String.length_append] at hlength
  exact absurd hlength (by simp)

theorem texts_element : texts name (element name t rest) = t :: texts name rest := by
  have hall : ∀ c ∈ t, decide (c ≠ '<') = true := fun c hc => decide_eq_true fun h => ht (h ▸ hc)
  have hstop : (tag ("/" ++ name) ++ rest).dropWhile (· ≠ '<') = tag ("/" ++ name) ++ rest ∧
      (tag ("/" ++ name) ++ rest).takeWhile (· ≠ '<') = [] := by simp [tag]
  have hfirst : textAt? name (element name t rest) = some t := by
    rw [textAt?, element, drop_left, dropWhile_append_of_pos hall, takeWhile_append_of_pos hall,
      hstop.1, hstop.2, append_nil, isPrefixOf_iff_prefix.2 (prefix_append _ _),
      isPrefixOf_iff_prefix.2 (prefix_append _ _)]
    rfl
  have hrest : texts name (name.toList ++ ['>'] ++ (t ++ tag ("/" ++ name)) ++ rest) =
      texts name rest :=
    texts_skip (noStart_inside hname ht)
  rw [element, tag, cons_append] at hfirst ⊢
  rw [texts_cons, hfirst, ← hrest]
  simp

theorem Flat.element (hrest : Flat name rest) : Flat name (element name t rest) := by
  intro before u after heq hu
  cases before with
  | nil =>
    -- Both texts end at the first end behind the tag.
    have hsame : t ++ (tag ("/" ++ name) ++ rest) = u ++ (tag ("/" ++ name) ++ after) :=
      append_cancel_left heq
    have hend : NoStart (tag ("/" ++ name)) t (tag ("/" ++ name) ++ rest) := noStart_text ht
    have hcut := hend.cutList (tag_ne_nil _)
    rw [hsame, (noStart_of_not_isInfix hname.ending hu (by simp [tag])).cutList (tag_ne_nil _),
      Option.some.injEq, Prod.mk.injEq] at hcut
    exact hcut.1 ▸ ht
  | cons c before =>
    have hinside : name.toList ++ ['>'] ++ (t ++ tag ("/" ++ name)) ++ rest =
        before ++ WikiStructure.element name u after := by
      simpa [WikiStructure.element, tag] using (List.cons.inj heq).2
    obtain ⟨more, hmore⟩ := (noStart_inside hname ht).exists_append hinside
    exact hrest more u after hmore hu

end

/-! ## Finding the first element -/

theorem firstBetween?_of (hname : Bare name) (hbefore : ¬tag name <:+: before)
    (ht : ¬tag ("/" ++ name) <:+: t) :
    firstBetween? (tag name) (tag ("/" ++ name)) (before ++ element name t rest) =
      some (t, rest) := by
  have hstart : ∀ after, NoStart (tag name) before (tag name ++ after) :=
    fun after => noStart_of_not_isInfix hname hbefore (by simp [tag])
  have hend : NoStart (tag ("/" ++ name)) t (tag ("/" ++ name) ++ rest) :=
    noStart_of_not_isInfix hname.ending ht (by simp [tag])
  rw [firstBetween?, element, (hstart _).cutList (tag_ne_nil name), Option.bind_eq_bind,
    Option.bind_some]
  exact hend.cutList (tag_ne_nil _)

theorem firstBetween?_cases (name : String) (cs : List Char) :
    firstBetween? (tag name) (tag ("/" ++ name)) cs = none ∧ ¬Holds name cs ∨
      ∃ before t rest, firstBetween? (tag name) (tag ("/" ++ name)) cs = some (t, rest) ∧
        cs = before ++ element name t rest ∧ NoStart (tag name) before (element name t rest) ∧
        ¬tag ("/" ++ name) <:+: t := by
  rw [firstBetween?]
  rcases cutList_cases (tag_ne_nil name) cs with ⟨hnone, hfree⟩ | ⟨read, inside, hcut, rfl, hstart⟩
  · rw [hnone]
    refine .inl ⟨rfl, ?_⟩
    rintro ⟨before, t, rest, rfl⟩
    exact hfree ⟨before, t ++ (tag ("/" ++ name) ++ rest), by rw [element, append_assoc]⟩
  · rw [hcut, Option.bind_eq_bind, Option.bind_some]
    dsimp only
    rcases cutList_cases (tag_ne_nil ("/" ++ name)) inside with
      ⟨hnone, hfree⟩ | ⟨t, rest, hcut, rfl, hend⟩
    · refine .inl ⟨hnone, ?_⟩
      rintro ⟨before, t, rest, heq⟩
      -- The first tag is not behind the one of the element, so its end would be behind both.
      obtain ⟨more, hmore⟩ := hstart.exists_append heq
      have hlength := congrArg length hmore
      have hsuffix : t ++ (tag ("/" ++ name) ++ rest) <:+ inside := by
        have hmine : t ++ (tag ("/" ++ name) ++ rest) <:+ tag name ++ inside :=
          ⟨more ++ tag name, by rw [hmore, append_assoc]⟩
        refine suffix_of_suffix_length_le hmine (suffix_append _ _) ?_
        simp only [length_append] at hlength ⊢
        omega
      exact hfree ((infix_append t _ rest).trans (append_assoc t _ rest ▸ hsuffix.isInfix))
    · exact .inr ⟨read, t, rest, hcut, rfl, hstart, hend.not_isInfix (tag_ne_nil _)⟩

theorem texts_of_between (hname : Bare name) (hflat : Flat name cs) :
    firstBetween? (tag name) (tag ("/" ++ name)) cs = none ∧ texts name cs = [] ∨
      ∃ t rest, firstBetween? (tag name) (tag ("/" ++ name)) cs = some (t, rest) ∧
        texts name cs = t :: texts name rest ∧ Flat name rest ∧ rest.length < cs.length := by
  rcases firstBetween?_cases name cs with
    ⟨hnone, hholds⟩ | ⟨before, t, rest, hsome, rfl, hstart, hend⟩
  · exact .inl ⟨hnone, texts_of_not_holds hholds⟩
  · have ht := hflat before t rest rfl hend
    refine .inr ⟨t, rest, hsome, by rw [texts_skip hstart, texts_element hname ht], ?_, ?_⟩
    · exact hflat.of_isInfix ⟨before ++ tag name ++ t ++ tag ("/" ++ name), [], by simp [element]⟩
    · simp [element, tag]
      omega

def isFlat (name : String) (cs : List Char) : Bool :=
  cs.tails.all fun tail => !(tag name).isPrefixOf tail ||
    (cutList (tag ("/" ++ name)) (tail.drop (tag name).length)).all fun r => !r.1.elem '<'

theorem flat_of_isFlat (hname : Bare name) (h : isFlat name cs = true) :
    Flat name cs := by
  intro before t rest heq ht hmem
  have hend : NoStart (tag ("/" ++ name)) t (tag ("/" ++ name) ++ rest) :=
    noStart_of_not_isInfix hname.ending ht (by simp [tag])
  have htail := all_eq_true.1 h (element name t rest) ((mem_tails _ _).2 ⟨before, heq.symm⟩)
  rw [element, drop_left, hend.cutList (tag_ne_nil _),
    isPrefixOf_iff_prefix.2 (prefix_append _ _)] at htail
  simp [hmem] at htail

def trim (t : List Char) : String :=
  strip (ofList t)

theorem firstText?_eq (hname : Bare name) (hflat : Flat name cs) :
    firstText? name cs = (texts name cs).head?.map trim := by
  rw [firstText?, tag_eq, tag_end]
  rcases texts_of_between hname hflat with ⟨hnone, htexts⟩ | ⟨t, rest, hsome, htexts, -, -⟩
  · rw [hnone, htexts]
    rfl
  · rw [hsome, htexts]
    rfl

theorem allTexts_eq (hname : Bare name) (hflat : Flat name cs) :
    allTexts name cs = (texts name cs).map trim := by
  have hfuel : ∀ fuel cs, Flat name cs → cs.length ≤ fuel →
      allTextsFrom name fuel cs = (texts name cs).map trim := by
    intro fuel
    induction fuel with
    | zero =>
      intro cs _ hlength
      obtain rfl := length_eq_zero_iff.1 (Nat.le_zero.1 hlength)
      rfl
    | succ fuel ih =>
      intro cs hflat hlength
      rw [allTextsFrom, tag_eq, tag_end]
      rcases texts_of_between hname hflat with
        ⟨hnone, htexts⟩ | ⟨t, rest, hsome, htexts, hrest, hless⟩
      · rw [hnone, htexts]
        rfl
      · rw [hsome, htexts, map_cons, ← ih rest hrest (by omega)]
        rfl
  exact hfuel cs.length cs hflat (Nat.le_refl _)

/-! ## Blanks around a structure -/

theorem not_mem_of_blank (h : ∀ c ∈ t, isBlank c = true) : '<' ∉ t ∧ '>' ∉ t :=
  ⟨fun hmem => absurd (h '<' hmem) (by decide), fun hmem => absurd (h '>' hmem) (by decide)⟩

theorem Holds.of_append (hrest : '>' ∉ rest) (h : Holds name (cs ++ rest)) : Holds name cs := by
  obtain ⟨before, t, after, heq⟩ := h
  have hsplit : cs ++ rest =
      before ++ (tag name ++ (t ++ '<' :: ("/" ++ name).toList)) ++ ['>'] ++ after := by
    rw [heq]
    simp [element, tag]
  rcases append_eq_append_iff.1 hsplit with ⟨more, hmore, rfl⟩ | ⟨more, rfl, -⟩
  · obtain rfl | ⟨more, c, rfl⟩ := more.eq_nil_or_concat
    · exact ⟨before, t, [], by rw [append_nil] at hmore; simp [← hmore, element, tag]⟩
    · rw [concat_eq_append, ← append_assoc cs] at hmore
      obtain ⟨-, hc⟩ := append_inj' hmore rfl
      refine absurd ?_ hrest
      rw [concat_eq_append, ← hc]
      simp
  · exact ⟨before, t, more, by simp [element, tag]⟩

theorem firstText?_strip (hname : Bare name) (cs : List Char) :
    firstText? name (trim cs).toList = firstText? name cs := by
  obtain ⟨a, b, ha, hb, hcs⟩ := exists_around isBlank (ofList cs)
  rw [← strip, ← trim, toList_ofList] at hcs
  rw [firstText?, firstText?, tag_eq, tag_end]
  generalize (trim cs).toList = y at hcs
  subst hcs
  rcases firstBetween?_cases name y with
    ⟨hnone, hholds⟩ | ⟨before, t, rest, hsome, rfl, hstart, hend⟩
  · rcases firstBetween?_cases name (a ++ (y ++ b)) with
      ⟨hnone', -⟩ | ⟨before, t, rest, -, hcs, -, -⟩
    · rw [hnone, hnone']
    · refine absurd (Holds.of_append (not_mem_of_blank hb).2
        (Holds.of_noStart ?_ ⟨_, _, _, hcs⟩)) hholds
      exact noStart_text (not_mem_of_blank ha).1
  · have hfree := (NoStart.append (noStart_text (not_mem_of_blank ha).1) hstart).not_isInfix
      (tag_ne_nil name)
    have hmore : firstBetween? (tag name) (tag ("/" ++ name))
        (a ++ before ++ element name t (rest ++ b)) =
        some (t, rest ++ b) := firstBetween?_of hname hfree hend
    have hcs : a ++ (before ++ element name t rest ++ b) =
        a ++ before ++ element name t (rest ++ b) := by
      simp [element]
    rw [hsome, hcs, hmore]
    rfl

/-! ## Pages -/

/-- A page with what stands before it. -/
structure Piece where
  gap : List Char
  id : List Char
  body : List Char

/-- The inside of a structure: its pages, and what stands behind the last one. -/
def source (last : List Char) : List Piece → List Char
  | [] => last
  | p :: rest => p.gap ++ (pageStart.toList ++ (p.id ++ ("\">".toList ++ (p.body ++
      (tag "/page" ++ source last rest)))))

def fieldNames : List String :=
  ["title", "description", "importance", "file_path", "related"]

/-- A page that is told from what is around it. -/
structure Piece.Sound (p : Piece) : Prop where
  gap : ¬pageStart.toList <:+: p.gap
  id : '"' ∉ p.id
  body : ¬tag "/page" <:+: p.body

def Piece.page (p : Piece) : Page where
  id := String.ofList p.id
  title := (texts "title" p.body).head?.map trim
  description := (texts "description" p.body).head?.map trim
  importance := (texts "importance" p.body).head?.map trim
  files := (texts "file_path" p.body).map trim
  related := (texts "related" p.body).map trim

variable {p : Piece}

theorem ofBody_eq_page (h : ∀ name ∈ fieldNames, Flat name p.body) :
    Page.ofBody (String.ofList p.id) p.body = p.page := by
  simp only [fieldNames, forall_mem_cons] at h
  obtain ⟨htitle, hdescription, himportance, hfile, hrelated, -⟩ := h
  rw [Page.ofBody, Piece.page, firstText?_eq (by decide) htitle,
    firstText?_eq (by decide) hdescription, firstText?_eq (by decide) himportance,
    allTexts_eq (by decide) hfile, allTexts_eq (by decide) hrelated]

variable {last : List Char} {pieces : List Piece}

theorem pagesFrom_source (hpieces : ∀ p ∈ pieces, p.Sound) (hlast : ¬pageStart.toList <:+: last)
    {fuel : Nat} (hfuel : (source last pieces).length ≤ fuel) :
    pagesFrom fuel (source last pieces) =
      pieces.map fun p => Page.ofBody (String.ofList p.id) p.body := by
  induction pieces generalizing fuel with
  | nil =>
    cases fuel with
    | zero => rfl
    | succ fuel =>
      have hnone : cutList pageStart.toList last = none := by
        rcases cutList_cases (t := pageStart.toList) (by decide) last with
          ⟨hnone, -⟩ | ⟨read, rest, -, rfl, -⟩
        · exact hnone
        · exact absurd ⟨read, rest, append_assoc _ _ _⟩ hlast
      rw [pagesFrom, source, firstBetween?, hnone]
      rfl
  | cons p pieces ih =>
    rw [forall_mem_cons] at hpieces
    obtain ⟨⟨hgap, hid, hbody⟩, hpieces⟩ := hpieces
    rw [source] at hfuel ⊢
    have hquote : "\">".toList.length = 2 := rfl
    simp only [length_append, hquote] at hfuel
    cases fuel with
    | zero => omega
    | succ fuel =>
      have hstart : ∀ after, NoStart pageStart.toList p.gap (pageStart.toList ++ after) :=
        fun after => .of_not_isInfix (by simp [pageStart]) hgap
      have hend : ∀ after, NoStart "\">".toList p.id ("\">".toList ++ after) :=
        fun after => .of_head rfl hid
      have hclose : NoStart (tag "/page") p.body (tag "/page" ++ source last pieces) :=
        noStart_of_not_isInfix (by decide) hbody (by simp [tag])
      have hrest : pagesFrom fuel (source last pieces) = _ := ih hpieces (by omega)
      rw [pagesFrom, firstBetween?, (hstart _).cutList (by decide), map_cons, ← hrest]
      simp only [Option.bind_eq_bind, Option.bind_some, (hend _).cutList (by decide),
        show "</page>".toList = tag "/page" from rfl, hclose.cutList (tag_ne_nil _)]
      rfl

theorem strip_source (last : List Char) (pieces : List Piece) :
    (trim (source last pieces)).toList =
      match pieces with
      | [] => dropEndWhile isBlank (last.dropWhile isBlank)
      | p :: rest =>
          source (dropEndWhile isBlank last)
            ({ p with gap := p.gap.dropWhile isBlank } :: rest) := by
  have hend : ∀ pieces : List Piece, pieces ≠ [] →
      dropEndWhile isBlank (source last pieces) = source (dropEndWhile isBlank last) pieces := by
    intro pieces hne
    induction pieces with
    | nil => exact absurd rfl hne
    | cons p rest ih =>
      have hsplit : ∀ last, source last (p :: rest) = (p.gap ++ (pageStart.toList ++ (p.id ++
          ("\">".toList ++ (p.body ++ "</page".toList))))) ++ '>' :: source last rest := by
        intro last
        simp [source, tag]
      rw [hsplit, hsplit, dropEndWhile_append_cons (by decide)]
      cases rest with
      | nil => rfl
      | cons q rest => rw [ih (cons_ne_nil q rest)]
  rw [trim, strip, trimBy, toList_ofList, toList_ofList]
  cases pieces with
  | nil => rfl
  | cons p rest =>
    dsimp only
    rw [← hend _ (cons_ne_nil _ _), source, source]
    congr 1
    exact dropWhile_append_cons (by decide) p.gap _

theorem pages_strip_source (hpieces : ∀ p ∈ pieces, p.Sound) (hlast : ¬pageStart.toList <:+: last) :
    (Structure.ofBody (trim (source last pieces)).toList).pages =
      pieces.map fun p => Page.ofBody (ofList p.id) p.body := by
  have hinside : ∀ cs : List Char, dropEndWhile isBlank cs <:+: cs := by
    intro cs
    rw [dropEndWhile, ← reverse_infix, reverse_reverse]
    exact (dropWhile_suffix _).isInfix
  rw [Structure.ofBody, strip_source]
  cases pieces with
  | nil =>
    exact @pagesFrom_source _ [] hpieces
      (fun h => hlast (h.trans ((hinside _).trans (dropWhile_suffix _).isInfix))) _ (Nat.le_refl _)
  | cons p rest =>
    rw [forall_mem_cons] at hpieces
    refine pagesFrom_source (forall_mem_cons.2 ⟨?_, hpieces.2⟩)
      (fun h => hlast (h.trans (hinside _)))
      (Nat.le_refl _)
    exact { hpieces.1 with gap := fun h => hpieces.1.gap (h.trans (dropWhile_suffix _).isInfix) }

/-! ## Printed structures -/

/-- A line in print: an element with its text, or a tag alone. -/
structure Line where
  indent : String
  name : String
  text : Option String

def Line.print (l : Line) : List Char :=
  l.indent.toList ++ l.text.elim (tag l.name ++ ['\n']) fun t => element l.name t.toList ['\n']

def printed (lines : List Line) : List Char :=
  lines.flatMap Line.print

structure Line.Neat (l : Line) : Prop where
  indent : '<' ∉ l.indent.toList
  name : Bare l.name
  text : ∀ t ∈ l.text, '<' ∉ t.toList

def fields (indent name : String) (ts : List String) : List Line :=
  ts.map fun t => ⟨indent, name, some t⟩

def Page.lines (p : Page) : List Line :=
  fields "      " "title" p.title.toList ++ fields "      " "description" p.description.toList ++
    fields "      " "importance" p.importance.toList ++ [⟨"      ", "relevant_files", none⟩] ++
    fields "        " "file_path" p.files ++ [⟨"      ", "/relevant_files", none⟩] ++
    [⟨"      ", "related_pages", none⟩] ++ fields "        " "related" p.related ++
    [⟨"      ", "/related_pages", none⟩]

def Structure.lines (s : Structure) : List Line :=
  fields "  " "title" s.title.toList ++ fields "  " "description" s.description.toList ++
    [⟨"  ", "pages", none⟩]

theorem toList_line (indent name t : String) :
    (line indent name t).toList = Line.print ⟨indent, name, some t⟩ := by
  simp [line, Line.print, element, tag, toString]

theorem toList_optionalLine (indent name : String) (t : Option String) :
    (optionalLine indent name t).toList = printed (fields indent name t.toList) := by
  cases t with
  | none => rfl
  | some t => simp [optionalLine, toList_line, printed, fields]

theorem toList_join_lines (indent name : String) (ts : List String) :
    (join (ts.map (line indent name))).toList = printed (fields indent name ts) := by
  simp only [String.toList_join, flatMap_map, toList_line, printed, fields]

def Page.inner (p : Page) : List Char :=
  '\n' :: (printed p.lines ++ "    ".toList)

theorem printed_append (lines more : List Line) :
    printed (lines ++ more) = printed lines ++ printed more :=
  flatMap_append

theorem toList_print_page (p : Page) :
    p.print.toList =
      "    ".toList ++ (pageStart.toList ++ (p.id.toList ++ ("\">".toList ++ (p.inner ++
      (tag "/page" ++ ['\n']))))) := by
  have hstart : "    <page id=\"".toList = "    ".toList ++ pageStart.toList := rfl
  have hid : "\">\n".toList = "\">".toList ++ ['\n'] := rfl
  have hfiles : "      <relevant_files>\n".toList =
      printed [⟨"      ", "relevant_files", none⟩] := rfl
  have hfilesEnd : "      </relevant_files>\n".toList =
      printed [⟨"      ", "/relevant_files", none⟩] :=
    rfl
  have hrelated : "      <related_pages>\n".toList =
      printed [⟨"      ", "related_pages", none⟩] := rfl
  have hrelatedEnd : "      </related_pages>\n".toList =
      printed [⟨"      ", "/related_pages", none⟩] :=
    rfl
  have hend : "    </page>\n".toList = "    ".toList ++ (tag "/page" ++ ['\n']) := rfl
  unfold Page.print Page.inner Page.lines
  simp only [String.toList_append, toString, toList_optionalLine, toList_join_lines, printed_append,
    hstart, hid, hfiles, hfilesEnd, hrelated, hrelatedEnd, hend]
  simp only [append_assoc, cons_append, nil_append]

def printedPages (pages : List Page) : List Char :=
  (join (pages.map Page.print)).toList ++ "  </pages>\n".toList

def Structure.inner (s : Structure) : List Char :=
  '\n' :: printed s.lines ++ printedPages s.pages

theorem toList_print (s : Structure) :
    s.print.toList = openTag.toList ++ (s.inner ++ closeTag.toList) := by
  have hopen : "<wiki_structure>\n".toList = openTag.toList ++ ['\n'] := rfl
  have hpages : "  <pages>\n".toList = printed [⟨"  ", "pages", none⟩] := rfl
  have hclose : "  </pages>\n</wiki_structure>".toList =
      "  </pages>\n".toList ++ closeTag.toList := rfl
  unfold Structure.print Structure.inner Structure.lines printedPages
  simp only [String.toList_append, toList_optionalLine, printed_append, hopen, hpages, hclose]
  simp only [append_assoc, cons_append, nil_append]

/-! ## Reading what was printed -/

theorem Line.noStart {l : Line} (hm : m.head? = some '<') (hl : l.Neat)
    (h : Apart m l.name ∧ Apart m ("/" ++ l.name)) : NoStart m l.print rest := by
  have hfeed : NoStart m ['\n'] rest := .of_head hm (by decide)
  refine .append (.of_head hm hl.indent) ?_
  cases htext : l.text with
  | none => exact .append (noStart_tag hm hl.name h.1) hfeed
  | some t =>
    exact .append (noStart_tag hm hl.name h.1) (.append (.of_head hm (hl.text t htext))
      (.append (noStart_tag hm hl.name.ending h.2) hfeed))

theorem noStart_printed {lines : List Line} (hm : m.head? = some '<')
    (h : ∀ l ∈ lines, l.Neat ∧ Apart m l.name ∧ Apart m ("/" ++ l.name)) :
    NoStart m (printed lines) rest := by
  induction lines with
  | nil => exact .nil m rest
  | cons l lines ih =>
    rw [forall_mem_cons] at h
    exact .append (l.noStart hm h.1.1 h.1.2) (ih h.2)

def named (name : String) (l : Line) : Option (List Char) :=
  if l.name = name then l.text.map toList else none

theorem texts_printed {lines : List Line} (hname : Bare name)
    (h : ∀ l ∈ lines, l.Neat ∧ "/" ++ l.name ≠ name ∧ (l.text = none → l.name ≠ name))
    (hrest : '<' ∉ rest) :
    Flat name (printed lines ++ rest) ∧ texts name (printed lines ++ rest) =
      lines.filterMap (named name) := by
  induction lines with
  | nil =>
    have hskip : NoStart (tag name) rest [] := noStart_text hrest
    have hnone : ¬Holds name [] := by simp [Holds, element, tag]
    have htexts := texts_skip hskip
    have hflat : Flat name (rest ++ []) := .skip hskip fun before t after heq _ =>
      absurd ⟨before, t, after, heq⟩ hnone
    rw [append_nil] at htexts hflat
    exact ⟨hflat, htexts.trans (texts_of_not_holds hnone)⟩
  | cons l lines ih =>
    rw [forall_mem_cons] at h
    obtain ⟨⟨hl, hend, hlone⟩, hlines⟩ := h
    obtain ⟨hflat, htexts⟩ := ih hlines
    have happend : printed (l :: lines) ++ rest = l.print ++ (printed lines ++ rest) :=
      append_assoc _ _ _
    rw [happend, filterMap_cons, ← htexts]
    by_cases hsame : l.name = name
    · obtain ⟨t, ht⟩ := Option.ne_none_iff_exists'.1 fun hnone => hlone hnone hsame
      have hfree := hl.text t ht
      have hprint : l.print ++ (printed lines ++ rest) =
          l.indent.toList ++ element name t.toList (['\n'] ++ (printed lines ++ rest)) := by
        simp [Line.print, ht, hsame, element]
      have hindent : ∀ rest, NoStart (tag name) l.indent.toList rest :=
        fun _ => noStart_text hl.indent
      rw [hprint, texts_skip (hindent _), texts_element hname hfree, texts_skip noStart_feed, named,
        if_pos hsame, ht]
      exact ⟨.skip (hindent _) (.element hname hfree (.skip noStart_feed hflat)), rfl⟩
    · have hskip : NoStart (tag name) l.print (printed lines ++ rest) :=
        l.noStart rfl hl (apart_both hname hl.name (Ne.symm hsame) hend.symm)
      rw [texts_skip hskip, named, if_neg hsame]
      exact ⟨.skip hskip hflat, rfl⟩

theorem filterMap_named_fields (indent other : String) (ts : List String) :
    (fields indent other ts).filterMap (named name) =
      if other = name then ts.map toList else [] := by
  induction ts with
  | nil => simp [fields]
  | cons t ts ih =>
    rw [fields] at ih ⊢
    by_cases h : other = name <;> simp_all [named]

theorem texts_block {lines : List Line} (hname : Bare name)
    (h : ∀ l ∈ lines, l.Neat ∧ "/" ++ l.name ≠ name ∧ (l.text = none → l.name ≠ name))
    (hrest : '<' ∉ rest) :
    Flat name ('\n' :: (printed lines ++ rest)) ∧
      texts name ('\n' :: (printed lines ++ rest)) = lines.filterMap (named name) := by
  obtain ⟨hflat, htexts⟩ := texts_printed hname h hrest
  exact ⟨.skip noStart_feed hflat, (texts_skip noStart_feed).trans htexts⟩

theorem trim_of_mem_texts (h : t ∈ texts name cs) : '<' ∉ (trim t).toList ∧
    strip (trim t) = trim t := by
  refine ⟨fun hmem => not_mem_of_mem_texts h ?_, trimBy_trimBy⟩
  obtain ⟨before, after, -, -, heq⟩ := exists_around isBlank (ofList t)
  rw [toList_ofList] at heq
  rw [heq]
  exact mem_append_right _ (mem_append_left _ hmem)

theorem trim_all (name : String) (cs : List Char) :
    ((texts name cs).map trim).map (fun t => trim t.toList) = (texts name cs).map trim := by
  rw [map_map]
  exact map_congr_left fun t ht => (congrArg strip String.ofList_toList).trans
    (trim_of_mem_texts ht).2

theorem trim_first (name : String) (cs : List Char) :
    (((texts name cs).head?.map trim).toList.map toList).head?.map trim =
      (texts name cs).head?.map trim := by
  have hhead := congrArg head? (trim_all name cs)
  rw [head?_map, head?_map] at hhead
  refine Eq.trans ?_ hhead
  cases (texts name cs).head? <;> rfl

def groupTags : List String :=
  ["relevant_files", "/relevant_files", "related_pages", "/related_pages"]

/-- A line for an element of a body, or one of the tags around such lines. -/
structure Line.From (body : List Char) (l : Line) : Prop where
  indent : '<' ∉ l.indent.toList
  name : l.name ∈ fieldNames ∧ (∃ t ∈ texts l.name body, l.text = some (trim t)) ∨
    l.name ∈ groupTags ∧ l.text = none

theorem fields_from {indent : String} {ts : List String} {body : List Char}
    (hindent : '<' ∉ indent.toList) (hname : name ∈ fieldNames)
    (h : ∀ t ∈ ts, t ∈ (texts name body).map trim) : ∀ l ∈ fields indent name ts, l.From body := by
  refine forall_mem_map.2 fun t ht => ⟨hindent, .inl ⟨hname, ?_⟩⟩
  obtain ⟨u, hu, rfl⟩ := mem_map.1 (h t ht)
  exact ⟨u, hu, rfl⟩

theorem Piece.lines_from (p : Piece) : ∀ l ∈ p.page.lines, l.From p.body := by
  have hfirst : ∀ name, ∀ t ∈ ((texts name p.body).head?.map trim).toList,
      t ∈ (texts name p.body).map trim := by
    intro name t ht
    rw [← head?_map, Option.mem_toList] at ht
    exact mem_of_mem_head? ht
  have hfield : '<' ∉ "      ".toList := by decide
  have hentry : '<' ∉ "        ".toList := by decide
  have hlone : ∀ {name}, name ∈ groupTags → (Line.mk "      " name none).From p.body :=
    fun hname => ⟨hfield, .inr ⟨hname, rfl⟩⟩
  simp only [Page.lines, Piece.page, forall_mem_append, forall_mem_singleton]
  refine ⟨⟨⟨⟨⟨⟨⟨⟨?_, ?_⟩, ?_⟩, hlone (by decide)⟩, ?_⟩, hlone (by decide)⟩, hlone (by decide)⟩, ?_⟩,
    hlone (by decide)⟩
  · exact fields_from hfield (by decide) (hfirst _)
  · exact fields_from hfield (by decide) (hfirst _)
  · exact fields_from hfield (by decide) (hfirst _)
  · exact fields_from hentry (by decide) fun _ ht => ht
  · exact fields_from hentry (by decide) fun _ ht => ht

theorem bare_of_mem : ∀ name ∈ fieldNames ++ groupTags, Bare name := by
  decide

section

variable {l : Line} {body : List Char} (h : l.From body)
include h

theorem Line.From.mem : l.name ∈ fieldNames ++ groupTags := by
  rcases h.name with ⟨hmem, -⟩ | ⟨hmem, -⟩
  · exact mem_append_left _ hmem
  · exact mem_append_right _ hmem

theorem Line.From.neat : l.Neat := by
  refine ⟨h.indent, bare_of_mem _ h.mem, fun u hu => ?_⟩
  rcases h.name with ⟨-, t, ht, htext⟩ | ⟨-, htext⟩
  · obtain rfl := Option.some.inj (hu.symm.trans htext)
    exact (trim_of_mem_texts ht).1
  · exact absurd (htext.symm.trans hu) (by simp)

end

theorem Piece.texts_inner (p : Piece) (hname : name ∈ fieldNames) :
    Flat name p.page.inner ∧ texts name p.page.inner = p.page.lines.filterMap (named name) := by
  have hbare := bare_of_mem name (mem_append_left _ hname)
  have happart : ∀ name ∈ fieldNames, (∀ other ∈ fieldNames ++ groupTags, "/" ++ other ≠ name) ∧
      ∀ other ∈ groupTags, other ≠ name := by decide
  have hlines : ∀ l ∈ p.page.lines,
      l.Neat ∧ "/" ++ l.name ≠ name ∧ (l.text = none → l.name ≠ name) := by
    intro l hl
    have hfrom := p.lines_from l hl
    refine ⟨hfrom.neat, (happart name hname).1 _ hfrom.mem, fun hnone => ?_⟩
    rcases hfrom.name with ⟨-, t, -, htext⟩ | ⟨hmem, -⟩
    · exact absurd (hnone.symm.trans htext) (by simp)
    · exact (happart name hname).2 _ hmem
  exact texts_block hbare hlines (by decide)

theorem Page.named_lines (q : Page) :
    q.lines.filterMap (named "title") = q.title.toList.map toList ∧
      q.lines.filterMap (named "description") = q.description.toList.map toList ∧
      q.lines.filterMap (named "importance") = q.importance.toList.map toList ∧
      q.lines.filterMap (named "file_path") = q.files.map toList ∧
      q.lines.filterMap (named "related") = q.related.map toList := by
  simp [Page.lines, filterMap_named_fields, named]

theorem Piece.ofBody_inner (p : Piece) :
    Page.ofBody (ofList p.id) p.page.inner = p.page := by
  have hread := ofBody_eq_page (p := { p with body := p.page.inner }) fun name hname =>
    (p.texts_inner hname).1
  obtain ⟨htitle, hdescription, himportance, hfiles, hrelated⟩ := p.page.named_lines
  rw [← (p.texts_inner (by decide)).2] at htitle hdescription himportance hfiles hrelated
  refine hread.trans ?_
  change Page.mk _ _ _ _ _ _ = Page.mk _ _ _ _ _ _
  rw [htitle, hdescription, himportance, hfiles, hrelated, map_map, map_map]
  exact congr (congr (congr (congr (congrArg _ (trim_first _ _)) (trim_first _ _)) (trim_first _ _))
    (trim_all _ _)) (trim_all _ _)

/-! ## Tags that are only in the ids -/

theorem Holds.of_infixes {a b : List Char} (ha : tag name <:+: a) (hb : tag ("/" ++ name) <:+: b) :
    Holds name (a ++ b) := by
  obtain ⟨before, u, rfl⟩ := ha
  obtain ⟨v, after, rfl⟩ := hb
  exact ⟨before, u ++ v, after, by simp [element]⟩

/-- An element that is across a character of neither of its tags has one tag on each side. -/
theorem Holds.cut {x y : List Char} {c : Char} (hstart : c ∉ tag name)
    (hend : c ∉ tag ("/" ++ name))
    (h : Holds name (x ++ c :: y)) :
    Holds name x ∨ Holds name y ∨ tag name <:+: x ∧ tag ("/" ++ name) <:+: y := by
  obtain ⟨before, t, after, heq⟩ := h
  have hfirst : tag name <:+: before ++ tag name := (suffix_append _ _).isInfix
  have hsecond : tag ("/" ++ name) <:+: t ++ (tag ("/" ++ name) ++ after) :=
    ⟨t, after, append_assoc _ _ _⟩
  rw [element, ← append_assoc] at heq
  rcases append_eq_append_iff.1 heq with ⟨more, hx, hrest⟩ | ⟨more, hx, hrest⟩
  · rw [hx] at hfirst
    cases more with
    | nil =>
      rw [nil_append] at hrest
      rw [append_nil] at hfirst
      rw [← hrest] at hsecond
      exact .inr (.inr
        ⟨hfirst, (isInfix_or_isInfix (a := []) hend hsecond).resolve_left (by simp [tag])⟩)
    | cons d more =>
      obtain ⟨rfl, rfl⟩ := List.cons.inj hrest
      rcases isInfix_or_isInfix hstart hfirst with hin | hin
      · exact .inr (.inr ⟨hin, hsecond.trans (suffix_append _ _).isInfix⟩)
      · exact .inr (.inl (.of_infixes hin hsecond))
  · rw [hrest] at hsecond
    rcases isInfix_or_isInfix hend hsecond with hin | hin
    · exact .inl (hx ▸ .of_infixes hfirst hin)
    · exact .inr (.inr ⟨hfirst.trans (hx ▸ (prefix_append _ _).isInfix), hin⟩)

def Piece.Lacks (p : Piece) (m : String) : Prop :=
  ∀ l ∈ p.page.lines, l.name ≠ m ∧ "/" ++ l.name ≠ m

/-- Names of elements that a structure has, and its pages have too. -/
def headNames : List String :=
  ["title", "description"]

def frontNames : List String :=
  "pages" :: headNames

theorem head_bare (hname : name ∈ headNames) :
    Bare name ∧ name ≠ "pages" ∧ ∀ other ∈ frontNames, name ≠ "/" ++ other := by
  have hall : ∀ name ∈ headNames, Bare name ∧ name ≠ "pages" ∧
      ∀ other ∈ frontNames, name ≠ "/" ++ other := by decide
  exact hall name hname

theorem Piece.lacks_of_not_holds (hname : name ∈ headNames)
    (h : ¬Holds name p.body) : p.Lacks name ∧ p.Lacks ("/" ++ name) := by
  have hother : ∀ name ∈ headNames, ∀ other ∈ fieldNames ++ groupTags,
      "/" ++ other ≠ name ∧ other ≠ "/" ++ name := by decide
  have hgroup : ∀ name ∈ headNames, ∀ other ∈ groupTags, other ≠ name := by decide
  have hsame : ∀ l ∈ p.page.lines, l.name ≠ name := by
    intro l hl
    rcases (p.lines_from l hl).name with ⟨-, t, ht, -⟩ | ⟨hmem, -⟩
    · rintro rfl
      rw [texts_of_not_holds h] at ht
      cases ht
    · exact hgroup name hname _ hmem
  have hmem := fun l hl => (p.lines_from l hl).mem
  exact ⟨fun l hl => ⟨hsame l hl, (hother name hname _ (hmem l hl)).1⟩,
    fun l hl => ⟨(hother name hname _ (hmem l hl)).2, fun heq => hsame l hl (by simpa using heq)⟩⟩

theorem Piece.lacks_end (p : Piece) : p.Lacks "/page" ∧ p.Lacks "/wiki_structure" := by
  have hother : ∀ other ∈ fieldNames ++ groupTags, (other ≠ "/page" ∧ "/" ++ other ≠ "/page") ∧
      other ≠ "/wiki_structure" ∧ "/" ++ other ≠ "/wiki_structure" := by decide
  exact ⟨fun l hl => (hother _ (p.lines_from l hl).mem).1,
    fun l hl => (hother _ (p.lines_from l hl).mem).2⟩

theorem Piece.noStart_inner (hname : Bare name) (h : p.Lacks name) :
    NoStart (tag name) p.page.inner rest := by
  refine @NoStart.append _ ['\n'] _ _ noStart_feed (.append ?_ (noStart_text (by decide)))
  refine noStart_printed rfl fun l hl => ?_
  have hneat := (p.lines_from l hl).neat
  exact ⟨hneat, apart_both hname hneat.name (h l hl).1.symm (h l hl).2.symm⟩

theorem printedPages_cons (p : Page) (pages : List Page) :
    printedPages (p :: pages) = "    ".toList ++ pageStart.toList ++ (p.id.toList ++ '"' ::
      (['>'] ++ (p.inner ++ (tag "/page" ++ ['\n'])) ++ printedPages pages)) := by
  have hquote : "\">".toList = ['"', '>'] := rfl
  rw [printedPages, map_cons, String.join_cons, String.toList_append, toList_print_page,
    hquote, printedPages]
  simp only [append_assoc, cons_append, nil_append]

theorem source_cons (p : Piece) (pieces : List Piece) :
    source last (p :: pieces) = p.gap ++ pageStart.toList ++ p.id ++
      ("\">".toList ++ p.body ++ tag "/page" ++ source last pieces) := by
  simp only [source, append_assoc]

/-- Names of tags that print puts around the pages, and not between them. -/
def outerNames : List String :=
  ["title", "/title", "description", "/description", "/wiki_structure"]

section

variable {m : String} (hm : m ∈ outerNames)
include hm

theorem outer_bare : Bare m ∧ '"' ∉ tag m := by
  have hall : ∀ m ∈ outerNames, Bare m ∧ '"' ∉ tag m := by decide
  exact hall m hm

theorem outer_noStart_page : NoStart (tag m) ("    ".toList ++ pageStart.toList) rest := by
  have hall : ∀ m ∈ outerNames, ∀ rest, ¬tag m <+: pageStart.toList ++ rest := by
    simp [outerNames, tag, pageStart]
  exact .append (noStart_text (by decide)) (.cons (hall m hm _) (noStart_text (by decide)))

theorem outer_noStart_end : NoStart (tag m) (tag "/page" ++ ['\n']) rest ∧
    NoStart (tag m) (printedPages []) rest := by
  have hall : ∀ m ∈ outerNames, m ≠ "/page" ∧ m ≠ "/pages" := by decide
  have hend : ∀ other rest, Bare other → m ≠ other → NoStart (tag m) (tag other) rest :=
    fun other rest hother hne => noStart_tag rfl hother (apart_tag (outer_bare hm).1 hother hne)
  refine ⟨.append (hend _ _ (by decide) (hall m hm).1) noStart_feed, ?_⟩
  rw [show printedPages [] = "  ".toList ++ (tag "/pages" ++ ['\n']) from rfl]
  exact .append (noStart_text (by decide))
    (.append (hend _ _ (by decide) (hall m hm).2) noStart_feed)

theorem outer_noStart_piece (h : p.Lacks m) :
    NoStart (tag m) (['>'] ++ (p.page.inner ++ (tag "/page" ++ ['\n']))) rest :=
  .append (noStart_text (by decide))
    (.append (p.noStart_inner (outer_bare hm).1 h) (outer_noStart_end hm).1)

/-- What print adds between the pages holds no such tag: one in print was in an id before. -/
theorem infix_source (h : ∀ p ∈ pieces, p.Lacks m)
    (hin : tag m <:+: printedPages (pieces.map Piece.page)) : tag m <:+: source last pieces := by
  induction pieces with
  | nil =>
    have hnone : NoStart (tag m) (printedPages []) [] := (outer_noStart_end hm).2
    exact absurd hin (hnone.not_isInfix (tag_ne_nil m))
  | cons p pieces ih =>
    rw [forall_mem_cons] at h
    rw [map_cons, printedPages_cons] at hin
    rw [source_cons]
    have hid : p.page.id.toList = p.id := toList_ofList
    rcases isInfix_or_isInfix (outer_bare hm).2
      ((outer_noStart_page hm).infix_of_append hin) with hin | hin
    · exact (hid ▸ hin).trans ((suffix_append _ _).isInfix.trans (prefix_append _ _).isInfix)
    · refine (ih h.2 ((outer_noStart_piece hm h.1).infix_of_append hin)).trans ?_
      exact ((suffix_append _ _).trans (suffix_append _ _)).isInfix

end

theorem holds_source (hname : name ∈ headNames) (h : ∀ p ∈ pieces, ¬Holds name p.body)
    (hholds : Holds name (printedPages (pieces.map Piece.page))) :
    Holds name (source last pieces) := by
  have houter : ∀ name ∈ headNames, name ∈ outerNames ∧ "/" ++ name ∈ outerNames := by decide
  obtain ⟨hstart, hend⟩ := houter name hname
  induction pieces with
  | nil =>
    have hnone : NoStart (tag name) (printedPages []) [] := (outer_noStart_end hstart).2
    refine absurd (Holds.of_noStart hnone ?_) ?_
    · rwa [append_nil]
    · simp [Holds, element, tag]
  | cons p pieces ih =>
    rw [forall_mem_cons] at h
    have hlacks := p.lacks_of_not_holds hname h.1
    have hid : p.page.id.toList = p.id := toList_ofList
    rw [map_cons, printedPages_cons, hid] at hholds
    rw [source_cons]
    rcases Holds.cut (outer_bare hstart).2 (outer_bare hend).2
      (hholds.of_noStart (outer_noStart_page hstart))
      with hin | hin | ⟨hin, hout⟩
    · exact hin.of_isInfix ((suffix_append _ _).isInfix.trans (prefix_append _ _).isInfix)
    · refine (ih h.2 (hin.of_noStart (outer_noStart_piece hstart hlacks.1))).of_isInfix ?_
      exact ((suffix_append _ _).trans (suffix_append _ _)).isInfix
    · have hends : tag ("/" ++ name) <:+: source last pieces := infix_source hend
        (fun q hq => (q.lacks_of_not_holds hname (h.2 q hq)).2)
        ((outer_noStart_piece hend hlacks.2).infix_of_append hout)
      exact .of_infixes (hin.trans (suffix_append _ _).isInfix)
        (hends.trans (suffix_append _ _).isInfix)

/-! ## Building a structure anew -/

theorem exists_source_of_printed (pieces : List Piece) {front : List Char}
    (hids : ∀ p ∈ pieces, '"' ∉ p.id) (hfront : ∀ rest, NoStart pageStart.toList front rest) :
    ∃ last more, front ++ printedPages (pieces.map Piece.page) = source last more ∧
      ¬pageStart.toList <:+: last ∧ (∀ p ∈ more, p.Sound) ∧
      more.map (fun p => Page.ofBody (String.ofList p.id) p.body) = pieces.map Piece.page := by
  induction pieces generalizing front with
  | nil =>
    refine ⟨front ++ printedPages [], [], rfl, ?_, by simp, rfl⟩
    have hend : NoStart pageStart.toList (front ++ printedPages []) [] :=
      .append (hfront _) (.of_not_isInfix (by simp) (by decide))
    exact hend.not_isInfix (by decide)
  | cons p pieces ih =>
    rw [forall_mem_cons] at hids
    obtain ⟨last, more, heq, hlast, hmore, hread⟩ := @ih ['\n'] hids.2
      (fun rest => .of_head rfl (by decide))
    refine ⟨last, ⟨front ++ "    ".toList, p.id, p.page.inner⟩ :: more, ?_, hlast, ?_, ?_⟩
    · rw [source_cons, ← heq, map_cons, printedPages_cons]
      simp [Piece.page]
    · refine forall_mem_cons.2 ⟨⟨?_, hids.1, ?_⟩, hmore⟩
      · have hgap : NoStart pageStart.toList (front ++ "    ".toList) [] :=
          .append (hfront _) (.of_head rfl (by decide))
        exact hgap.not_isInfix (by decide)
      · have hinner : NoStart (tag "/page") p.page.inner [] :=
          p.noStart_inner (by decide) p.lacks_end.1
        exact hinner.not_isInfix (tag_ne_nil _)
    · rw [map_cons, map_cons, hread, p.ofBody_inner]

theorem firstText?_append (hname : Bare name) (hflat : Flat name cs) (hsome : texts name cs ≠ [])
    (more : List Char) : firstText? name (cs ++ more) = (texts name cs).head?.map trim := by
  rw [← firstText?_eq hname hflat, firstText?, firstText?, tag_eq, tag_end]
  rcases firstBetween?_cases name cs with ⟨-, hholds⟩ | ⟨before, t, rest, hfirst, rfl, hstart, hend⟩
  · exact absurd (texts_of_not_holds hholds) hsome
  · have happend : before ++ element name t rest ++ more =
        before ++ element name t (rest ++ more) := by
      simp [element]
    rw [hfirst, happend, firstBetween?_of hname (hstart.not_isInfix (tag_ne_nil name)) hend]
    rfl

theorem firstText?_eq_none (h : ¬Holds name cs) : firstText? name cs = none := by
  rw [firstText?, tag_eq, tag_end]
  rcases firstBetween?_cases name cs with ⟨hnone, -⟩ | ⟨before, t, rest, -, heq, -, -⟩
  · rw [hnone]
    rfl
  · exact absurd ⟨before, t, rest, heq⟩ h

theorem not_holds_of_texts_eq_nil (hname : Bare name) (hflat : Flat name cs)
    (h : texts name cs = []) :
    ¬Holds name cs := by
  rcases firstBetween?_cases name cs with ⟨-, hholds⟩ | ⟨before, t, rest, -, rfl, hstart, hend⟩
  · exact hholds
  · rw [texts_skip hstart, texts_element hname (hflat before t rest rfl hend)] at h
    cases h

def structureOf (last : List Char) (pieces : List Piece) : Structure where
  title := (texts "title" (source last pieces)).head?.map trim
  description := (texts "description" (source last pieces)).head?.map trim
  pages := pieces.map Piece.page

def Structure.front (s : Structure) : List Char :=
  '\n' :: printed s.lines

theorem structureOf_lines : ∀ l ∈ (structureOf last pieces).lines, l.Neat ∧ l.name ∈ frontNames ∧
    (l.name ≠ "pages" → l.text ≠ none ∧ texts l.name (source last pieces) ≠ []) := by
  have hindent : '<' ∉ "  ".toList := by decide
  have hfield : ∀ name, Bare name → name ∈ frontNames →
      ∀ l ∈ fields "  " name ((texts name (source last pieces)).head?.map trim).toList,
        l.Neat ∧ l.name ∈ frontNames ∧
          (l.name ≠ "pages" → l.text ≠ none ∧ texts l.name (source last pieces) ≠ []) := by
    intro name hbare hname
    refine forall_mem_map.2 fun t ht => ?_
    obtain ⟨u, hu, rfl⟩ := Option.map_eq_some_iff.1 (Option.mem_toList.1 ht)
    have hmem := mem_of_mem_head? hu
    refine ⟨⟨hindent, hbare, fun v hv => ?_⟩, hname, fun _ => ⟨by simp, ne_nil_of_mem hmem⟩⟩
    obtain rfl := Option.some.inj hv
    exact (trim_of_mem_texts hmem).1
  rw [Structure.lines, forall_mem_append, forall_mem_append, forall_mem_singleton]
  refine ⟨⟨hfield _ (by decide) (by decide), hfield _ (by decide) (by decide)⟩, ?_⟩
  exact ⟨⟨hindent, by decide, by simp⟩, by decide, fun h => absurd rfl h⟩

theorem noStart_front (hm : m.head? = some '<')
    (h : ∀ l ∈ (structureOf last pieces).lines, Apart m l.name ∧ Apart m ("/" ++ l.name)) :
    NoStart m (structureOf last pieces).front rest := by
  have hfeed : ∀ rest, NoStart m ['\n'] rest := fun _ => .of_head hm (by decide)
  exact .append (hfeed _) (noStart_printed hm fun l hl => ⟨(structureOf_lines l hl).1, h l hl⟩)

theorem noStart_front_page : NoStart pageStart.toList (structureOf last pieces).front rest := by
  have happart : ∀ name ∈ frontNames,
      Apart pageStart.toList name ∧ Apart pageStart.toList ("/" ++ name) := by
    simp [frontNames, headNames, Apart, tag, pageStart]
  exact noStart_front rfl fun l hl => happart _ (structureOf_lines l hl).2.1

theorem noStart_front_close :
    NoStart (tag "/wiki_structure") (structureOf last pieces).front rest := by
  have hne : ∀ name ∈ frontNames, "/wiki_structure" ≠ name ∧ "/wiki_structure" ≠ "/" ++ name := by
    decide
  refine noStart_front rfl fun l hl => ?_
  obtain ⟨hneat, hname, -⟩ := structureOf_lines l hl
  exact apart_both (by decide) hneat.name (hne _ hname).1 (hne _ hname).2

section

variable (hname : name ∈ headNames)
include hname

theorem noStart_front_name (h : texts name (source last pieces) = []) :
    NoStart (tag name) (structureOf last pieces).front rest := by
  obtain ⟨hbare, hpages, hend⟩ := head_bare hname
  refine noStart_front rfl fun l hl => ?_
  obtain ⟨hneat, hmem, hsome⟩ := structureOf_lines l hl
  refine apart_both hbare hneat.name ?_ (hend _ hmem)
  rintro rfl
  exact (hsome hpages).2 h

theorem texts_front : Flat name (structureOf last pieces).front ∧
    texts name (structureOf last pieces).front =
      (structureOf last pieces).lines.filterMap (named name) := by
  obtain ⟨hbare, hpages, hend⟩ := head_bare hname
  have hlines : ∀ l ∈ (structureOf last pieces).lines,
      l.Neat ∧ "/" ++ l.name ≠ name ∧ (l.text = none → l.name ≠ name) := by
    intro l hl
    obtain ⟨hneat, hmem, hsome⟩ := structureOf_lines l hl
    refine ⟨hneat, (hend _ hmem).symm, fun hnone heq => ?_⟩
    exact (hsome (fun h => hpages (heq.symm.trans h))).1 hnone
  have hblock := @texts_block name [] _ hbare hlines (by simp)
  rwa [append_nil] at hblock

theorem structureOf_named : (structureOf last pieces).lines.filterMap (named name) =
    ((texts name (source last pieces)).head?.map trim).toList.map String.toList := by
  rw [headNames, mem_cons, mem_singleton] at hname
  rcases hname with rfl | rfl <;> simp [Structure.lines, structureOf, filterMap_named_fields, named]

end

theorem body_infix_source (hp : p ∈ pieces) : p.body <:+: source last pieces := by
  induction pieces with
  | nil => cases hp
  | cons q pieces ih =>
    rw [source_cons]
    rcases mem_cons.1 hp with rfl | hp
    · exact ⟨p.gap ++ pageStart.toList ++ p.id ++ "\">".toList,
        tag "/page" ++ source last pieces, by
        simp only [append_assoc]⟩
    · exact (ih hp).trans ((suffix_append _ _).trans (suffix_append _ _)).isInfix

theorem firstText?_inner (hname : name ∈ headNames) (hflat : Flat name (source last pieces)) :
    firstText? name (structureOf last pieces).inner =
      (texts name (source last pieces)).head?.map trim := by
  have hbare := (head_bare hname).1
  by_cases hnil : texts name (source last pieces) = []
  · have hnone := not_holds_of_texts_eq_nil hbare hflat hnil
    rw [hnil, firstText?_eq_none fun hholds => hnone ?_]
    · rfl
    · refine holds_source hname (fun p hp h => hnone (h.of_isInfix (body_infix_source hp))) ?_
      exact hholds.of_noStart (noStart_front_name hname hnil)
  · obtain ⟨hfront, htexts⟩ := @texts_front name last pieces hname
    rw [structureOf_named hname] at htexts
    refine (firstText?_append hbare hfront ?_ _).trans ?_
    · obtain ⟨t, ts, ht⟩ := exists_cons_of_ne_nil hnil
      rw [htexts, ht]
      exact cons_ne_nil _ _
    · rw [htexts, trim_first]

theorem ofBody_trim_eq {s : Structure} (htitle : firstText? "title" cs = s.title)
    (hdescription : firstText? "description" cs = s.description)
    (hpages : (Structure.ofBody (trim cs).toList).pages = s.pages) :
    Structure.ofBody (trim cs).toList = s := by
  rw [← firstText?_strip (by decide)] at htitle hdescription
  generalize (trim cs).toList = body at htitle hdescription hpages ⊢
  obtain ⟨title, description, pages⟩ := s
  dsimp only at htitle hdescription hpages
  rw [← htitle, ← hdescription, ← hpages]
  rfl

theorem ofBody_source (hpieces : ∀ p ∈ pieces, p.Sound) (hlast : ¬pageStart.toList <:+: last)
    (hflat : ∀ name ∈ fieldNames, Flat name (source last pieces)) :
    Structure.ofBody (trim (source last pieces)).toList = structureOf last pieces := by
  refine ofBody_trim_eq (firstText?_eq (by decide) (hflat "title" (by decide)))
    (firstText?_eq (by decide) (hflat "description" (by decide))) ?_
  refine (pages_strip_source hpieces hlast).trans (map_congr_left fun p hp => ?_)
  exact ofBody_eq_page fun name hname => (hflat name hname).of_isInfix (body_infix_source hp)

theorem ofBody_inner (hids : ∀ p ∈ pieces, '"' ∉ p.id)
    (hflat : ∀ name ∈ fieldNames, Flat name (source last pieces)) :
    Structure.ofBody (trim (structureOf last pieces).inner).toList =
      structureOf last pieces := by
  refine ofBody_trim_eq (firstText?_inner (by decide) (hflat "title" (by decide)))
    (firstText?_inner (by decide) (hflat "description" (by decide))) ?_
  obtain ⟨last', more, heq, hlast', hmore, hread⟩ := exists_source_of_printed pieces hids
    fun rest => @noStart_front_page rest last pieces
  exact (congrArg (fun cs => (Structure.ofBody (trim cs).toList).pages) heq).trans
    ((pages_strip_source hmore hlast').trans hread)

theorem bodyOf?_of {before after : List Char} (hbefore : ¬openTag.toList <:+: before)
    (hcs : ¬closeTag.toList <:+: cs) :
    bodyOf? (String.ofList (before ++ element "wiki_structure" cs after)) =
      some (String.ofList cs) := by
  have hopen : openTag.toList = tag "wiki_structure" := rfl
  have hclose : closeTag.toList = tag ("/" ++ "wiki_structure") := rfl
  rw [hopen] at hbefore
  rw [hclose] at hcs
  rw [bodyOf?, String.toList_ofList, hopen, hclose, firstBetween?_of (by decide) hbefore hcs]
  rfl

theorem not_close_inner (h : ¬closeTag.toList <:+: source last pieces) :
    ¬closeTag.toList <:+: (structureOf last pieces).inner := by
  intro hin
  refine h (infix_source (m := "/wiki_structure") (by decide) (fun p _ => p.lacks_end.2) ?_)
  exact noStart_front_close.infix_of_append hin

theorem print_eq_element (s : Structure) : s.print =
    String.ofList (element "wiki_structure" s.inner []) := by
  rw [← String.toList_inj, String.toList_ofList, toList_print, element, append_nil]
  rfl

theorem format_of_unreadable {depth : Nat} {answer body : String}
    (hstart : startsWith "<" (strip answer) = true)
    (hbracket : '>' ∈ answer.toList) (hbody : bodyOf? answer = some body)
    (hnone : Markup.Node.ofText? depth (mended (openTag ++ body ++ closeTag)) = none) :
    format depth answer = rebuild body := by
  have hinside : hasInfix ">" answer = true := by
    obtain ⟨a, b, hab⟩ := append_of_mem hbracket
    exact hasInfixList_iff.2 ⟨a, b, by rw [hab, append_assoc]; rfl⟩
  have htidy : tidy depth body = rebuild body := by
    unfold tidy
    split
    · next node hnode => exact absurd (hnone.symm.trans hnode) (by simp)
    · rfl
  rw [format, hstart, hinside, Bool.and_self, if_pos rfl, hbody]
  exact htidy

/-- An answer with a structure in it that cannot be read as markup is replaced by one in good form:
the same pages in the same order, each with its first title, description and importance and all its
files and related pages, all of them trimmed. Such a structure stays as it is when built anew. -/
theorem rebuild_keeps_pages {before after last : List Char} {pieces : List Piece}
    (hbefore : ¬openTag.toList <:+: before) (hclose : ¬closeTag.toList <:+: source last pieces)
    (hpieces : ∀ p ∈ pieces, p.Sound) (hlast : ¬pageStart.toList <:+: last)
    (hflat : ∀ name ∈ fieldNames, Flat name (source last pieces)) :
    let answer := String.ofList (before ++ element "wiki_structure" (source last pieces) after)
    let body := String.ofList (source last pieces)
    bodyOf? answer = some body ∧ rebuild body = (structureOf last pieces).print ∧
      (bodyOf? (rebuild body)).map rebuild = some (rebuild body) ∧
      (∀ depth, startsWith "<" (strip answer) = true →
        Markup.Node.ofText? depth (mended (openTag ++ body ++ closeTag)) = none →
        format depth answer = (structureOf last pieces).print) := by
  intro answer body
  have hbody : bodyOf? answer = some body := bodyOf?_of hbefore hclose
  have hbuild : rebuild body = (structureOf last pieces).print :=
    congrArg Structure.print (ofBody_source hpieces hlast hflat)
  refine ⟨hbody, hbuild, ?_, fun depth hstart hnone => ?_⟩
  · have hinner := @bodyOf?_of _ [] [] (by decide) (not_close_inner hclose)
    rw [hbuild, print_eq_element]
    rw [nil_append] at hinner
    rw [hinner, Option.map_some, rebuild, ← trim,
      ofBody_inner (fun p hp => (hpieces p hp).id) hflat,
      print_eq_element]
  · refine (format_of_unreadable hstart ?_ hbody hnone).trans hbuild
    rw [String.toList_ofList]
    simp [element, tag]

def unordered : List Piece :=
  [⟨"\n <title> Guide </title>".toList, "a<1".toList,
    "<related>b</related><title> One\n</title>".toList⟩,
    ⟨" ".toList, "b".toList, "<file_path>x</file_path><description></description>".toList⟩]

theorem rebuild_keeps_pages_unordered : (∀ p ∈ unordered, p.Sound) ∧
    (∀ name ∈ fieldNames, Flat name (source ['\n'] unordered)) ∧
    rebuild (String.ofList (source ['\n'] unordered)) = Structure.print ⟨some "Guide", some "",
      [⟨"a<1", some "One", none, none, [], ["b"]⟩, ⟨"b", none, some "", none, ["x"], []⟩]⟩ := by
  have hsound : ∀ p ∈ unordered, p.Sound := by
    refine forall_mem_cons.2
      ⟨⟨?_, ?_, ?_⟩, forall_mem_cons.2 ⟨⟨?_, ?_, ?_⟩, by simp⟩⟩ <;> decide +kernel
  have hflat : ∀ name ∈ fieldNames, Flat name (source ['\n'] unordered) := by
    have hall : ∀ name ∈ fieldNames, isFlat name (source ['\n'] unordered) = true := by
      decide +kernel
    exact fun name hname => flat_of_isFlat
      (bare_of_mem name (mem_append_left _ hname)) (hall name hname)
  obtain ⟨-, hbuild, -⟩ :=
    @rebuild_keeps_pages [] [] ['\n'] unordered (by decide) (by decide +kernel)
    hsound (by decide) hflat
  exact ⟨hsound, hflat, hbuild.trans (congrArg Structure.print (by rfl))⟩

end RepoWiki.WikiStructure
