import RepoWiki.Proofs.Pattern
import RepoWiki.Proofs.Run
import RepoWiki.Proofs.Text.Occurrence
import RepoWiki.Proofs.Text.Trim
import RepoWiki.Provider.OpenAI
/-
A prompt that was put together from a system part and a user part falls into these parts again.

A part is taken lazily: it ends at the first place where blanks and the end tag follow. An end tag
begins with a character that it has nowhere else, so none lies across the end of a part, and before
the tag that was put there, there is none (`noStart_padded`). Blanks around a part do not count, as
it is without blanks at its ends.
-/

namespace RepoWiki

open List Text

namespace Pattern

/-! ## The way that is tried first -/

variable {α : Type} {r : α} {p : Char → Bool} {gs : Groups} {k : Next α} {cs rest : List Char}

theorem tryAt_chain_cons (p : Pattern) (ps : List Pattern) (cs : List Char) (gs : Groups)
    (k : Next α) : (chain (p :: ps)).tryAt cs gs k =
      p.tryAt cs gs fun cs' gs' => (chain ps).tryAt cs' gs' k := by
  cases ps <;> rfl

theorem tryAt_word (s : String) : (word s).tryAt (s.toList ++ rest) gs k = k rest gs := by
  rw [word]
  induction s.toList with
  | nil => rfl
  | cons c cs ih =>
    rw [map_cons, tryAt_chain_cons, cons_append, tryAt, if_pos (beq_self_eq_true c), ih]

theorem takeRun_all {w : List Char} {c : Char} {k : List Char → Option α}
    (hw : ∀ c ∈ w, p c = true) (hc : p c = false) (hk : k (c :: rest) = some r) :
    takeRun p 0 (w ++ c :: rest) k = some r := by
  induction w with
  | nil => rw [nil_append, takeRun, hc, if_neg Bool.false_ne_true, if_pos rfl, hk]
  | cons d w ih =>
    rw [forall_mem_cons] at hw
    rw [cons_append, takeRun, if_pos hw.1, Nat.zero_sub, ih hw.2]

theorem takeLazy_first {t : List Char} {k : List Char → Option α} (ht : ∀ c ∈ t, p c = true)
    (hnone : ∀ a b, t = a ++ b → b ≠ [] → k (b ++ rest) = none) (hk : k rest = some r) :
    takeLazy p (t ++ rest) k = some r := by
  induction t with
  | nil => cases rest <;> simp [takeLazy, hk]
  | cons c t ih =>
    rw [forall_mem_cons] at ht
    rw [cons_append, takeLazy, ← cons_append, hnone [] (c :: t) rfl (cons_ne_nil c t), if_pos ht.1]
    exact ih ht.2 fun a b hab => hnone (c :: a) b (congrArg (c :: ·) hab)

end Pattern

namespace Provider
namespace TaggedPrompt

open Pattern

variable {tag : String} {more : List Char}

theorem certain_parts : ∀ n ∈ [1, 2], n ∈ pattern.certain ∧ n ∈ linePattern.certain := by decide

def Padding (w : String) : Prop :=
  ∀ c ∈ w.toList, isBlank c = true

variable {w v s : String}

theorem eq_nil_of_blank_end {a b : List Char} (hs : strip s = s) (hab : s.toList = a ++ b)
    (hb : ∀ c ∈ b, isBlank c = true) : b = [] := by
  have hnone : ∀ c ∈ ([] : List Char), isBlank c = true := forall_mem_nil _
  have htrim : strip s = strip (String.ofList a) := trimBy_around hnone hb (by simp [hab])
  obtain ⟨x, y, -, -, ha⟩ := exists_around isBlank (String.ofList a)
  rw [← strip, ← htrim, hs, hab, String.toList_ofList] at ha
  have hlength := congrArg length ha
  simp only [length_append] at hlength
  exact length_eq_zero_iff.1 (by omega)

theorem not_mem_of_padding (hw : Padding w) : '<' ∉ w.toList :=
  fun hmem => absurd (hw '<' hmem) (by decide)

theorem noStart_padded (htag : tag.toList.head? = some '<')
    (hname : (tag.toList.tail.all fun c => c != '<' && !isBlank c) = true) (hw : Padding w)
    (hv : Padding v) (hs : hasInfix tag s = false) (more : List Char) :
    NoStart tag.toList (w.toList ++ s.toList ++ v.toList) (tag.toList ++ more) := by
  refine (NoStart.append (.of_head htag (not_mem_of_padding hw))
    (.of_not_isInfix ?_ (hasInfix_eq_false.1 hs))).append
      (.of_head htag (not_mem_of_padding hv))
  intro c hc hmem
  obtain ⟨hplain, hsolid⟩ : c ≠ '<' ∧ isBlank c = false := by
    simpa using all_eq_true.1 hname c hmem
  rw [head?_append, head?_append, htag, Option.mem_def, Option.or_eq_some_iff] at hc
  rcases hc with hc | ⟨-, hc⟩
  · have hblank := hv c (mem_of_mem_head? hc)
    rw [hsolid] at hblank
    cases hblank
  · exact hplain (Option.some.inj hc).symm

/-- A prompt of two parts between their tags, with blanks around them. -/
def tagged (w₁ system w₂ w₃ w₄ user w₅ more : String) : String :=
  systemStart ++ w₁ ++ system ++ w₂ ++ systemEnd ++ w₃ ++ userStart ++ w₄ ++
    user ++ w₅ ++ userEnd ++
    more

variable {w₁ w₂ w₃ w₄ w₅ system user : String}

/-- A part between its blanks, up to the tag that ends it. -/
theorem tryAt_part {α : Type} {r : α} {n : Nat} {ps : List Pattern} {gs : Groups} {k : Next α}
    {rest : List Char} (htag : tag.toList.head? = some '<')
    (hname : (tag.toList.tail.all fun c => c != '<' && !isBlank c) = true) (hw : Padding w)
    (hv : Padding v) (hs : s ≠ "" ∧ strip s = s ∧ hasInfix tag s = false)
    (hrest : rest = v.toList ++ (tag.toList ++ more))
    (hk : (chain ps).tryAt more ((n, s.toList ++ rest, rest) :: gs) k = some r) :
    (chain (blanks :: .group n (.lazy fun _ => true) :: blanks :: word tag :: ps)).tryAt
      (w.toList ++ (s.toList ++ rest)) gs k = some r := by
  obtain ⟨hne, hstrip, hfree⟩ := hs
  obtain ⟨c, cs, hcs⟩ := exists_cons_of_ne_nil (mt String.toList_eq_nil_iff.1 hne)
  have hc : isBlank c = false := trimBy_start (p := isBlank) (s := s) (by rw [← strip, hstrip, hcs])
  rw [tryAt_chain_cons, blanks, tryAt, hcs, cons_append]
  refine takeRun_all hw hc ?_
  rw [← cons_append, ← hcs, tryAt_chain_cons, tryAt, tryAt]
  refine takeLazy_first (fun _ _ => rfl) (fun a b hab hb => ?_) ?_
  · -- Blanks that are taken before the end of the part are followed by something else in it, and
    -- no end tag begins there.
    refine Option.eq_none_iff_forall_ne_some.2 fun x hx => ?_
    rw [tryAt_chain_cons, tryAt] at hx
    obtain ⟨taken, behind, hsplit, htaken, -, hbehind⟩ := takeRun_eq_some hx
    obtain ⟨cs', gs', htakes, -⟩ := tryAt_eq_some hbehind
    obtain ⟨cs'', gs'', hword, -⟩ := takes_chain_cons.1 htakes
    obtain ⟨hstarts, -⟩ := (takes_word tag).1 hword
    rcases append_eq_append_iff.1 hsplit with ⟨left, rfl, -⟩ | ⟨left, rfl, hleft⟩
    · exact hb (eq_nil_of_blank_end hstrip hab fun c hc => htaken c (mem_append_left _ hc))
    · have hne : left ≠ [] := by
        rintro rfl
        rw [append_nil] at hab hb
        exact hb (eq_nil_of_blank_end hstrip hab htaken)
      refine noStart_padded htag hname hw hv hfree more (w.toList ++ a ++ taken)
        (left ++ v.toList) (by simp [hab]) (by simp [hne]) ⟨cs'', ?_⟩
      rw [append_assoc, ← hrest, ← hleft, hstarts]
  · obtain ⟨name, hhead⟩ := head?_eq_some_iff.1 htag
    rw [tryAt_chain_cons, tryAt]
    generalize (n, s.toList ++ rest, rest) :: gs = groups at hk ⊢
    have hend : (chain (word tag :: ps)).tryAt (tag.toList ++ more) groups k = some r :=
      (tryAt_chain_cons _ _ _ _ _).trans ((tryAt_word tag).trans hk)
    rw [hhead, cons_append] at hend
    rw [hrest, hhead, cons_append]
    exact takeRun_all hv (by decide) hend

theorem parts?_tagged (hw₁ : Padding w₁) (hw₂ : Padding w₂) (hw₃ : Padding w₃) (hw₄ : Padding w₄)
    (hw₅ : Padding w₅)
    (hsystem : system ≠ "" ∧ strip system = system ∧ hasInfix systemEnd system = false)
    (huser : user ≠ "" ∧ strip user = user ∧ hasInfix userEnd user = false) (more : String) :
    parts? (tagged w₁ system w₂ w₃ w₄ user w₅ more) = some (system, user) := by
  let last := w₅.toList ++ (userEnd.toList ++ more.toList)
  let rest := w₂.toList ++ (systemEnd.toList ++ (w₃.toList ++ (userStart.toList ++ (w₄.toList ++
    (user.toList ++ last)))))
  have hlist : (tagged w₁ system w₂ w₃ w₄ user w₅ more).toList =
      systemStart.toList ++ (w₁.toList ++ (system.toList ++ rest)) := by
    simp only [tagged, String.toList_append, append_assoc, rest, last]
  have hmatch : pattern.match? (tagged w₁ system w₂ w₃ w₄ user w₅ more) = some
      ⟨systemStart.toList ++ (w₁.toList ++ (system.toList ++ rest)), more.toList,
        [(2, user.toList ++ last, last), (1, system.toList ++ rest, rest)]⟩ := by
    rw [match?, matchChars?, hlist, pattern, tryAt_chain_cons, tryAt_word]
    refine tryAt_part rfl rfl hw₁ hw₂ hsystem rfl ?_
    rw [tryAt_chain_cons, blanks, tryAt]
    refine takeRun_all hw₃ (by decide) ?_
    exact (tryAt_chain_cons _ _ _ _ _).trans ((tryAt_word userStart).trans
      (tryAt_part rfl rfl hw₄ hw₅ huser rfl rfl))
  rw [parts?, hmatch]
  simp [Found.group, Found.group?, between_append]

end TaggedPrompt

namespace OpenAI

open Run TaggedPrompt

/-- In messages mode a prompt of two parts is sent as the messages of these parts, whatever blanks
stand around them and whatever comes after the last tag. -/
theorem arguments_of_tagged {client : Client} (hmode : client.messages = true) {options : Fields}
    (himages : ((Fields.get? "images" options).getD .null).truthy = false)
    {w₁ system w₂ w₃ w₄ user w₅ : String} (hw : ∀ w ∈ [w₁, w₂, w₃, w₄, w₅], Padding w)
    (hsystem : system ≠ "" ∧ Text.strip system = system ∧ Text.hasInfix systemEnd system = false)
    (huser : user ≠ "" ∧ Text.strip user = user ∧ Text.hasInfix userEnd user = false)
    (more : String) (h : Host) :
    (client.arguments (.str (tagged w₁ system w₂ w₃ w₄ user w₅ more)) options .llm).on h =
      (.ok (Fields.set "messages"
        (.arr [.obj [("role", .str "system"), ("content", .str system)],
          .obj [("role", .str "user"), ("content", .str user)]])
        (Fields.erase "detail" (Fields.erase "images" options))), h) := by
  simp only [forall_mem_cons] at hw
  obtain ⟨hw₁, hw₂, hw₃, hw₄, hw₅, -⟩ := hw
  have hparts : promptParts? client (.str (tagged w₁ system w₂ w₃ w₄ user w₅ more)) =
      .ok (some (system, user)) := by
    simp [promptParts?, hmode, Json.asSubject, pure, Except.pure, hsystem.1, huser.1,
      parts?_tagged hw₁ hw₂ hw₃ hw₄ hw₅ hsystem huser more]
  have hmessages : (client.messagesFor (.str (tagged w₁ system w₂ w₃ w₄ user w₅ more))
      ((Fields.get? "images" options).getD .null)
      ((Fields.get? "detail" options).getD (.str "auto"))).on h =
        (.ok [systemMessage (.str system), userMessage (.str user)], h) := by
    simp [Client.messagesFor, hparts, himages]
  rw [Client.arguments, on_bind_ok hmessages, on_pure, systemMessage, userMessage]

theorem arguments_of_tagged_lines :
    ((Client.mk .null .null .null true).arguments
        (.str (tagged "\n" "Be <END_OF_USER_PROMPT>\n\n brief." " " "" "\t"
          "<START_OF_SYSTEM_PROMPT>\nHow?" "\n" "<END_OF_USER_PROMPT>"))
            [("model", .str "m")] .llm).on
        { tree := { cwd := "/", entries := [] } } =
      (.ok [("model", .str "m"), ("messages",
        .arr [.obj [("role", .str "system"),
          ("content", .str "Be <END_OF_USER_PROMPT>\n\n brief.")],
          .obj [("role", .str "user"), ("content", .str "<START_OF_SYSTEM_PROMPT>\nHow?")]])],
        { tree := { cwd := "/", entries := [] } }) := by
  refine arguments_of_tagged rfl rfl ?_ (by decide) (by decide) _ _
  simp only [forall_mem_cons]
  exact ⟨all_eq_true.1 rfl, all_eq_true.1 rfl, all_eq_true.1 rfl, all_eq_true.1 rfl,
    all_eq_true.1 rfl, fun w hw => by cases hw⟩

end OpenAI
end Provider
end RepoWiki
