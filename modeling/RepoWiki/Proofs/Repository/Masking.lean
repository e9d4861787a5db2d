import RepoWiki.Proofs.Index.Preparation
import RepoWiki.Proofs.Text.Occurrence
/-
A refusal is told without the token.

What the version control program says may hold the token any number of times, and its occurrences
may overlap. After the exchange for the mask none is left, and none can come up where what was apart
now meets: a token has neither a star, so it does not reach into the mask, nor a space, so it does
not reach into the words in front of the message, and it is longer than each of these.
-/

namespace RepoWiki.Repository

open Run Text

def masked (token message : String) : String :=
  if Text.hasInfix token message then Text.replaceAll token tokenMask message else message

theorem hideToken_text {token : String} (htoken : token ≠ "") (message : String) :
    hideToken (.str token) message = .ok (masked token message) := by
  have htruthy : (Json.str token).truthy = true := by simpa [Json.truthy] using htoken
  have hincludes : (Json.str token).includes (.str message) = .ok (hasInfix token message) := rfl
  rw [hideToken, htruthy, hincludes, masked]
  cases hasInfix token message <;> rfl

section

variable {token : String} (hlong : 8 < token.length)
include hlong

theorem hasInfix_masked (hstar : '*' ∉ token.toList) (message : String) :
    hasInfix token (masked token message) = false := by
  unfold masked
  split
  · have hne : token ≠ "" := by
      rintro rfl
      exact absurd hlong (by decide)
    have hshort : ((splitFrom ['*'] 0 [] "**TOKEN**".toList).all fun p => p.length ≤ 8) = true := by
      decide
    have hmask : tokenMask.toList = '*' :: ("**TOKEN**".toList ++ ['*']) := by decide
    refine hasInfix_replaceAll hne hstar hmask ?_ message
    intro p hp
    have hp8 := of_decide_eq_true (List.all_eq_true.1 hshort p hp)
    omega
  · next hfree => simpa using hfree

theorem hasInfix_told (hspace : ' ' ∉ token.toList) {message : String}
    (hfree : hasInfix token message = false) :
    hasInfix token ("Error during cloning: " ++ message) = false := by
  have hshort : ((splitFrom [' '] 0 [] "Error during cloning:".toList).all
      fun p => p.length ≤ 8) = true := by
    decide
  rw [hasInfix_eq_false] at hfree ⊢
  have htold : ("Error during cloning: " ++ message).toList =
      "Error during cloning:".toList ++ ' ' :: message.toList := by
    simp
  rw [htold]
  intro hinside
  rcases isInfix_or_isInfix hspace hinside with hinside | hinside
  · refine not_infix_of_pieces hspace (fun p hp => ?_) hinside
    have hp8 := of_decide_eq_true (List.all_eq_true.1 hshort p hp)
    rw [String.length_toList]
    omega
  · exact hfree hinside

end

variable {address directory token : Json} {hosting : Hosting} {h k : Host} {message : String}

theorem told_refused {hidden : String} (hhidden : hideToken token message = .ok hidden) :
    told token (.refused message) = .error (.value ("Error during cloning: " ++ hidden)) := by
  rw [told, hhidden]
  rfl

def versioned (h : Host) : Host :=
  { h with calls := h.calls ++ [⟨"run", .arr [.str "git", .str "--version"]⟩] }

theorem clone_on (address directory : Json) (hosting : Hosting) (token : Json) (h : Host) :
    (clone address directory hosting token).on h =
      (lift (told token h.git) >>= fun _ => do
        match ← prepareClone address directory hosting token with
        | some url => runClone url directory token
        | none => return s!"Using existing repository at {directory.inText}").on (versioned h) := by
  rw [clone, runGit, on_bind_ok (on_note _ _ _), on_get_bind]
  rfl

/-- The version control program refuses, either at once or when it has to copy. -/
inductive Refused (address directory : Json) (hosting : Hosting) (token : Json) (message : String)
    (h : Host) : Prop
  | version (said : h.git = .refused message)
  | copy {version : String} {files : List WorkFile} {url : Json} {k : Host} {rest : List CloneReply}
      (runs : h.git = .done version files)
      (ready : (prepareClone address directory hosting token).on (versioned h) =
        (.ok (some url), k))
      (said : h.clones = .refused message :: rest)

theorem clone_on_refused (hrefused : Refused address directory hosting token message h)
    {hidden : String} (hhidden : hideToken token message = .ok hidden) :
    ((clone address directory hosting token).on h).1 =
      .error (.value ("Error during cloning: " ++ hidden)) := by
  cases hrefused with
  | version hsaid =>
    rw [clone_on, hsaid, told_refused hhidden, on_lift_bind]
    rfl
  | @copy version files url k rest hruns hready hsaid =>
    have hkept : Awaiting "" h
        ((prepareClone address directory hosting token).on (versioned h)).2 :=
      Keeps.after (versioned h) ⟨⟨.same, rfl⟩, rfl⟩
    rw [hready] at hkept
    have hclones : k.clones = .refused message :: rest := hkept.2.trans hsaid
    rw [clone_on, hruns, told, on_lift_bind, next_ok, on_bind_ok hready]
    dsimp only
    rw [runClone, runGit, on_bind_ok (on_note _ _ _), on_get_bind]
    dsimp only
    rw [hclones]
    dsimp only
    rw [on_modify_bind, told_refused hhidden, on_lift_bind]
    rfl

/-- Whatever the version control program says when it refuses, the token is not in the text of the
fault. -/
theorem clone_hides_token {token : String} (hlong : 8 < token.length)
    (hspace : ' ' ∉ token.toList) (hstar : '*' ∉ token.toList) {address directory : Json}
    {hosting : Hosting} {h : Host} {message : String}
    (hrefused : Refused address directory hosting (.str token) message h) :
    ((clone address directory hosting (.str token)).on h).1 =
        .error (.value ("Error during cloning: " ++ masked token message)) ∧
      Text.hasInfix token ("Error during cloning: " ++ masked token message) = false := by
  have hne : token ≠ "" := by
    rintro rfl
    exact absurd hlong (by decide)
  exact ⟨clone_on_refused hrefused (hideToken_text hne message),
    hasInfix_told hlong hspace (hasInfix_masked hlong hstar message)⟩

/-! ### A refusal -/

theorem prepareTarget_on_missing {directory : String} {h : Host} {tree : FileTree}
    (hmissing : h.tree.exists? directory = false)
    (hmade : h.tree.makeDirectories directory = .ok tree) :
    (prepareTarget directory).on h = (.ok false, { h with tree := tree }) := by
  have hchange : (changeTree fun tree => tree.makeDirectories directory).on h =
      (.ok (), { h with tree := tree }) := by
    rw [on_changeTree, hmade]
  rw [prepareTarget, on_bind_ok (on_tree _), hmissing, if_neg Bool.false_ne_true,
    on_bind_ok (on_pure _ _)]
  dsimp only
  rw [Bool.not_false, if_pos rfl, on_bind_ok hchange, on_pure]

theorem prepareClone_on_missing {url : Json} {directory : String} {tree : FileTree}
    (hmissing : h.tree.exists? directory = false)
    (hmade : h.tree.makeDirectories directory = .ok tree)
    (hurl : cloneUrl address hosting token = .ok url) :
    (prepareClone address (.str directory) hosting token).on h =
      (.ok (some url), { h with tree := tree }) := by
  rw [prepareClone]
  refine on_orElse_ok ?_ _
  rw [directoryOf, on_bind_ok (on_lift _ _), on_bind_ok (prepareTarget_on_missing hmissing hmade),
    if_neg Bool.false_ne_true, hurl, on_bind_ok (on_lift _ _), on_pure]

def refusing : Host where
  tree := { cwd := "/", entries := [] }
  clones := [.refused "fatal: https://abcabcabc@h/abcabcabcabc"]

theorem clone_hides_token_overlapping :
    8 < "abcabcabc".length ∧
      ((clone (.str "https://h/o/r") (.str "/r") .github (.str "abcabcabc")).on refusing).1 =
        .error (.value "Error during cloning: fatal: https://***TOKEN***@h/***TOKEN***abc") ∧
      Text.hasInfix "abcabcabc"
        "Error during cloning: fatal: https://***TOKEN***@h/***TOKEN***abc" = false := by
  have hlong : 8 < "abcabcabc".length := by decide
  have hmissing : (versioned refusing).tree.exists? "/r" = false := rfl
  have hmade : (versioned refusing).tree.makeDirectories "/r" =
      .ok { cwd := "/", entries := [(["r"], .directory none)] } := rfl
  have hurl : cloneUrl (.str "https://h/o/r") .github (.str "abcabcabc") =
      .ok (.str "https://abcabcabc@h/o/r") := rfl
  have htext : "Error during cloning: " ++
        masked "abcabcabc" "fatal: https://abcabcabc@h/abcabcabcabc" =
      "Error during cloning: fatal: https://***TOKEN***@h/***TOKEN***abc" := by decide
  rw [← htext]
  exact ⟨hlong, clone_hides_token hlong (by decide) (by decide)
    (.copy rfl (prepareClone_on_missing hmissing hmade hurl) rfl)⟩

end RepoWiki.Repository
