import RepoWiki.Proofs.Repository.Label
import RepoWiki.Proofs.Text.Trim
/-
The label of a repository, from each of the forms in which its address may be given.

All forms give owner and name but one: the address for a shell. There the ending of a clone is not
taken off as an ending. Every character of it is taken away at the end of the path, as long as there
are any, so a name that itself ends with one of them is cut short (`label_forms`).
-/

namespace RepoWiki.Repository

open List Text

/-- The forms of an address, perhaps with the ending of a clone where both are in use. -/
inductive AddressForm where
  | web (ending : Bool)
  | shell
  | daemon
  | pair (ending : Bool)
  deriving DecidableEq

namespace AddressForm

def text (host owner repo : String) : AddressForm → String
  | web ending => "https" ++ "://" ++ host ++ Spelling.path ⟨ending, false⟩ owner repo
  | shell => "git@" ++ host ++ ":" ++ (owner ++ "/" ++ repo ++ cloneEnding)
  | daemon => "git" ++ "://" ++ host ++ Spelling.path ⟨true, false⟩ owner repo
  | pair ending => owner ++ "/" ++ Spelling.last ⟨ending, false⟩ repo

def kept (repo : String) : AddressForm → String
  | shell => trimEndBy (oneOf cloneEnding) repo
  | _ => repo

theorem kept_eq_self_iff (form : AddressForm) (repo : String) :
    form.kept repo = repo ↔
      (form = shell → ∀ c ∈ repo.toList.getLast?, oneOf cloneEnding c = false) := by
  cases form with
  | shell => simp only [kept, trimEndBy_eq_self_iff, forall_const]
  | _ => simp [kept]

end AddressForm

theorem label_around {before after : String} (hbefore : ∀ c ∈ before.toList, isBlank c = true)
    (hafter : ∀ c ∈ after.toList, isBlank c = true) (t : String) :
    label (before ++ t ++ after) = label t := by
  have hstrip : strip (before ++ t ++ after) = strip t := by
    refine trimBy_around hbefore hafter ?_
    rw [String.toList_append, String.toList_append, append_assoc]
  rw [label, label, hstrip]

theorem git_isScheme : Url.IsScheme "git" :=
  ⟨⟨'g', rfl, by decide⟩, by decide, by decide⟩

section

variable {owner repo : String} (howner : ProperName owner) (hrepo : ProperName repo)
include howner hrepo

theorem label_eq_labelOfPair : label (owner ++ "/" ++ repo) =
    labelOfPair (owner ++ "/" ++ repo) := by
  have hfree : ∀ {c : Char}, isNameChar c = false → c ≠ '/' →
      c ∉ (owner ++ "/" ++ repo).toList := by
    intro c hc hstroke
    simp [howner.free hc, hrepo.free hc, hstroke]
  have hstrip : strip (owner ++ "/" ++ repo) = owner ++ "/" ++ repo := by
    refine trimBy_eq_self (by simp) ?_ ?_
    · intro c hc
      obtain ⟨d, ds, hd⟩ := exists_cons_of_ne_nil (mt String.toList_eq_nil_iff.1 howner.ne_empty)
      obtain rfl : d = c := by simpa [hd] using hc
      exact isBlank_of_isNameChar (all_eq_true.1 howner.chars d (by simp [hd]))
    · intro c hc
      obtain ⟨d, hd, hname⟩ := hrepo.exists_last
      rw [String.toList_append, getLast?_append, hd] at hc
      obtain rfl : d = c := by simpa using hc
      exact isBlank_of_isNameChar hname
  have hshell : startsWith "git@" (owner ++ "/" ++ repo) = false := by
    rw [← Bool.not_eq_true, startsWith, isPrefixOf_iff_prefix]
    intro hstart
    exact hfree (by decide) (by decide) (hstart.subset (show '@' ∈ "git@".toList by decide))
  have hscheme : hasInfix "://" (owner ++ "/" ++ repo) = false := by
    rw [hasInfix_eq_false]
    intro hinside
    exact hfree (by decide) (by decide) (hinside.subset (show ':' ∈ "://".toList by decide))
  rw [label, hstrip, hshell, if_neg Bool.false_ne_true, hscheme, if_neg Bool.false_ne_true]

theorem label_pair (hend : endsWith cloneEnding repo = false) (s : Spelling) :
    label (owner ++ "/" ++ s.last repo) = .ok (owner ++ "_" ++ repo) := by
  have hdrop : dropCloneEnding (owner ++ "/" ++ s.last repo) = owner ++ "/" ++ repo :=
    dropCloneEnding_last owner hend s
  have hstroke : hasInfix "/" (owner ++ "/" ++ s.last repo) = true := by
    refine hasInfixList_iff.2 ⟨owner.toList, (s.last repo).toList, ?_⟩
    simp only [String.toList_append]
  rw [label_eq_labelOfPair howner (last_proper hrepo s), labelOfPair, hstroke, hdrop,
    cut?_append Path.stroke howner.stroke]
  simp [howner.ne_empty, hrepo.ne_empty]

omit hrepo in
theorem label_shell {host : String} (hhost : host ∈ knownHosts) :
    label ("git@" ++ host ++ ":" ++ (owner ++ "/" ++ repo ++ cloneEnding)) =
      .ok (owner ++ "_" ++ trimEndBy (oneOf cloneEnding) repo) := by
  have hhosts : ∀ known ∈ knownHosts, ':' ∉ ("git@" ++ known).toList := by decide
  have hstrip : strip ("git@" ++ host ++ ":" ++ (owner ++ "/" ++ repo ++ cloneEnding)) =
      "git@" ++ host ++ ":" ++ (owner ++ "/" ++ repo ++ cloneEnding) := by
    refine trimBy_eq_self (by simp) ?_ ?_
    · simp [isBlank]
    · intro c hc
      have hlast : cloneEnding.toList.getLast? = some 't' := by decide
      simp only [String.toList_append, getLast?_append, hlast, Option.some_or,
        Option.mem_some_iff] at hc
      exact hc ▸ by decide
  have hshell : startsWith "git@"
      ("git@" ++ host ++ ":" ++ (owner ++ "/" ++ repo ++ cloneEnding)) = true := by
    rw [startsWith, isPrefixOf_iff_prefix]
    simp only [String.toList_append, append_assoc]
    exact prefix_append _ _
  have hknown : (knownHosts.any fun known => endsWith known ("git@" ++ host)) = true := by
    refine any_eq_true.2 ⟨host, hhost, ?_⟩
    rw [endsWith, isSuffixOf_iff_suffix, String.toList_append]
    exact suffix_append _ _
  have hpath : trimEndBy (oneOf cloneEnding) (owner ++ "/" ++ repo ++ cloneEnding) =
      owner ++ "/" ++ trimEndBy (oneOf cloneEnding) repo := by
    have hlast : (owner ++ "/").toList.getLast? = some '/' := by simp
    rw [trimEndBy_append_of_all (all_eq_true.1 rfl), trimEndBy_append_of_last hlast (by decide)]
  rw [label, hstrip, hshell, if_pos rfl, labelOfShell, cut?_append Url.colon (hhosts host hhost)]
  dsimp only
  rw [hknown, hpath, cut?_append Path.stroke howner.stroke]
  rfl

end

/-- An address in any of its forms, with blanks around it, gives the owner and what the form keeps
of the name. That is all of the name, unless the address is for a shell and the last character of
the name is one of those of the ending. -/
theorem label_forms {host owner repo : String} (hhost : host ∈ knownHosts)
    (howner : ProperName owner)
    (hrepo : ProperName repo) (hend : endsWith cloneEnding repo = false) (form : AddressForm)
    {before after : String} (hbefore : ∀ c ∈ before.toList, isBlank c = true)
    (hafter : ∀ c ∈ after.toList, isBlank c = true) :
    label (before ++ form.text host owner repo ++ after) = .ok (owner ++ "_" ++ form.kept repo) ∧
      (label (before ++ form.text host owner repo ++ after) = .ok (owner ++ "_" ++ repo) ↔
        (form = .shell → ∀ c ∈ repo.toList.getLast?, oneOf cloneEnding c = false)) := by
  have hlabel : label (form.text host owner repo) = .ok (owner ++ "_" ++ form.kept repo) := by
    cases form with
    | web ending => exact label_url howner hrepo _ https_isScheme hhost hend
    | shell => exact label_shell howner hhost
    | daemon => exact label_url howner hrepo _ git_isScheme hhost hend
    | pair ending => exact label_pair howner hrepo hend _
  rw [label_around hbefore hafter, hlabel]
  refine ⟨rfl, ?_⟩
  rw [Except.ok.injEq, String.append_right_inj]
  exact form.kept_eq_self_iff repo

theorem label_forms_dotted :
    label " git@gitlab.com:acme-2/my_lib.js.git\n" = .ok "acme-2_my_lib.js" ∧
      (∀ c ∈ "my_lib.js".toList.getLast?, oneOf cloneEnding c = false) := by
  have howner : ProperName "acme-2" := ⟨by decide, by decide⟩
  have hrepo : ProperName "my_lib.js" := ⟨by decide, by decide⟩
  have haddress : " " ++ AddressForm.text "gitlab.com" "acme-2" "my_lib.js" .shell ++ "\n" =
      " git@gitlab.com:acme-2/my_lib.js.git\n" := by decide
  have hname : "acme-2" ++ "_" ++ AddressForm.shell.kept "my_lib.js" =
      "acme-2_my_lib.js" := by decide
  have hwhole : "acme-2" ++ "_" ++ "my_lib.js" = "acme-2_my_lib.js" := by decide
  have hhost : "gitlab.com" ∈ knownHosts := by decide
  obtain ⟨hlabel, hiff⟩ := label_forms hhost howner hrepo (by decide) .shell
    (List.all_eq_true.1 (show " ".toList.all isBlank = true from rfl))
    (List.all_eq_true.1 (show "\n".toList.all isBlank = true from rfl))
  rw [haddress, hname] at hlabel
  rw [haddress, hwhole] at hiff
  exact ⟨hlabel, hiff.1 hlabel rfl⟩

/-- Of a name that ends with characters of the ending, an address for a shell loses them. -/
theorem label_shell_cuts :
    ProperName "o" ∧ ProperName "digit" ∧ endsWith cloneEnding "digit" = false ∧
      label "https://github.com/o/digit.git" = .ok "o_digit" ∧
      label "git@github.com:o/digit.git" = .ok "o_d" := by
  have howner : ProperName "o" := ⟨by decide, by decide⟩
  have hrepo : ProperName "digit" := ⟨by decide, by decide⟩
  have hend : endsWith cloneEnding "digit" = false := by decide
  have hhost : "github.com" ∈ knownHosts := by decide
  have hwhole : "o" ++ "_" ++ "digit" = "o_digit" := by decide
  have hcut : "o" ++ "_" ++ trimEndBy (oneOf cloneEnding) "digit" = "o_d" := by decide
  have hweb : "https" ++ "://" ++ "github.com" ++ Spelling.path ⟨true, false⟩ "o" "digit" =
      "https://github.com/o/digit.git" := by decide
  have hshell : "git@" ++ "github.com" ++ ":" ++ ("o" ++ "/" ++ "digit" ++ cloneEnding) =
      "git@github.com:o/digit.git" := by decide
  refine ⟨howner, hrepo, hend, ?_, ?_⟩
  · rw [← hweb, label_url howner hrepo _ https_isScheme hhost hend, hwhole]
  · rw [← hshell, label_shell howner hhost, hcut]

end RepoWiki.Repository
