import RepoWiki.Endpoint.Analysis
import RepoWiki.Proofs.Text.Blank
import RepoWiki.Proofs.Text.Occurrence
import RepoWiki.Proofs.Url
import RepoWiki.Repository.Address
/-
What a repository is called, by the three parts of the program that need a name for it: the label
that is read off its address, the name under which its copy is stored, and the name under which an
analysis looks for the copy.

The label and the look-up give owner and name with a low line between them, for every way to write
the address. The storage name does too, unless the ending of a clone also occurs inside the name:
there every occurrence is dropped, not only the last one (`agree_iff`).
-/

namespace RepoWiki.Repository

open List RepoWiki.Path Text

/-! ## Names of owners and repositories -/

def isNameChar (c : Char) : Bool :=
  Text.isWord c || Text.oneOf ".-" c

structure ProperName (n : String) : Prop where
  ne_empty : n ≠ ""
  chars : n.toList.all isNameChar = true

theorem isBlank_of_isNameChar {c : Char} (h : isNameChar c = true) : isBlank c = false := by
  cases hblank : isBlank c with
  | false => rfl
  | true =>
    have hmark : c = '_' ∨ c = '.' ∨ c = '-' := by
      simpa [isNameChar, isWord, oneOf, isAlnum_of_isBlank hblank] using h
    rcases hmark with rfl | rfl | rfl <;> exact absurd hblank (by decide)

namespace ProperName

variable {n : String}

theorem free (h : ProperName n) {c : Char} (hc : isNameChar c = false) : c ∉ n.toList :=
  Url.not_mem_of_all h.chars hc

theorem pathChars (h : ProperName n) : n.toList.all Url.isPathChar = true := by
  rw [all_eq_true]
  intro c hc
  rw [Url.isPathChar, Bool.not_eq_true', oneOf_eq_false]
  intro hmem
  have hmarks : ∀ d ∈ "?#;\t\r\n".toList, isNameChar d = false :=
    all_iff_forall_prop.1 (by decide)
  exact h.free (hmarks c hmem) hc

theorem exists_last (h : ProperName n) :
    ∃ c, n.toList.getLast? = some c ∧ isNameChar c = true := by
  cases hlast : n.toList.getLast? with
  | none =>
    rw [getLast?_eq_none_iff, String.toList_eq_nil_iff] at hlast
    exact absurd hlast h.ne_empty
  | some c => exact ⟨c, rfl, all_eq_true.1 h.chars c (mem_of_getLast? hlast)⟩

theorem stroke (h : ProperName n) : '/' ∉ n.toList :=
  h.free (by decide)

theorem firm (h : ProperName n) : Path.Firm n := by
  obtain ⟨c, hc, hname⟩ := h.exists_last
  refine ⟨c, hc, ?_⟩
  rintro rfl
  exact absurd hname (by decide)

end ProperName

/-! ## Ways to write an address -/

/-- How the address of a repository ends: with the ending of a clone or without, and with a stroke
or without. -/
structure Spelling where
  ending : Bool
  stroke : Bool

def Spelling.last (s : Spelling) (repo : String) : String :=
  if s.ending then repo ++ cloneEnding else repo

def Spelling.path (s : Spelling) (owner repo : String) : String :=
  "/" ++ owner ++ "/" ++ s.last repo ++ if s.stroke then "/" else ""

def Spelling.address (s : Spelling) (owner repo : String) : String :=
  "https" ++ "://" ++ "github.com" ++ s.path owner repo

theorem https_isScheme : Url.IsScheme "https" :=
  ⟨⟨'h', rfl, by decide⟩, by decide, by decide⟩

variable {repo : String}

theorem last_proper (hrepo : ProperName repo) (s : Spelling) : ProperName (s.last repo) := by
  rw [Spelling.last]
  split
  · refine ⟨fun h => hrepo.ne_empty (String.append_eq_empty_iff.1 h).1, ?_⟩
    rw [String.toList_append, all_append, hrepo.chars]
    decide
  · exact hrepo

theorem dropCloneEnding_append (t : String) : dropCloneEnding (t ++ cloneEnding) = t := by
  have hends : endsWith cloneEnding (t ++ cloneEnding) = true := by
    rw [endsWith, isSuffixOf_iff_suffix, String.toList_append]
    exact suffix_append _ _
  rw [dropCloneEnding, if_pos hends, ← String.toList_inj, String.toList_ofList,
    String.length_append,
    Nat.add_sub_cancel, String.toList_append, ← String.length_toList, take_left]

theorem endsWith_cloneEnding_stroke (owner repo : String) :
    endsWith cloneEnding (owner ++ "/" ++ repo) = endsWith cloneEnding repo := by
  rw [Bool.eq_iff_iff, endsWith, endsWith, isSuffixOf_iff_suffix,
    isSuffixOf_iff_suffix, String.toList_append, String.toList_append]
  refine ⟨fun hlong => ?_, fun hshort => hshort.trans (suffix_append _ _)⟩
  by_cases hlength : cloneEnding.toList.length ≤ repo.toList.length
  · exact suffix_of_suffix_length_le hlong (suffix_append _ _) hlength
  · -- The ending would reach over the stroke.
    exfalso
    have hcover : '/' :: repo.toList <:+ cloneEnding.toList := by
      refine suffix_of_suffix_length_le ?_ hlong (by rw [length_cons]; omega)
      rw [append_assoc]
      exact suffix_append _ _
    exact absurd (hcover.subset mem_cons_self) (by decide)

theorem dropCloneEnding_last (owner : String) (hend : endsWith cloneEnding repo = false)
    (s : Spelling) : dropCloneEnding (owner ++ "/" ++ s.last repo) = owner ++ "/" ++ repo := by
  rw [Spelling.last]
  split
  · rw [← String.append_assoc, dropCloneEnding_append]
  · rw [dropCloneEnding, endsWith_cloneEnding_stroke, hend, if_neg Bool.false_ne_true]

theorem Spelling.path_start (s : Spelling) (owner repo : String) :
    (s.path owner repo).toList.head? = some '/' := by
  simp [Spelling.path]

theorem Spelling.replaceAll_last (s : Spelling) (repo : String) :
    replaceAll cloneEnding "" (s.last repo) = replaceAll cloneEnding "" repo := by
  have hself : replaceAll cloneEnding "" cloneEnding = "" := by decide
  have hseam : ∀ c ∈ cloneEnding.toList.head?, c ∉ cloneEnding.toList.tail := by
    intro c hc
    obtain rfl : '.' = c := Option.some.inj hc
    decide
  rw [Spelling.last]
  split
  · rw [replaceAll_append (by decide) repo hseam, hself, String.append_empty]
  · rfl

theorem Spelling.trimEndBy_address (s : Spelling) (owner : String) (hrepo : ProperName repo) :
    trimEndBy (· == '/') (s.address owner repo) =
      "https:" ++ "/" ++ "" ++ "/" ++ "github.com" ++ "/" ++ owner ++ "/" ++ s.last repo := by
  have hfirm : Path.Firm ("https:" ++ "/" ++ "" ++ "/" ++ "github.com" ++ "/" ++ owner ++ "/" ++
      s.last repo) := (last_proper hrepo s).firm.append _
  have hstroke : ∀ p : String,
      trimEndBy (· == '/') (p ++ "/") = trimEndBy (· == '/') p := by
    intro p
    simp [trimEndBy, dropEndWhile]
  have haddress : s.address owner repo = "https:" ++ "/" ++ "" ++ "/" ++ "github.com" ++ "/" ++
      owner ++ "/" ++ s.last repo ++ if s.stroke then "/" else "" := by
    rw [← String.toList_inj]
    simp [Spelling.address, Spelling.path]
  rw [haddress]
  split
  · rw [hstroke, hfirm.trimEndBy]
  · rw [String.append_empty, hfirm.trimEndBy]

theorem isBlank_of_isAlpha {c : Char} (h : c.isAlpha = true) : isBlank c = false := by
  cases hblank : isBlank c with
  | false => rfl
  | true =>
    have hcodes : ∀ n ∈ blankCodes, n < 65 ∨ 122 < n := by decide
    have hcode := hcodes _ (mem_blankCodes hblank)
    have halpha := Url.toNat_of_isAlpha h
    omega

theorem strip_url {scheme : String} (hscheme : Url.IsScheme scheme) (host owner : String)
    (hrepo : ProperName repo) (s : Spelling) :
    strip (scheme ++ "://" ++ host ++ s.path owner repo) =
      scheme ++ "://" ++ host ++ s.path owner repo := by
  refine trimBy_eq_self ?_ ?_ ?_
  · simp
  · intro c hc
    obtain ⟨d, hd, halpha⟩ := hscheme.start
    simp only [String.toList_append, append_assoc, head?_append, Option.mem_def.1 hd] at hc
    exact Option.some.inj hc ▸ isBlank_of_isAlpha halpha
  · obtain ⟨c, hc, hname⟩ := (last_proper hrepo s).exists_last
    simp only [Spelling.path, String.toList_append, getLast?_append, hc]
    split
    · simp [isBlank]
    · simpa using isBlank_of_isNameChar hname

/-! ## The three names -/

section

variable {owner repo : String} (howner : ProperName owner) (hrepo : ProperName repo)
  (s : Spelling)
include howner hrepo

theorem path_chars : (s.path owner repo).toList.all Url.isPathChar = true := by
  have hlast := (last_proper hrepo s).pathChars
  simp only [Spelling.path, String.toList_append, all_append, howner.pathChars, hlast]
  split <;> decide

theorem trimBy_path :
    trimBy (· == '/') (s.path owner repo) = owner ++ "/" ++ s.last repo := by
  have hpath : s.path owner repo =
      "/" ++ (owner ++ "/" ++ s.last repo) ++ if s.stroke then "/" else "" := by
    simp only [Spelling.path, String.append_assoc]
  rw [hpath]
  refine trimBy_append (by simp) (by simp) ?_ ?_ ?_
  · split <;> simp
  · intro c hc
    cases hcs : owner.toList with
    | nil => exact absurd (String.toList_eq_nil_iff.1 hcs) howner.ne_empty
    | cons d cs =>
      obtain rfl : d = c := by simpa [hcs] using hc
      have hfree := howner.stroke
      rw [hcs, mem_cons, not_or] at hfree
      exact beq_eq_false_iff_ne.2 (Ne.symm hfree.1)
  · intro c hc
    obtain ⟨d, hd, hne⟩ := (last_proper hrepo s).firm
    rw [String.toList_append, getLast?_append, hd, Option.some_or, Option.mem_some_iff] at hc
    exact beq_eq_false_iff_ne.2 (hc ▸ hne)

theorem labelOfUrl_spelled {scheme host : String} (hscheme : Url.IsScheme scheme)
    (hhost : host ∈ knownHosts) (hend : endsWith cloneEnding repo = false) :
    labelOfUrl (scheme ++ "://" ++ host ++ s.path owner repo) = .ok (owner ++ "_" ++ repo) := by
  have hhosts : ∀ known ∈ knownHosts, known ≠ "" ∧ known.toList.all Url.isHostChar = true := by
    decide
  obtain ⟨hne, hchars⟩ := hhosts host hhost
  have hurl : Url.ofText (scheme ++ "://" ++ host ++ s.path owner repo) =
      .ok ⟨scheme, host, s.path owner repo, "", ""⟩ :=
    Url.ofText_spelled hscheme hchars (s.path_start owner repo) (path_chars howner hrepo s)
  have hsplit : splitOn "/" (owner ++ "/" ++ repo) = [owner, repo] := by
    rw [splitOn_append stroke, splitOn_free stroke howner.stroke, splitOn_free stroke hrepo.stroke]
    rfl
  rw [labelOfUrl, hurl, ok_bind]
  dsimp only
  rw [if_neg hne, contains_iff_mem.2 hhost, trimBy_path howner hrepo,
    dropCloneEnding_last owner hend, hsplit]
  rfl

theorem label_url {scheme host : String} (hscheme : Url.IsScheme scheme) (hhost : host ∈ knownHosts)
    (hend : endsWith cloneEnding repo = false) :
    label (scheme ++ "://" ++ host ++ s.path owner repo) = .ok (owner ++ "_" ++ repo) := by
  have hfree : '@' ∉ (scheme ++ "://" ++ host ++ s.path owner repo).toList := by
    have hhosts : ∀ known ∈ knownHosts, '@' ∉ known.toList := by decide
    have hlast := (last_proper hrepo s).free (show isNameChar '@' = false by decide)
    have howner' := howner.free (show isNameChar '@' = false by decide)
    have hscheme' := Url.not_mem_of_all hscheme.chars (show Url.isSchemeChar '@' = false by decide)
    simp only [Spelling.path, String.toList_append, mem_append, not_or]
    refine ⟨⟨⟨hscheme', by decide⟩, hhosts host hhost⟩,
      ⟨⟨⟨by decide, howner'⟩, by decide⟩, hlast⟩, ?_⟩
    split <;> decide
  have hshell : startsWith "git@" (scheme ++ "://" ++ host ++ s.path owner repo) = false := by
    rw [← Bool.not_eq_true, startsWith, isPrefixOf_iff_prefix]
    intro hstart
    exact hfree (hstart.subset (by decide))
  have hmark : hasInfix "://" (scheme ++ "://" ++ host ++ s.path owner repo) = true := by
    refine hasInfixList_iff.2 ⟨scheme.toList, (host ++ s.path owner repo).toList, ?_⟩
    simp only [String.toList_append, append_assoc]
  rw [label, strip_url hscheme host owner hrepo s, hshell, if_neg Bool.false_ne_true, hmark,
    if_pos rfl, labelOfUrl_spelled howner hrepo s hscheme hhost hend]

theorem label_address (hend : endsWith cloneEnding repo = false) :
    label (s.address owner repo) = .ok (owner ++ "_" ++ repo) :=
  label_url howner hrepo s https_isScheme (by decide) hend

theorem storageName_address : storageName (s.address owner repo) .github =
    owner ++ "_" ++ replaceAll cloneEnding "" repo := by
  have hsplit : splitOn "/" ("https:" ++ "/" ++ "" ++ "/" ++ "github.com" ++ "/" ++ owner ++
      "/" ++ s.last repo) = ["https:", "", "github.com", owner, s.last repo] := by
    have hhead : splitOn "/" "https:" = ["https:"] ∧ splitOn "/" "" = [""] ∧
        splitOn "/" "github.com" = ["github.com"] := by decide
    simp only [splitOn_append stroke, splitOn_free stroke howner.stroke,
      splitOn_free stroke (last_proper hrepo s).stroke, hhead]
    rfl
  simp only [storageName, s.trimEndBy_address owner hrepo, hsplit, reverse_cons,
    reverse_nil, nil_append, cons_append, head?_cons, Option.getD_some,
    s.replaceAll_last]
  rfl

end

theorem copyOf_on (owner repo : String) (h : Host) :
    (Endpoint.Analysis.copyOf (.str owner) (.str repo)).on h =
      (.ok (join (join h.dataRoot "repos") (owner ++ "_" ++ repo)), h) := by
  have hlabel : (do Json.textAfter (← (Json.str owner).textBefore "_") (.str repo)) =
      (.ok (owner ++ "_" ++ repo) : Result String) := rfl
  rw [Endpoint.Analysis.copyOf, hlabel, Run.on_bind_ok (Run.on_lift _ h), Run.on_get_bind,
    Run.on_pure]

/-- However the address of a repository is written, its label is owner and name with a low line
between them, and an analysis looks for the copy under that name. The copy is stored under it
exactly if the ending of a clone does not occur inside the name. -/
theorem agree_iff {owner repo : String} (howner : ProperName owner) (hrepo : ProperName repo)
    (hend : Text.endsWith cloneEnding repo = false) (s : Spelling) (h : Host) :
    label (s.address owner repo) = .ok (owner ++ "_" ++ repo) ∧
      (Endpoint.Analysis.copyOf (.str owner) (.str repo)).on h =
        (.ok (Path.join (Path.join h.dataRoot "repos") (owner ++ "_" ++ repo)), h) ∧
      (storageName (s.address owner repo) .github = owner ++ "_" ++ repo ↔
        Text.hasInfix cloneEnding repo = false) := by
  refine ⟨label_address howner hrepo s hend, copyOf_on owner repo h, ?_⟩
  rw [storageName_address howner hrepo, String.append_right_inj]
  exact Text.replaceAll_eq_self_iff (by decide) repo

def homely : Host :=
  { tree := { cwd := "/", entries := [] }, home := "/home/ann/" }

/-- A name with its own dots and low lines, in the longest spelling. -/
theorem agree_iff_dotted :
    label "https://github.com/acme-2/my_lib.js.git/" = .ok "acme-2_my_lib.js" ∧
      (Endpoint.Analysis.copyOf (.str "acme-2") (.str "my_lib.js")).on homely =
        (.ok "/home/ann/.adalflow/repos/acme-2_my_lib.js", homely) ∧
      (storageName "https://github.com/acme-2/my_lib.js.git/" .github = "acme-2_my_lib.js" ↔
        Text.hasInfix cloneEnding "my_lib.js" = false) := by
  have haddress : Spelling.address ⟨true, true⟩ "acme-2" "my_lib.js" =
      "https://github.com/acme-2/my_lib.js.git/" := by decide
  have hlabel : "acme-2" ++ "_" ++ "my_lib.js" = "acme-2_my_lib.js" := by decide
  have hcopy : Path.join (Path.join homely.dataRoot "repos") "acme-2_my_lib.js" =
      "/home/ann/.adalflow/repos/acme-2_my_lib.js" := by decide
  rw [← haddress, ← hcopy, ← hlabel]
  exact agree_iff ⟨by decide, by decide⟩ ⟨by decide, by decide⟩ (by decide) ⟨true, true⟩ homely

/-- The ending of a clone is also taken out of the middle of a name: the label and the storage name
of such a repository differ. -/
theorem storageName_ne_label :
    ProperName "octocat" ∧ ProperName "octocat.github.io" ∧
      Text.endsWith cloneEnding "octocat.github.io" = false ∧
      label "https://github.com/octocat/octocat.github.io" = .ok "octocat_octocat.github.io" ∧
      storageName "https://github.com/octocat/octocat.github.io" .github =
        "octocat_octocathub.io" := by
  have howner : ProperName "octocat" := ⟨by decide, by decide⟩
  have hrepo : ProperName "octocat.github.io" := ⟨by decide, by decide⟩
  have hend : Text.endsWith cloneEnding "octocat.github.io" = false := by decide
  have haddress : Spelling.address ⟨false, false⟩ "octocat" "octocat.github.io" =
      "https://github.com/octocat/octocat.github.io" := by decide
  have hlabel : "octocat" ++ "_" ++ "octocat.github.io" = "octocat_octocat.github.io" := by decide
  refine ⟨howner, hrepo, hend, ?_, by decide⟩
  rw [← haddress, ← hlabel]
  exact label_address howner hrepo _ hend

end RepoWiki.Repository
