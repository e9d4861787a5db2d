import RepoWiki.Proofs.Repository.FileContent
import RepoWiki.Proofs.Repository.Label
import RepoWiki.Proofs.Url.Authority
/-
Where the two requests for a file of a project go.

They go to the interface of the host that the address of the project names, and carry the token if
there is one. But a port other than the usual ones is written twice, and the path of the project
loses every occurrence of the ending of a clone. So they begin as they should exactly if the port is
a usual one and the ending does not occur inside the path (`GitLab.fileContent_requests`).
-/

namespace RepoWiki

open List Text Url

/-! ## Lengths of written texts -/

namespace Text

theorem lower_ne_empty {s : String} (h : s ≠ "") : lower s ≠ "" := by
  rw [lower, ne_eq, String.ofList_eq_empty_iff]
  cases hcs : s.toList with
  | nil => exact absurd (String.toList_eq_nil_iff.1 hcs) h
  | cons c cs =>
    have hchar : lowerChar c ≠ [] := by
      unfold lowerChar
      dsimp only
      split
      · simp
      · split <;> simp
    rw [lowerFrom, append_eq_nil_iff]
    intro hnil
    split at hnil
    · cases hnil.1
    · exact hchar hnil.1

namespace Percent

theorem encodeChar_ne_nil (c : Char) : encodeChar c ≠ [] := by
  unfold encodeChar
  split
  · simp
  · unfold Utf8.encodeChar
    dsimp only
    split
    · simp [escape]
    · split
      · simp [escape]
      · split <;> simp [escape]

theorem eq_or_length_lt {left cs : List Char} (h : left.Sublist cs) :
    left = cs ∨ (left.flatMap encodeChar).length < (cs.flatMap encodeChar).length := by
  induction h with
  | slnil => exact .inl rfl
  | @cons left cs c h ih =>
    have hpos := length_pos_iff.2 (encodeChar_ne_nil c)
    right
    rw [flatMap_cons, length_append]
    rcases ih with rfl | hlt <;> omega
  | @cons_cons left cs c h ih =>
    rcases ih with rfl | hlt
    · exact .inl rfl
    · right
      rw [flatMap_cons, flatMap_cons, length_append, length_append]
      omega

end Percent

theorem startsWith_iff {s t : String} : startsWith s t = true ↔ s.toList <+: t.toList := by
  rw [startsWith, isPrefixOf_iff_prefix]

end Text

namespace Repository
namespace GitLab

/-! ## Projects -/

/-- The path of a project: its groups and its name. The ending of a clone is a matter of the
spelling. -/
structure IsProject (path : String) : Prop where
  nested : '/' ∈ path.toList
  chars : path.toList.all isPathChar = true
  start : path.toList.head? ≠ some '/'
  firm : Path.Firm path
  bare : endsWith cloneEnding path = false

/-- Where a project is. -/
structure Location where
  scheme : String
  host : String
  port : Option Nat
  path : String
  isScheme : Url.SchemeText scheme
  isHost : Url.IsHost host
  port_le : ∀ n ∈ port, n ≤ 65535
  isProject : IsProject path

namespace Location

variable (l : Location) (s : Spelling)

def authority : String :=
  l.host ++ portText l.port

def spelledPath : String :=
  "/" ++ s.last l.path ++ if s.stroke then "/" else ""

def address : String :=
  l.scheme ++ "://" ++ l.authority ++ l.spelledPath s

def interfaceUrl : String :=
  lower l.scheme ++ "://" ++ l.authority ++ "/api/v4/projects/" ++ Text.Percent.encode l.path

def unusualPort : Option Nat :=
  l.port.filter fun n => !(decide (n = 80) || decide (n = 443))

def requestUrl : String :=
  lower l.scheme ++ "://" ++ l.authority ++ portText l.unusualPort ++
    "/api/v4/projects/" ++
    Text.Percent.encode (replaceAll cloneEnding "" l.path)

theorem last_firm : Path.Firm (s.last l.path) := by
  rw [Spelling.last]
  split
  · exact Path.Firm.append ⟨'t', rfl, by decide⟩ l.path
  · exact l.isProject.firm

theorem stroke_mem_last : '/' ∈ (s.last l.path).toList := by
  rw [Spelling.last]
  split
  · rw [String.toList_append]
    exact mem_append_left _ l.isProject.nested
  · exact l.isProject.nested

theorem head_last : (s.last l.path).toList.head? ≠ some '/' := by
  have hstart := l.isProject.start
  rw [Spelling.last]
  split
  · cases hcs : l.path.toList with
    | nil => simp [hcs, cloneEnding]
    | cons c cs => simpa [hcs] using hstart
  · exact hstart

theorem spelledPath_chars : (l.spelledPath s).toList.all isPathChar = true := by
  have hchars := l.isProject.chars
  have hlast : (s.last l.path).toList.all isPathChar = true := by
    rw [Spelling.last]
    split
    · rw [String.toList_append, all_append, hchars]
      decide
    · exact hchars
  simp only [spelledPath, String.toList_append, all_append, hlast]
  split <;> decide

theorem trimBy_spelledPath : trimBy (· == '/') (l.spelledPath s) = s.last l.path := by
  refine trimBy_append ?_ (by simp) ?_ ?_ ?_
  · intro hempty
    have hmem := l.stroke_mem_last s
    rw [hempty] at hmem
    cases hmem
  · split <;> simp
  · intro c hc
    rw [beq_eq_false_iff_ne]
    rintro rfl
    exact l.head_last s hc
  · intro c hc
    obtain ⟨d, hd, hne⟩ := l.last_firm s
    rw [hd, Option.mem_some_iff] at hc
    exact beq_eq_false_iff_ne.2 (hc ▸ hne)

theorem ofText_address : ofText (l.address s) =
    .ok ⟨lower l.scheme, l.authority, l.spelledPath s, "", ""⟩ := by
  obtain ⟨hchars, hmarks, -⟩ := plain_cases (plain_authority l.isHost l.port)
  exact ofText_parts l.isScheme hchars (l.spelledPath_chars s)
    (checkBrackets_authority l.isHost l.port) (checkMarks_eq_ok hmarks)
      (by simp [spelledPath])

theorem interface_eq {url : Url} (hscheme : url.scheme = lower l.scheme)
    (hauthority : url.authority = l.authority) :
    interface url = .ok (lower l.scheme ++ "://" ++ l.authority ++ portText l.unusualPort) := by
  rw [interface, port?_authority l.isHost l.port l.port_le hauthority, ok_bind, hscheme,
    hauthority, unusualPort]
  cases l.port with
  | none => simp [portText, pure, Except.pure]
  | some n =>
    dsimp only
    rw [Option.filter_some]
    cases decide (n = 80) || decide (n = 443) with
    | true => simp [portText, pure, Except.pure]
    | false => simp [portText, toString, pure, Except.pure]

theorem projectUrl_address : projectUrl (.str (l.address s)) = .ok l.requestUrl := by
  have hscheme : lower l.scheme ≠ "" := by
    apply lower_ne_empty
    intro hempty
    obtain ⟨c, hc, -⟩ := l.isScheme.start
    rw [hempty] at hc
    cases hc
  have hauthority : l.authority ≠ "" := by
    intro hempty
    exact l.isHost.ne_empty (String.append_eq_empty_iff.1 hempty).1
  have hnested : hasInfix "/" (s.last l.path) = true := by
    obtain ⟨before, after, hsplit⟩ := append_of_mem (l.stroke_mem_last s)
    exact hasInfixList_iff.2 ⟨before, after, by simp [hsplit]⟩
  rw [projectUrl, ofValue, l.ofText_address s, ok_bind]
  dsimp only
  rw [l.interface_eq rfl rfl]
  simp only [hscheme, hauthority, decide_false, Bool.or_self, Bool.false_eq_true, if_false, ok_bind,
    l.trimBy_spelledPath, hnested, Bool.not_true, s.replaceAll_last, requestUrl, pure, Except.pure]

end Location

/-! ## Requests -/

section

variable (l : Location)

theorem unusualPort_eq_none :
    l.unusualPort = none ↔ l.port = none ∨ l.port = some 80 ∨ l.port = some 443 := by
  rw [Location.unusualPort]
  cases l.port with
  | none => simp
  | some n => simp [Option.filter_some, or_iff_not_imp_left]

theorem unusualPort_of_startsWith (h : startsWith l.interfaceUrl l.requestUrl = true) :
    l.unusualPort = none := by
  cases hport : l.unusualPort with
  | none => rfl
  | some n =>
    rw [startsWith_iff, Location.interfaceUrl, Location.requestUrl, hport] at h
    simp [portText, append_assoc] at h

theorem cloneEnding_of_startsWith (hport : l.unusualPort = none)
    (h : startsWith l.interfaceUrl l.requestUrl = true) :
    hasInfix cloneEnding l.path = false := by
  rw [startsWith_iff, Location.interfaceUrl, Location.requestUrl, hport, portText,
    String.append_empty] at h
  generalize lower l.scheme ++ "://" ++ l.authority ++ "/api/v4/projects/" = start at h
  rw [String.toList_append, String.toList_append, prefix_append_right_inj] at h
  have hle := h.length_le
  rw [Text.Percent.encode, Text.Percent.encode, String.toList_ofList, String.toList_ofList] at hle
  have hsub := replaceAll_sublist (show cloneEnding ≠ "" by decide) l.path
  rw [← replaceAll_eq_self_iff (by decide), ← String.toList_inj]
  rcases Text.Percent.eq_or_length_lt hsub with hsame | hlt
  · exact hsame
  · omega

end

/-- Whatever is answered, two requests are made for a file, with the token if there is one. They
begin as they should exactly if the port of the host is left out or a usual one, and the ending of a
clone does not occur in the path of the project. -/
theorem fileContent_requests (l : Location) (s : Spelling) (file : String)
    (token : Json) (h : Host) :
    ∃ branch : Json,
      ((fileContent (.str (l.address s)) (.str file) token).on h).2.calls = h.calls ++
        [Web.asked l.requestUrl (if token.truthy then [("PRIVATE-TOKEN", token)] else []),
          Web.asked (rawUrl l.requestUrl file branch)
            (if token.truthy then [("PRIVATE-TOKEN", token)] else [])] ∧
      ((∀ url ∈ [l.requestUrl, rawUrl l.requestUrl file branch],
          startsWith l.interfaceUrl url = true) ↔
        (l.port = none ∨ l.port = some 80 ∨ l.port = some 443) ∧
          hasInfix cloneEnding l.path = false) := by
  obtain ⟨branch, hcalls⟩ := fileContent_calls (l.projectUrl_address s) file token h
  refine ⟨branch, hcalls, ?_⟩
  rw [← unusualPort_eq_none, List.forall_mem_cons, List.forall_mem_singleton]
  constructor
  · rintro ⟨hfirst, -⟩
    have hport := unusualPort_of_startsWith l hfirst
    exact ⟨hport, cloneEnding_of_startsWith l hport hfirst⟩
  · rintro ⟨hport, hfree⟩
    have hsame : l.requestUrl = l.interfaceUrl := by
      rw [Location.requestUrl, Location.interfaceUrl, hport, portText, String.append_empty,
        (replaceAll_eq_self_iff (by decide) l.path).2 hfree]
    rw [hsame, startsWith_iff, startsWith_iff]
    refine ⟨List.prefix_rfl, ?_⟩
    simp only [rawUrl, String.toList_append, List.append_assoc]
    exact List.prefix_append _ _

def portedProject : Location where
  scheme := "http"
  host := "localhost"
  port := some 8080
  path := "group/project"
  isScheme := ⟨⟨'h', rfl, by decide⟩, by decide⟩
  isHost := .name (by decide) (by decide)
  port_le := by simp
  isProject := ⟨by decide, by decide, by decide, ⟨'t', rfl, by decide⟩, by decide⟩

def pagesProject : Location where
  scheme := "https"
  host := "gitlab.com"
  port := none
  path := "group/pages.github.io"
  isScheme := ⟨⟨'h', rfl, by decide⟩, by decide⟩
  isHost := .name (by decide) (by decide)
  port_le := by simp
  isProject := ⟨by decide, by decide, by decide, ⟨'o', rfl, by decide⟩, by decide⟩

def askedUrl? (c : Call) : Option String :=
  (c.args.field? "url").map Json.inText

/-- The port is written twice, and the project is asked for under another name. -/
theorem requests_astray :
    (((fileContent (.str (portedProject.address ⟨false, false⟩)) (.str "a.py") .null).on
        (sending "hi")).2.calls.filterMap askedUrl? =
      ["http://localhost:8080:8080/api/v4/projects/group%2Fproject",
        "http://localhost:8080:8080/api/v4/projects/group%2Fproject" ++
          "/repository/files/a.py/raw?ref=dev"]) ∧
    (((fileContent (.str (pagesProject.address ⟨false, false⟩)) (.str "a.py") .null).on
        (sending "hi")).2.calls.filterMap askedUrl? =
      ["https://gitlab.com/api/v4/projects/group%2Fpageshub.io",
        "https://gitlab.com/api/v4/projects/group%2Fpageshub.io" ++
          "/repository/files/a.py/raw?ref=dev"]) := by
  decide +kernel

end GitLab
end Repository
end RepoWiki
