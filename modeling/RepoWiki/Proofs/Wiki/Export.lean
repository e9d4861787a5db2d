import RepoWiki.Proofs.Wiki.Content
import RepoWiki.Wiki.Export
/-
Wikis that are taken away as JSON. Their text is plain ASCII, and reading it gives back the
repository, the number of pages and the pages themselves.
-/

namespace RepoWiki.Wiki.Export

open Json List

theorem record_legible (room : Nat) (now : Clock) (address : String) {pages : List Page}
    (h : pages.length < 10 ^ Text.digitLimit) :
    Legible (room + 4) (record now address pages) := by
  have hmetadata : Legible (room + 3) (.obj [("repository", .str address),
      ("generated_at", .str now.iso), ("page_count", .nat pages.length)]) := by
    refine .obj (by simp) ?_
    simp only [mem_cons, not_mem_nil, or_false, forall_eq_or_imp, forall_eq]
    exact ⟨.str _, .str _, .int (by rwa [Int.natAbs_natCast])⟩
  refine .obj (by simp) ?_
  simp only [mem_cons, not_mem_nil, or_false, forall_eq_or_imp, forall_eq]
  exact ⟨hmetadata, legible_list (Page.legible room) pages⟩

theorem ascii_of_shown {c : Char} (h : Shown true c) : c.toNat < 0x80 := by
  rcases h with rfl | ⟨-, hc⟩
  · decide
  · have := hc rfl
    omega

/-- The export of a wiki is a text of ASCII characters from which the repository, the number of
pages, and every page with its six fields are read as they were. The pages can be as many as a
number that is read has digits for. -/
theorem json_faithful (now : Clock) (address : String) (pages : List Page)
    (hpages : pages.length < 10 ^ Text.digitLimit) :
    (∀ c ∈ (json now address pages).toList, c.toNat < 0x80) ∧
      ∃ items, Json.read (json now address pages) = .ok (.obj [
          ("metadata", .obj [("repository", .str address), ("generated_at", .str now.iso),
            ("page_count", .nat pages.length)]),
          ("pages", .arr items)]) ∧
        items = pages.map (fun p => .obj [("id", .str p.id), ("title", .str p.title),
          ("content", .str p.content), ("filePaths", .arr (p.filePaths.map .str)),
          ("importance", .str p.importance), ("relatedPages", .arr (p.relatedPages.map .str))]) ∧
        Form.list Page.read (.arr items) = .ok pages := by
  have hlegible := record_legible 981 now address hpages
  refine ⟨fun c hc => ascii_of_shown ?_, pages.map Page.toJson, ?_, rfl, ?_⟩
  · exact hlegible.shown indentedAscii_spaced (shown_of_all (by decide)) (shown_of_all (by decide))
      0 c hc
  · exact read_write indentedAscii_spaced hlegible
  · exact Page.lawful.list.back pages

def quotedPage : Page where
  id := "\"p\\1\""
  title := "line\none\u0001"
  content := "\u007f é 😀"
  filePaths := ["a\\b.py", ""]
  importance := "high"
  relatedPages := []

theorem json_faithful_quoted :
    [quotedPage, quotedPage].length < 10 ^ Text.digitLimit ∧
      (∀ c ∈ (json {} "https://h/o/r?é" [quotedPage, quotedPage]).toList, c.toNat < 0x80) ∧
      ∃ items, Json.read (json {} "https://h/o/r?é" [quotedPage, quotedPage]) = .ok (.obj [
          ("metadata", .obj [("repository", .str "https://h/o/r?é"),
            ("generated_at", .str ({} : Clock).iso), ("page_count", .nat 2)]),
          ("pages", .arr items)]) ∧
        Form.list Page.read (.arr items) = .ok [quotedPage, quotedPage] := by
  have hfew : [quotedPage, quotedPage].length < 10 ^ Text.digitLimit := by
    calc 2 < 10 ^ 1 := by decide
      _ ≤ 10 ^ Text.digitLimit := Nat.pow_le_pow_right (by decide) (by decide)
  obtain ⟨hascii, items, hread, -, hback⟩ :=
    json_faithful {} "https://h/o/r?é" [quotedPage, quotedPage] hfew
  exact ⟨hfew, hascii, items, hread, hback⟩

end RepoWiki.Wiki.Export
