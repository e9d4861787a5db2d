import RepoWiki.Outline.Archive
import RepoWiki.Outline.Report
import RepoWiki.Outline.Summary
/-
Projects: a directory is walked, each source file in it is reported on, and the reports and their
summary go to the archive.
-/

namespace RepoWiki.Outline.Project

/-- The directory of a project as seen from the root. A path that is no directory ends the
program. -/
def locate (path : Json) : Run String := do
  let path ← Run.lift path.asPath
  let tree ← Run.tree
  let dir := if Path.isAbsolute path then path else Path.absolute tree.cwd path
  if tree.isDirectory dir then return dir
  Run.print s!"Error: Directory '{dir}' does not exist or is not a directory"
  throw (.exit 1)

structure Source where
  path : String
  name : String
  ending : String
  language : Language

def Source.ofName? (root name : String) : Option Source :=
  let ending := Text.lower (Path.extension name)
  (Language.ofEnding? ending).map fun l => ⟨Path.join root name, name, ending, l⟩

def sources (tree : FileTree) (dir : String) : List Source :=
  (tree.walk (fun _ => true) dir).flatMap fun (root, files) => files.filterMap (Source.ofName? root)

def recordOf (tree : FileTree) (path : Json) : Json :=
  match path.asPath with
  | .error fault => .obj [("error", .str fault.message)]
  | .ok path =>
      match tree.readLines path with
      | .ok lines => Outline.ofLines path lines
      | .error fault => Outline.ofFault path fault.message

def Source.fields (s : Source) (cwd dir : String) : Fields :=
  [("file_path", .str s.path), ("file_name", .str s.name),
    ("relative_path", .str (Path.relative cwd s.path dir)), ("file_type", .str s.ending),
    ("language", .str s.language.label)]

def report (path : String) : Run Json := do
  let report ← Run.lift (Report.ofRecord (recordOf (← Run.tree) (.str path)))
  Run.print (Report.text report)
  return report

def Source.done (s : Source) (cwd dir : String) (report : Json) : Json :=
  .obj (s.fields cwd dir ++ [("analysis_result", report)])

def Source.failed (s : Source) (cwd dir : String) (fault : Fault) : Run Json := do
  Run.print s!"Error processing file {s.path}: {fault.message}"
  Run.print "Continuing with next file...\n"
  return .obj (s.fields cwd dir ++ [("error", .str fault.message), ("status", .str "failed")])

def attemptReport (s : Source) : Run (Result Json) :=
  Run.orElse
    (do
      Run.print (Text.repeated 50 "=")
      Run.print s!"Processing: {s.path}"
      return .ok (← report s.path))
    fun fault => pure (.error fault)

def tellDone (s : Source) : Run (Option Fault) :=
  Run.orElse
    (do
      Run.print s!"Successfully processed: {s.path}"
      Run.print ""
      return none)
    fun fault => pure (some fault)

/-- The entries of a source file, each with whether it is for a report. The report counts from the
moment it is there: a fault while the success is told adds an entry of its own. -/
def entries (dir : String) (s : Source) : Run (List (Json × Bool)) := do
  let cwd := (← Run.tree).cwd
  match ← attemptReport s with
  | .error fault => return [(← s.failed cwd dir fault, false)]
  | .ok report =>
      match ← tellDone s with
      | none => return [(s.done cwd dir report, true)]
      | some fault => return [(s.done cwd dir report, true), (← s.failed cwd dir fault, false)]

def data (dir : String) (total : Nat) (entries : List (Json × Bool)) : Json :=
  .obj [("project_name", .str (Path.base dir)), ("project_path", .str dir),
    ("total_files", .nat total), ("processed_files", .nat (entries.filter (·.2)).length),
    ("files", .arr (entries.map (·.1)))]

def survey (dir : String) : Run Json := do
  let found := sources (← Run.tree) dir
  return data dir found.length (← found.mapM (entries dir)).flatten

def file (dir : String) (project : Json) : Run Json := do
  let reports ← Archive.pathOf (Path.base dir) .reports
  let summaryPath ← Archive.pathOf (Path.base dir) .summary
  let summary ← Run.lift (Summary.ofProject project)
  Archive.save reports project
  Archive.save summaryPath summary
  return summary

def analyse (path : Json) : Run Json := do
  let dir ← locate path
  file dir (← survey dir)

def storedSummary (path : Json) : Run Json := do
  Archive.load (Path.base (← locate path)) .summary

/-- Writes the text of notes on a project, or what there is of it when writing is stopped. -/
def writeNotes (path : Json) (text : String) (stopped : Option EncodeFault) : Run Unit := do
  let file ← Archive.pathOf (Path.base (← locate path)) .notes
  Run.changeTree fun tree => tree.makeDirectories (Path.parent file)
  Run.changeTree fun tree => tree.write file (.text text)
  match stopped with
  | some fault => throw (.encode fault)
  | none => Run.print s!"Summarize text saved to: {file}"

def saveNotes (path : Json) (notes : Json) : Run Unit :=
  writeNotes path (notes.write .indented) none

def notes (project : String) : Run Json :=
  Archive.load project .notes

end RepoWiki.Outline.Project
