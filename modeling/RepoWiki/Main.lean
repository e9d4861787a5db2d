import RepoWiki.Outline.Project
/-
The command line: analyses the project in the current directory and keeps the result under the
home directory. The files are loaded into a value first, and what the analysis wrote is put back.
-/

open RepoWiki

/-- Loads a file, or a directory with everything below it. Links are left out, and so is what
cannot be read. -/
partial def loadEntry (tree : FileTree) (e : IO.FS.DirEntry) : IO FileTree := do
  let path := e.path.toString
  try
    match (← e.path.symlinkMetadata).type with
    | .dir =>
        let mut tree := tree.plant path (.directory none)
        for below in ← e.path.readDir do
          tree ← loadEntry tree below
        return tree
    | .file =>
        let octets := (← IO.FS.readBinFile e.path).toList.map UInt8.toNat
        return tree.plant path (.file (.octets octets) none)
    | _ => return tree
  catch _ => return tree

def keepEntry (e : List String × Entry) : IO Unit := do
  if let .file (.text s) _ := e.2 then
    IO.FS.createDirAll ("/" ++ Text.join "/" e.1.dropLast)
    IO.FS.writeFile ("/" ++ Text.join "/" e.1) s

def main : IO UInt32 := do
  let here ← IO.currentDir
  let home := (← IO.getEnv "HOME").getD "/"
  let empty : FileTree := { cwd := here.toString, entries := [] }
  let mut tree := (empty.plant here.toString (.directory none)).plant home (.directory none)
  for e in ← here.readDir do
    tree ← loadEntry tree e
  let (result, host) := (Outline.Project.analyse (.str ".")).run { tree, home : Host }
  IO.print host.printed
  for e in host.tree.entries do
    keepEntry e
  match result with
  | .ok _ => return 0
  | .error fault =>
      IO.eprintln fault.message
      return 1
