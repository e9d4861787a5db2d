import RepoWiki.Fault
import RepoWiki.Path
/-
Files and directories as a value. Paths are looked up step by step; a link is replaced by its
target on the way, and a step up leaves the directory that has been reached.
-/

namespace RepoWiki

open RepoWiki.Path

/-- What a file holds: a text, octets that need not be one, or a value that the program keeps
for itself. Values are written after an octet that begins no text. -/
inductive Content where
  | text (s : String)
  | octets (bs : List Nat)
  | value (v : Json)

namespace Content

def bytes : Content → List Nat
  | .text s => Text.Utf8.encode s
  | .octets bs => bs
  | .value v => 0x80 :: Text.Utf8.encode (v.write .canonical)

def readText (c : Content) : Except Text.Utf8.Fault String :=
  match c with
  | .text s => .ok (String.ofList (Text.unifyNewlines s.toList))
  | c => (Text.Utf8.decode c.bytes).map fun cs => String.ofList (Text.unifyNewlines cs)

def readLines (c : Content) : Except Text.Utf8.Fault (List String) :=
  match c with
  | .text s => .ok (Text.lines (String.ofList (Text.unifyNewlines s.toList)))
  | c =>
      (Text.Utf8.decodeInBlocks c.bytes).map fun cs =>
        Text.lines (String.ofList (Text.unifyNewlines cs))

end Content

inductive Entry where
  | directory (modified : Option Int)
  | file (content : Content) (modified : Option Int)
  | link (target : String)

def insertName (name : String) : List String → List String
  | [] => [name]
  | n :: rest => if name ≤ n then name :: n :: rest else n :: insertName name rest

theorem insertName_perm (name : String) (names : List String) :
    (insertName name names).Perm (name :: names) := by
  induction names with
  | nil => exact .refl _
  | cons n names ih =>
    rw [insertName]
    split
    · exact .refl _
    · exact (ih.cons n).trans (.swap name n names)

/-- The order in which a directory tells the names in it. -/
structure Order where
  arrange : List String → List String → List String
  perm (dir names : List String) : (arrange dir names).Perm names

def Order.byName : Order where
  arrange _ names := names.foldr insertName []
  perm _ names := by
    induction names with
    | nil => exact .refl _
    | cons n names ih => exact (insertName_perm n _).trans (ih.cons n)

/-- The entries of a file system by their components from the root, the directory where relative
paths start, and the order of listings. The root itself is a directory without an entry. -/
structure FileTree where
  cwd : String
  entries : List (List String × Entry)
  order : Order := .byName

namespace FileTree

/-! ## Looking up -/

def lookup? (tree : FileTree) (p : List String) : Option Entry :=
  if p.isEmpty then some (.directory none)
  else (tree.entries.find? fun e => e.1 == p).map (·.2)

def nameLimit : Nat := 255

def pathLimit : Nat := 4096

def linkLimit : Nat := 40

/-- Takes the steps of a path from a place. Only a directory can be left, and `jump` goes on from
the place and with the steps that a link gives. The last step may lead to a place where nothing is
yet. -/
def takeSteps (tree : FileTree)
    (jump : List String → List String → Except FileProblem (List String)) (done : List String) :
    List String → Except FileProblem (List String)
  | [] => .ok done
  | step :: rest =>
      match tree.lookup? done with
      | some (.directory _) =>
          if stays step then takeSteps tree jump done rest
          else if climbs step then takeSteps tree jump done.dropLast rest
          else if nameLimit < step.utf8ByteSize then .error .nameTooLong
          else
            match tree.lookup? (done ++ [step]) with
            | some (.link target) =>
                jump (if isAbsolute target then [] else done) (steps target ++ rest)
            | some _ => takeSteps tree jump (done ++ [step]) rest
            | none => if rest.isEmpty then .ok (done ++ [step]) else .error .notFound
      | some _ => .error .notDirectory
      | none => .error .notFound

def follow (tree : FileTree) :
    Nat → List String → List String → Except FileProblem (List String)
  | 0 => takeSteps tree fun _ _ => .error .linkLoop
  | links + 1 => takeSteps tree (follow tree links)

def origin (tree : FileTree) (p : String) : List String :=
  if isAbsolute p then [] else components tree.cwd

def checkPath (p : String) : Except FileProblem Unit :=
  if p.toList.contains (Char.ofNat 0) then .error .nulInside
  else if p = "" then .error .notFound
  else if pathLimit ≤ p.utf8ByteSize then .error .nameTooLong
  else .ok ()

def resolve (tree : FileTree) (p : String) : Except FileProblem (List String) := do
  checkPath p
  tree.follow linkLimit (tree.origin p) (steps p)

/-- The directory in which the last step of a path is taken, and that step; there is none if the
path is the root. Strokes at the end do not count, and a link there is not followed. -/
def resolveParent (tree : FileTree) (p : String) :
    Except FileProblem (List String × Option String) := do
  checkPath p
  let steps := (steps p).filter (· ≠ "")
  return (← tree.follow linkLimit (tree.origin p) (steps.dropLast ++ [""]), steps.getLast?)

def find? (tree : FileTree) (p : String) : Option Entry :=
  match tree.resolve p with
  | .ok parts => tree.lookup? parts
  | .error _ => none

def exists? (tree : FileTree) (p : String) : Bool :=
  (tree.find? p).isSome

def isFile (tree : FileTree) (p : String) : Bool :=
  match tree.find? p with
  | some (.file _ _) => true
  | _ => false

def isDirectory (tree : FileTree) (p : String) : Bool :=
  match tree.find? p with
  | some (.directory _) => true
  | _ => false

def loops (tree : FileTree) (p : String) : Bool :=
  match tree.resolve p with
  | .error .linkLoop => true
  | _ => false

def open? (tree : FileTree) (p : String) : Result Content :=
  match tree.resolve p with
  | .error problem => .error (.file problem p)
  | .ok parts =>
      match tree.lookup? parts with
      | some (.file content _) => .ok content
      | some (.directory _) => .error (.file .isDirectory p)
      | _ => .error (.file .notFound p)

def readText (tree : FileTree) (p : String) : Result String := do
  match (← tree.open? p).readText with
  | .ok s => return s
  | .error fault => throw (.decode fault)

def readLines (tree : FileTree) (p : String) : Result (List String) := do
  match (← tree.open? p).readLines with
  | .ok lines => return lines
  | .error fault => throw (.decode fault)

/-! ## Listing -/

def namesAt (tree : FileTree) (dir : List String) : List String :=
  tree.order.arrange dir (tree.entries.filterMap fun e =>
    if e.1.length = dir.length + 1 && dir.isPrefixOf e.1 then e.1.getLast? else none)

def directoryAt (tree : FileTree) (p : String) : Result (List String) :=
  match tree.resolve p with
  | .error problem => .error (.file problem p)
  | .ok parts =>
      match tree.lookup? parts with
      | some (.directory _) => .ok parts
      | some _ => .error (.file .notDirectory p)
      | none => .error (.file .notFound p)

def names (tree : FileTree) (p : String) : Result (List String) := do
  return tree.namesAt (← tree.directoryAt p)

structure Listing where
  directories : List String
  others : List String
  links : List String

def list (tree : FileTree) (p : String) : Result Listing := do
  let parts ← tree.directoryAt p
  let isDirectory := fun name =>
    match tree.lookup? (parts ++ [name]) with
    | some (.directory _) => true
    | some (.link _) => tree.isDirectory (join p name)
    | _ => false
  let isLink := fun name =>
    match tree.lookup? (parts ++ [name]) with
    | some (.link _) => true
    | _ => false
  let all := tree.namesAt parts
  return ⟨all.filter isDirectory, all.filter fun name => !isDirectory name, all.filter isLink⟩

/-- A directory with the files in it, then the directories below it that `enter` admits, each in
the same way. Links to directories are not followed. -/
def walkFrom (tree : FileTree) (enter : String → Bool) :
    Nat → String → List (String × List String)
  | 0, _ => []
  | fuel + 1, path =>
      match tree.list path with
      | .error _ => []
      | .ok listing =>
          let entered := listing.directories.filter fun name =>
            enter name && !listing.links.contains name
          (path, listing.others) :: entered.flatMap fun name =>
            walkFrom tree enter fuel (join path name)

/-- All directories from a path down, top first, with the names of their files. There are none if
the path is no directory. -/
def walk (tree : FileTree) (enter : String → Bool) (path : String) : List (String × List String) :=
  tree.walkFrom enter pathLimit path

/-! ## Changing -/

def putEntry (tree : FileTree) (p : List String) (e : Entry) : FileTree :=
  if tree.entries.any fun x => x.1 == p then
    { tree with entries := tree.entries.map fun x => if x.1 == p then (p, e) else x }
  else { tree with entries := tree.entries ++ [(p, e)] }

def makeDirectory (tree : FileTree) (p : String) : Result FileTree :=
  match tree.resolveParent p with
  | .error problem => .error (.file problem p)
  | .ok (_, none) => .error (.file .alreadyExists p)
  | .ok (above, some name) =>
      if stays name || climbs name then .error (.file .alreadyExists p)
      else if nameLimit < name.utf8ByteSize then .error (.file .nameTooLong p)
      else if (tree.lookup? (above ++ [name])).isSome then .error (.file .alreadyExists p)
      else .ok (tree.putEntry (above ++ [name]) (.directory none))

def ensureDirectory (tree : FileTree) (p : String) : Result FileTree :=
  match tree.makeDirectory p with
  | .ok tree => .ok tree
  | .error fault => if tree.isDirectory p then .ok tree else .error fault

def splitLast (p : String) : String × String :=
  if base p = "" then (parent (parent p), base (parent p))
  else (parent p, base p)

/-- Makes a directory after those above it. A directory that is there already is left alone; the
fault names the directory that could not be made. -/
def makeDirectoriesFrom : Nat → FileTree → String → Result FileTree
  | 0, tree, _ => .ok tree
  | fuel + 1, tree, p => do
      let (above, last) := splitLast p
      if above ≠ "" && last ≠ "" && !tree.exists? above then
        let tree ← match makeDirectoriesFrom fuel tree above with
          | .error (.file .alreadyExists _) => pure tree
          | made => made
        if last = "." then return tree else tree.ensureDirectory p
      else tree.ensureDirectory p

def makeDirectories (tree : FileTree) (p : String) : Result FileTree :=
  makeDirectoriesFrom (p.length + 1) tree p

/-- Makes a directory, and where the one above it is missing, that one first. -/
def makePathFrom : Nat → FileTree → String → Result FileTree
  | 0, tree, p => tree.makeDirectory p
  | fuel + 1, tree, p =>
      match tree.makeDirectory p with
      | .error (.file .notFound _) => do
          (← makePathFrom fuel tree (parent p)).ensureDirectory p
      | _ => tree.ensureDirectory p

def makePath (tree : FileTree) (p : String) : Result FileTree :=
  makePathFrom p.length tree p

def write (tree : FileTree) (p : String) (content : Content) : Result FileTree := do
  let located := do
    if Text.endsWith "/" p then
      let _ ← tree.resolveParent p
      .error .isDirectory
    tree.resolve p
  match located with
  | .error problem => .error (.file problem p)
  | .ok parts =>
      match tree.lookup? parts with
      | some (.directory _) => .error (.file .isDirectory p)
      | _ => .ok (tree.putEntry parts (.file content none))

/-- Opens a file to add to it; one that is not there is made. -/
def touch (tree : FileTree) (p : String) : Result FileTree :=
  if tree.isFile p then .ok tree else tree.write p (.text "")

def setModified (tree : FileTree) (p : String) (time : Int) : Result FileTree :=
  match tree.resolve p with
  | .error problem => .error (.file problem p)
  | .ok parts =>
      match tree.lookup? parts with
      | some (.file content _) => .ok (tree.putEntry parts (.file content (some time)))
      | some _ => .ok (tree.putEntry parts (.directory (some time)))
      | none => .error (.file .notFound p)

def makeLink (tree : FileTree) (p target : String) : Result FileTree :=
  match tree.resolveParent p with
  | .error problem => .error (.file problem p)
  | .ok (_, none) => .error (.file .alreadyExists p)
  | .ok (above, some name) =>
      if (tree.lookup? (above ++ [name])).isSome then .error (.file .alreadyExists p)
      else .ok (tree.putEntry (above ++ [name]) (.link target))

def put (tree : FileTree) (p : String) (e : Entry) : Result FileTree := do
  let above := parent p
  let tree ← if above = "" then pure tree else tree.makeDirectories above
  match e with
  | .directory _ => tree.makeDirectories p
  | .link target => tree.makeLink p target
  | .file content none => tree.write p content
  | .file content (some time) => (← tree.write p content).setModified p time

/-- Puts an entry at a path; where it has no place nothing changes. -/
def plant (tree : FileTree) (p : String) (e : Entry) : FileTree :=
  ((tree.put p e).toOption).getD tree

def remove (tree : FileTree) (p : String) : Result FileTree :=
  match tree.resolveParent p with
  | .error problem => .error (.file problem p)
  | .ok (_, none) => .error (.file .isDirectory p)
  | .ok (above, some name) =>
      if stays name || climbs name then .error (.file .isDirectory p)
      else if nameLimit < name.utf8ByteSize then .error (.file .nameTooLong p)
      else
        let here := above ++ [name]
        match tree.lookup? here with
        | none => .error (.file .notFound p)
        | some (.directory _) => .error (.file .isDirectory p)
        | some _ =>
            if Text.endsWith "/" p then .error (.file .notDirectory p)
            else .ok { tree with entries := tree.entries.filter fun e => e.1 != here }

/-! ## Where a path leads -/

inductive Task where
  | step (name : String)
  | reached (link : List String)

def Task.steps (tasks : List Task) : List String :=
  tasks.filterMap fun
    | .step name => some name
    | .reached _ => none

/-- Takes steps from a place and follows links, where `links` have not been met; `met` holds the
links that have, with the place to which each leads. What is not there is taken as it is written,
and so is all that comes after a link that leads back to itself. -/
def realFrom (tree : FileTree) (links : Nat) (met : List (List String × Option (List String)))
    (done : List String) : List Task → List String
  | [] => done
  | .reached link :: rest => realFrom tree links ((link, some done) :: met) done rest
  | .step name :: rest =>
      if stays name then realFrom tree links met done rest
      else if climbs name then realFrom tree links met done.dropLast rest
      else
        let here := done ++ [name]
        match tree.lookup? here with
        | some (.link target) =>
            match met.lookup here with
            | some (some place) => realFrom tree links met place rest
            | some none => here ++ Task.steps rest
            | none =>
                match links with
                | 0 => here ++ Task.steps rest
                | links + 1 =>
                    realFrom tree links ((here, none) :: met)
                      (if isAbsolute target then [] else done)
                      ((steps target).map .step ++ .reached here :: rest)
        | _ => realFrom tree links met here rest
termination_by tasks => (links, tasks.length)

def realPath (tree : FileTree) (p : String) : String :=
  let steps := (steps p).map Task.step
  normalize ("/" ++
    Text.join "/" (tree.realFrom tree.entries.length [] (tree.origin p) steps))

end FileTree
end RepoWiki
