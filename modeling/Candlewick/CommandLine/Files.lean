import Candlewick.Table

/-! # Files

What the paths on a command line lead to. A `Folder` is one that is known as a whole: it tells what
a path leads to (`Folder.look`) without a look at the machine, of which only that is known which
every machine has. -/

namespace Candlewick

/-- What a path leads to. -/
inductive Found where
  | nothing
  /-- Something that opens but does not read, such as a folder. -/
  | folder
  | file (bytes : List UInt8)
deriving Inhabited

/-- What each path leads to. -/
abbrev Files := String → Found

/-- The contents of a file. -/
def Found.bytes? : Found → Option (List UInt8)
  | .file bytes => some bytes
  | .nothing | .folder => none

/-- The parts of a text between slashes, some of which may be empty. -/
def splitSlashes : List Char → List (List Char)
  | [] => [[]]
  | c :: cs =>
    match splitSlashes cs with
    | part :: parts => if c = '/' then [] :: part :: parts else (c :: part) :: parts
    | [] => [[c]]

/-- The parts of a path. -/
def pathParts (path : String) : List String := (splitSlashes path.toList).map String.ofList

/-- A folder with all files in it, each under the parts of its path from there. -/
structure Folder where
  files : List (List String × List UInt8)

namespace Folder

/-- A folder with files under their paths. -/
def ofFiles (files : List (String × List UInt8)) : Folder :=
  ⟨files.map fun (path, bytes) => ((pathParts path).filter (!·.isEmpty), bytes)⟩

/-- What lies at some parts from the folder. Folders are there for the sake of the files in them. -/
def at? (f : Folder) (parts : List String) : Found :=
  match f.files.find? (·.1 = parts) with
  | some (_, bytes) => .file bytes
  | none =>
    if parts.isEmpty || f.files.any (fun (p, _) => parts.isPrefixOf p) then .folder else .nothing

/-- The folders at the root of every machine. -/
def rootFolders : List String :=
  ["bin", "dev", "etc", "home", "lib", "mnt", "opt", "proc", "root", "run", "sbin", "srv", "sys",
    "tmp", "usr", "var"]

/-- What lies at some parts from the root of every machine. -/
def rootAt : List String → Found
  | [] => .folder
  | [part] => if rootFolders.contains part then .folder else .nothing
  | ["dev", "null"] => .file []
  | _ => .nothing

/-- Where a walk has come to. -/
inductive Place where
  /-- In the folder, at some parts from there. -/
  | inside (parts : List String)
  /-- Above the folder, where there are folders of which nothing else is known. -/
  | above
  /-- At some parts from the root. -/
  | root (parts : List String)
deriving Repr, DecidableEq

/-- What lies at a place. -/
def found (f : Folder) : Place → Found
  | .inside parts => f.at? parts
  | .above => .folder
  | .root parts => rootAt parts

/-- The place one part up. The root has nothing above it. -/
def Place.up : Place → Place
  | .inside [] | .above => .above
  | .inside parts => .inside parts.dropLast
  | .root parts => .root parts.dropLast

/-- The place under a name. -/
def Place.down? (name : String) : Place → Option Place
  | .inside parts => some (.inside (parts ++ [name]))
  | .above => none
  | .root parts => some (.root (parts ++ [name]))

/-- Goes one part further. The empty part and the point stay in a folder, two points leave it, and
nothing leads on from a file. -/
def enter? (f : Folder) (part : String) (place : Place) : Option Place :=
  match f.found place with
  | .folder =>
    if part = "" ∨ part = "." then some place
    else if part = ".." then some place.up
    else place.down? part
  | .nothing | .file _ => none

/-- What a path leads to that starts in the folder, or at the root of the machine. -/
def look (f : Folder) (path : String) : Found :=
  let start : Place := if path.toList.head? = some '/' then .root [] else .inside []
  match (pathParts path).foldlM (fun place part => f.enter? part place) start with
  | none => .nothing
  | some place => f.found place

end Folder

example :
    let f := Folder.ofFiles [("a/b", [1])]
    (f.look "./a//b").bytes? = some [1] ∧ (f.look "a/b/").bytes? = none ∧
      (f.look "a/../a/b").bytes? = some [1] ∧ (f.look "c/../a/b").bytes? = none ∧
      (f.look "/tmp/../dev/null").bytes? = some [] := by
  decide +kernel

end Candlewick
