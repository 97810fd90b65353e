import StackAsm.Utf8

set_option autoImplicit false

/-!
# Files by path

Files and directories form a tree. A command runs in a directory of the tree and names files by
paths, from the root of the tree if they begin with a slash, else from its working directory. This
module says which file a path names: the parts between slashes are followed one after the other, an
empty part and `.` stay where they are, `..` goes up as long as there is something above, and only
directories can be passed through.

## Main definitions

* `StackAsm.Tree` — files and directories.
* `StackAsm.Tree.node` — what is at a place of a tree.
* `StackAsm.Directory` — a working directory in a tree.
* `StackAsm.Directory.find` — the place that a path leads to.
* `StackAsm.Directory.read`, `StackAsm.Directory.write` — reading and writing a file by its path.
* `StackAsm.FileFault` — why a path cannot be read or written.
* `StackAsm.hasExtension` — whether the name of a file has an extension.

## Implementation notes

A tree holds files and directories and nothing else, so there are no links in it. Names may be of
any length, and whatever is there may be read and written.
-/

namespace StackAsm

/-- Why a file cannot be read or written. -/
inductive FileFault where
  /-- There is nothing by this name. -/
  | missing
  /-- A file is passed through like a directory. -/
  | notDirectory
  /-- There is a directory by this name. -/
  | isDirectory
  /-- The system gives another reason. -/
  | other (reason : String)
  deriving DecidableEq, Repr

/-- The wording of a fault. -/
def FileFault.message : FileFault → String
  | missing => "No such file or directory (os error 2)"
  | notDirectory => "Not a directory (os error 20)"
  | isDirectory => "Is a directory (os error 21)"
  | other reason => reason

/-- The parts of a path between its slashes. -/
def pathParts (path : String) : List String := (path.toList.splitOn '/').map String.ofList

/-- Whether the last part of a path that goes down has the given extension and a name before it. -/
def hasExtension (extension path : String) : Bool :=
  match ((pathParts path).filter fun part => part ≠ "" ∧ part ≠ ".").getLast? with
  | none => false
  | some name =>
    let ending := '.' :: extension.toList
    ending.length < name.toList.length ∧ ending.isSuffixOf name.toList

/-! ## Trees -/

/-- A place in a tree: the names on the way to it from the root. -/
abbrev Place := List String

/-- Files and directories. -/
inductive Tree where
  /-- A file. -/
  | file (bytes : Bytes)
  /-- A directory, with what is in it by name. -/
  | directory (entries : List (String × Tree))
  deriving Repr

/-- What can be at a place. -/
inductive Node where
  /-- A file. -/
  | file (bytes : Bytes)
  /-- A directory. -/
  | directory
  /-- Nothing. -/
  | nothing
  deriving DecidableEq, Repr

/-- Puts something into a directory by a name, in the place of what has the name already. -/
def setEntry (name : String) (t : Tree) : List (String × Tree) → List (String × Tree)
  | [] => [(name, t)]
  | (other, u) :: entries =>
    if other = name then (name, t) :: entries else (other, u) :: setEntry name t entries

namespace Tree

/-- What is in a directory, by name. Nothing is in a file. -/
def entries : Tree → List (String × Tree)
  | file _ => []
  | directory entries => entries

/-- What a tree is itself. -/
def kind : Tree → Node
  | file bytes => .file bytes
  | directory _ => .directory

/-- What is at a place. -/
def node : Tree → Place → Node
  | t, [] => t.kind
  | t, name :: way =>
    match t.entries.lookup name with
    | some u => u.node way
    | none => .nothing

/-- The tree after a file is put at a place, in directories that are made where there are none. -/
def put (bytes : Bytes) : Place → Tree → Tree
  | [], _ => file bytes
  | name :: way, t =>
    let below := (t.entries.lookup name).getD (directory [])
    directory (setEntry name (put bytes way below) t.entries)

mutual

/-- All files, each with the way to it. -/
def files : Tree → List (Place × Bytes)
  | file bytes => [([], bytes)]
  | directory entries => filesOf entries

/-- All files among what is in a directory, each with the way to it. -/
def filesOf : List (String × Tree) → List (Place × Bytes)
  | [] => []
  | (name, t) :: entries =>
    (t.files.map fun (way, bytes) => (name :: way, bytes)) ++ filesOf entries

end

/-- The place that a part of a path leads to from a directory. Above the root is the root. -/
def follow (p : Place) (part : String) : Place :=
  if part = "" ∨ part = "." then p
  else if part = ".." then p.dropLast
  else p ++ [part]

/-- Follows the parts of a path, each from a directory. -/
def walk (t : Tree) (p : Place) : List String → Except FileFault Place
  | [] => .ok p
  | part :: parts =>
    match t.node p with
    | .file _ => .error .notDirectory
    | .nothing => .error .missing
    | .directory => walk t (follow p part) parts

end Tree

/-! ## Reading and writing by paths -/

/-- A working directory in a tree. -/
structure Directory where
  /-- The tree, from its root. -/
  root : Tree
  /-- The place of the working directory. -/
  working : Place
  deriving Repr

namespace Directory

/-- A working directory with the given files, named by paths without `.` and `..`, and nothing else
in the tree. -/
def ofFiles (files : List (String × Bytes)) : Directory :=
  let working := ["work"]
  let empty := Tree.directory [("work", .directory [])]
  ⟨files.foldl (fun t (name, bytes) => t.put bytes (working ++ pathParts name)) empty, working⟩

/-- The files below the working directory, named by paths from there. -/
def toFiles (d : Directory) : List (String × Bytes) :=
  (d.root.files.filter fun file => d.working.isPrefixOf file.1).map fun (way, bytes) =>
    ("/".intercalate (way.drop d.working.length), bytes)

/-- What is at a place. -/
def node (d : Directory) (p : Place) : Node := d.root.node p

/-- The place where a path starts, and its parts from there. The empty path names nothing. -/
def start (d : Directory) (path : String) : Except FileFault (Place × List String) :=
  match pathParts path with
  | [""] => .error .missing
  | "" :: parts => .ok ([], parts)
  | parts => .ok (d.working, parts)

/-- The place that a path leads to. -/
def find (d : Directory) (path : String) : Except FileFault Place := do
  let (origin, parts) ← d.start path
  d.root.walk origin parts

/-- The bytes of the file that a path names. -/
def read (d : Directory) (path : String) : Except FileFault Bytes := do
  let p ← d.find path
  match d.node p with
  | .file bytes => .ok bytes
  | .directory => .error .isDirectory
  | .nothing => .error .missing

/-- The directory after the file at a place is written. -/
def put (d : Directory) (bytes : Bytes) (p : Place) : Directory :=
  { d with root := d.root.put bytes p }

/-- Writes the file that a path names, in a directory that must exist. -/
def write (d : Directory) (path : String) (bytes : Bytes) : Except FileFault Directory := do
  let (origin, parts) ← d.start path
  let last := ((parts.filter (· ≠ "")).getLast?).getD "."
  let before := (parts.reverse.dropWhile (· = "")).tail.reverse
  let parent ← d.root.walk origin before
  match d.node parent with
  | .file _ => .error .notDirectory
  | .nothing => .error .missing
  | .directory =>
    let place := Tree.follow parent last
    if parts.getLast? = some "" ∨ d.node place = .directory then .error .isDirectory
    else .ok (d.put bytes place)

end Directory

end StackAsm
