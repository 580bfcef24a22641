/-
**File trees.**

A tree of files below a working directory, given by the paths of its files and empty directories.
A path is followed component by component, so a directory that is entered and left again has to be
there.

Main definitions:

* `ByteMachine.FileTree`, `FileTree.ofList` — trees, with the directories that the paths need;
* `ByteMachine.FileTree.resolve` — what is at a path;
* `ByteMachine.FileTree.files` — reading the files of a tree as texts.
-/

import ByteMachine.Files

set_option relaxedAutoImplicit false
set_option autoImplicit false

namespace ByteMachine

/-- What is at a place of a tree. -/
inductive FileNode where
  /-- A file with its bytes. -/
  | file (bytes : ByteArray)
  | directory

/-- **A file tree:** what is at the places below the working directory, each named by the
components of its path. -/
structure FileTree where
  /-- The places that are given. -/
  nodes : List (List String × FileNode)

namespace FileTree

/-- The components of a path; empty ones and single dots go nowhere. -/
def components (path : String) : List String :=
  ((path.toList.splitOn '/').map String.ofList).filter fun c => c ≠ "" ∧ c ≠ "."

/-- The tree of the given files and directories. -/
def ofList (entries : List (String × FileNode)) : FileTree :=
  ⟨entries.map fun (path, node) => (components path, node)⟩

/-- What is at a place.  A place on the way to a given one is a directory. -/
def at? (t : FileTree) (place : List String) : Option FileNode :=
  match t.nodes.find? (·.1 = place) with
  | some (_, node) => some node
  | none => if t.nodes.any (place.isPrefixOf ·.1) then some .directory else none

/-- A place below the working directory, or somewhere above it, where no files are known. -/
inductive Place where
  /-- Below the working directory. -/
  | inside (place : List String)
  /-- Above it. -/
  | outside

/-- The directory that holds a directory. -/
def Place.parent : Place → Place
  | inside [] => outside
  | inside place => inside place.dropLast
  | outside => outside

/-- Follows components from a directory. -/
def follow (t : FileTree) : Place → List String → Except ReadError FileNode
  | _, [] => .ok .directory
  | place, ".." :: more => follow t place.parent more
  | .outside, _ :: _ => .error .notFound
  | .inside place, c :: more =>
    match t.at? (place ++ [c]) with
    | none => .error .notFound
    | some .directory => follow t (.inside (place ++ [c])) more
    | some (.file bytes) => if more = [] then .ok (.file bytes) else .error .notDirectory

/-- Whether a path asks for a directory by its end. -/
def asksDirectory (path : String) : Bool :=
  match path.toList.reverse with
  | '/' :: _ => true
  | ['.'] => true
  | '.' :: '/' :: _ => true
  | _ => false

/-- **What is at a path.**  The empty path names nothing. -/
def resolve (t : FileTree) (path : String) : Except ReadError FileNode :=
  if path = "" then .error .notFound
  else
    let start := if path.toList.head? = some '/' then .outside else .inside []
    match t.follow start (components path) with
    | .ok (.file bytes) => if asksDirectory path then .error .notDirectory else .ok (.file bytes)
    | result => result

/-- **The files of a tree,** read as texts. -/
def files (t : FileTree) : Files := fun path =>
  match t.resolve path with
  | .error e => .error e
  | .ok .directory => .error .isDirectory
  | .ok (.file bytes) =>
    match String.fromUTF8? bytes with
    | some text => .ok text
    | none => .error .notText

end FileTree

end ByteMachine
