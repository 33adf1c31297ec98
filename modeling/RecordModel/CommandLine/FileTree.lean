/-
**Files held by their places.**

A place is the list of names that lead to it from the root.  A tree of files holds texts at places,
and the directories are the places above them and above the directory in which paths start.  A path
is names between slashes, read from the start, or from the root when a slash comes first: an empty
name and a single dot stay where they are, two dots go up, and above the root lies the root.

Main definitions:

* `FileTree` — texts at places, with the directory in which paths start;
* `FileTree.enter` — the place that one name leads to;
* `FileTree.read` — the text that a path leads to, or why there is none.
-/

import RecordModel.Error

set_option relaxedAutoImplicit false
set_option autoImplicit false

namespace RecordModel

/-- Texts at places. -/
structure FileTree where
  /-- The directory in which paths start. -/
  start : List String
  /-- The files, each with its place. -/
  files : List (List String × String)

namespace FileTree

/-- The most bytes of a name. -/
def longestName : Nat := 255

/-- The most bytes of a path. -/
def longestPath : Nat := 4095

/-- The text at a place. -/
def text? (t : FileTree) (place : List String) : Option String :=
  (t.files.find? (·.1 = place)).map (·.2)

/-- Whether a place is a directory: the start lies at or below it, or a file lies below it. -/
def isDirectory (t : FileTree) (place : List String) : Bool :=
  place.isPrefixOf t.start ||
    t.files.any fun file => place.isPrefixOf file.1 && place.length < file.1.length

/-- The place that a name leads to. -/
def enter (t : FileTree) (place : List String) (name : String) :
    Except ReadFault (List String) :=
  if !t.isDirectory place then .error .notDirectory
  else if name = "" ∨ name = "." then .ok place
  else if name = ".." then .ok place.dropLast
  else if longestName < name.utf8ByteSize then .error .nameTooLong
  else if t.isDirectory (place ++ [name]) || (t.text? (place ++ [name])).isSome then
    .ok (place ++ [name])
  else .error .notFound

/-- The text that names lead to. -/
def readFrom (t : FileTree) (place names : List String) : Except ReadFault String := do
  let place ← names.foldlM t.enter place
  match t.text? place with
  | some text => .ok text
  | none => .error .isDirectory

/-- The text that a path leads to. -/
def read (t : FileTree) (path : String) : Except ReadFault String :=
  if longestPath < path.utf8ByteSize then .error .nameTooLong
  else
    match path.splitOn "/" with
    | [""] => .error .notFound
    | "" :: names => t.readFrom [] names
    | names => t.readFrom t.start names

end FileTree

end RecordModel
