/-!
# Files

What a start may read: a tree of directories with files at its leaves, and the way from a path to a
file. A path is followed part by part, and each part asks for a directory to look in; so a path
through a file leads nowhere, and neither does one that ends at a directory. Only a name that no
directory holds counts as missing, because there the defaults may stand in.
-/

namespace Patchbay

/-- Why a path gives no text. -/
inductive FileFault where
  /-- Nothing has this name. -/
  | missing
  /-- Something is in the way: what is there is no text, or the path cannot be followed. -/
  | unreadable
deriving DecidableEq, Repr

/-- A file or a directory. -/
inductive FileTree where
  | file (text : String)
  | directory (entries : List (String × FileTree))

namespace FileTree

/-- What a directory holds under a name; a file holds nothing. -/
def child? : FileTree → String → Option FileTree
  | .file _, _ => none
  | .directory entries, name => entries.lookup name

/-- Puts something under a name. -/
def withChild (t : FileTree) (name : String) (u : FileTree) : FileTree :=
  match t with
  | .file _ => .directory [(name, u)]
  | .directory entries => .directory ((name, u) :: entries)

theorem child?_withChild (t : FileTree) (name : String) (u : FileTree) :
    (t.withChild name u).child? name = some u := by
  cases t <;> simp [withChild, child?]

/-- Puts something under a path of names; directories on the way are made where there are none. -/
def put : FileTree → List String → FileTree → FileTree
  | _, [], u => u
  | t, name :: rest, u =>
    t.withChild name (put ((t.child? name).getD (.directory [])) rest u)

/-! ### Paths -/

/-- A place in a tree. -/
structure Place where
  /-- What is at the place. -/
  here : FileTree
  /-- The directories on the way to it, innermost first. -/
  above : List FileTree

/-- The most bytes that a name can have. -/
def longestName : Nat := 255

/-- The most bytes that a path can have. -/
def longestPath : Nat := 4095

/-- Follows one part of a path: an empty part or one dot stays in the directory, two dots lead out
of it, but never out of the root. -/
def Place.follow (p : Place) (part : String) : Except FileFault Place :=
  match p.here with
  | .file _ => .error .unreadable
  | .directory entries =>
    if part = "" ∨ part = "." then .ok p
    else if part = ".." then
      match p.above with
      | [] => .ok p
      | parent :: above => .ok ⟨parent, above⟩
    else if longestName < part.utf8ByteSize then .error .unreadable
    else
      match entries.lookup part with
      | none => .error .missing
      | some t => .ok ⟨t, p.here :: p.above⟩

/-- Follows the parts of a path one after another. -/
def Place.followAll (p : Place) : List String → Except FileFault Place
  | [] => .ok p
  | part :: rest => (p.follow part).bind fun q => q.followAll rest

theorem Place.followAll_append (p : Place) (parts rest : List String) :
    p.followAll (parts ++ rest) = (p.followAll parts).bind fun q => q.followAll rest := by
  induction parts generalizing p with
  | nil => rfl
  | cons part parts ih =>
    simp only [List.cons_append, followAll]
    cases p.follow part with
    | error e => rfl
    | ok q => exact ih q

/-- The place that a path leads to from a directory of the tree; a path that starts with a slash
starts at the root instead. The empty path leads nowhere. -/
def find (root : FileTree) (directory : List String) (path : String) : Except FileFault Place :=
  let top : Place := ⟨root, []⟩
  if path = "" then .error .missing
  else if longestPath < path.utf8ByteSize then .error .unreadable
  else if path.startsWith "/" then top.followAll (path.splitOn "/")
  else (top.followAll directory).bind fun p => p.followAll (path.splitOn "/")

/-- The text that a path gives. -/
def read (root : FileTree) (directory : List String) (path : String) : Except FileFault String :=
  match root.find directory path with
  | .error e => .error e
  | .ok p =>
    match p.here with
    | .file text => .ok text
    | .directory _ => .error .unreadable

end FileTree

end Patchbay
