/-
**Directory trees.**

A tree of directories and files held as data, so that a run can be followed without a disk.  A path
leads from the top of the tree to a file, name by name; a dot stays in a directory and two dots lead
to the one above.  Above the top there are only directories, with nothing known to be in them.

Main definitions:

* `Caret.ReadError`, `Caret.readText` — why a text cannot be read, and bytes read as text;
* `Caret.Entry`, `Caret.Directory.insert` — a file or a directory, and putting a file into a tree;
* `Caret.pathNames` — the names that a path consists of;
* `Caret.Directory.read` — the text of the file that a path leads to.
-/

import Caret.Text.Pieces

set_option relaxedAutoImplicit false
set_option autoImplicit false

namespace Caret

/-! ### Reading -/

/-- Why a text cannot be read. -/
inductive ReadError where
  /-- There is nothing of that name. -/
  | notFound
  /-- A name is looked up in a file. -/
  | notDirectory
  /-- It is a directory. -/
  | isDirectory
  /-- Its bytes are no text. -/
  | notText
  /-- The system says why. -/
  | system (reason : String)
  deriving DecidableEq, Repr

/-- The wording of an error. -/
def ReadError.message : ReadError → String
  | notFound => "No such file or directory (os error 2)"
  | notDirectory => "Not a directory (os error 20)"
  | isDirectory => "Is a directory (os error 21)"
  | notText => "stream did not contain valid UTF-8"
  | system reason => reason

/-- Bytes as text. -/
def readText (bytes : ByteArray) : Except ReadError String :=
  match String.fromUTF8? bytes with
  | some text => .ok text
  | none => .error .notText

/-! ### Trees -/

/-- A file with its bytes, or a directory with what is in it. -/
inductive Entry where
  | file (bytes : ByteArray)
  | directory (entries : List (String × Entry))

/-- What is in a directory, by name. -/
abbrev Directory := List (String × Entry)

namespace Directory

/-- What stands under a name. -/
def get? (d : Directory) (name : String) : Option Entry :=
  (d.find? fun entry => entry.1 == name).map (·.2)

/-- Puts an entry under a name. -/
def put (d : Directory) (name : String) (e : Entry) : Directory :=
  d.filter (fun entry => entry.1 != name) ++ [(name, e)]

/-- Puts a file where a path leads, through directories that are made as needed. -/
def insert (d : Directory) (bytes : ByteArray) : List String → Directory
  | [] => d
  | [name] => d.put name (.file bytes)
  | name :: names =>
    let inner :=
      match d.get? name with
      | some (.directory inner) => inner
      | _ => []
    d.put name (.directory (insert inner bytes names))

end Directory

/-! ### Paths -/

/-- The names that a path consists of. -/
def pathNames (path : String) : List String := (pieces '/' path.toList).map String.ofList

/-- Follows names through directories.  The directory reached and those above it stand nearest first;
there are none above the tree.  An empty name stays where it is, like a dot. -/
def follow : List Directory → List String → Except ReadError ByteArray
  | _, [] => .error .isDirectory
  | above, name :: names =>
    if name = "" ∨ name = "." then follow above names
    else if name = ".." then follow above.tail names
    else
      match above with
      | [] => .error .notFound
      | here :: _ =>
        match here.get? name with
        | none => .error .notFound
        | some (.file bytes) => if names = [] then .ok bytes else .error .notDirectory
        | some (.directory inner) => follow (inner :: above) names

/-- The text of the file that a path leads to.  A path that starts with a slash starts above the
tree. -/
def Directory.read (d : Directory) (path : String) : Except ReadError String :=
  let start := if path.toList.head? = some '/' then [] else [d]
  follow start (pathNames path) >>= readText

end Caret
