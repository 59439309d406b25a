import NullGuard.Files.Path

/-!
# Trees of files

A tree of files as a value, with the operations of a file system and the faults
they have. A path is followed piece by piece: each piece but the last one must
lead to a directory, `.` stays, and `..` goes up. So `a/../b` needs a directory
`a`, and a slash at the end asks for a directory.

Entries are kept under their places, which are the names from the root down.
-/

namespace NullGuard.Files

/-- Why an operation on a file fails. -/
inductive FileFault where
  | notFound
  | occupied
  | notDirectory
  | isDirectory
  | notText
  /-- Any other reason, in the words of the system. -/
  | other (message : String)
deriving DecidableEq, Repr

/-- A fault in words. -/
def FileFault.message : FileFault → String
  | notFound => "No such file or directory (os error 2)"
  | occupied => "File exists (os error 17)"
  | notDirectory => "Not a directory (os error 20)"
  | isDirectory => "Is a directory (os error 21)"
  | notText => "stream did not contain valid UTF-8"
  | other message => message

/-- What a file holds: text, or bytes that are no text. -/
inductive Content where
  | text (text : String)
  | bytes (bytes : List UInt8)
deriving DecidableEq, Repr

/-- What is at a place. -/
inductive Entry where
  | directory
  | file (content : Content)
deriving DecidableEq, Repr

/-- Names from the root down. -/
abbrev Place :=
  List String

/-- A tree of files, and the directory that paths start from. -/
structure Tree where
  entries : List (Place × Entry) := []
  start : Place := ["work"]
deriving DecidableEq, Repr

namespace Tree

/-- A tree with nothing but the directory that paths start from. -/
def empty : Tree :=
  { entries := [(["work"], .directory)] }

/-- What is at a place; the root is a directory. -/
def entry? (t : Tree) (p : Place) : Option Entry :=
  if p.isEmpty then some .directory
  else (t.entries.find? fun e => e.1 == p).map Prod.snd

/-- A tree with an entry at a place. -/
def set (t : Tree) (p : Place) (e : Entry) : Tree :=
  { t with entries := t.entries.filter (fun f => f.1 != p) ++ [(p, e)] }

/-- Where a path leads: to an entry, or to a name in a directory that has no
such entry. -/
inductive Target where
  | entry (place : Place) (entry : Entry)
  | free (place : Place)

/-- Follows the pieces of a path from a place. -/
def follow (t : Tree) : Place → List String → Except FileFault Target
  | p, [] =>
    match t.entry? p with
    | some e => .ok (.entry p e)
    | none => .error .notFound
  | p, piece :: rest =>
    match t.entry? p with
    | some .directory =>
      if piece == "." then follow t p rest
      else if piece == ".." then follow t p.dropLast rest
      else if (t.entry? (p ++ [piece])).isSome then follow t (p ++ [piece]) rest
      else if rest.isEmpty then .ok (.free (p ++ [piece]))
      else .error .notFound
    | some (.file _) => .error .notDirectory
    | none => .error .notFound

/-- Where a path leads. -/
def target (t : Tree) (path : String) : Except FileFault Target :=
  if path.isEmpty then .error .notFound
  else
    t.follow (if path.startsWith "/" then [] else t.start)
      ((pieces path).filter fun piece => !piece.isEmpty)

/-- What a path leads to. -/
def lookup (t : Tree) (path : String) : Except FileFault Entry := do
  match ← t.target path with
  | .entry _ (.file content) =>
    if path.endsWith "/" then .error .notDirectory else .ok (.file content)
  | .entry _ .directory => .ok .directory
  | .free _ => .error .notFound

/-- The text of a file. -/
def readText (t : Tree) (path : String) : Except FileFault String := do
  match ← t.lookup path with
  | .directory => .error .isDirectory
  | .file (.text text) => .ok text
  | .file (.bytes _) => .error .notText

/-- Writes a file, new or not. -/
def write (t : Tree) (path : String) (content : Content) :
    Except FileFault Tree := do
  match ← t.target path with
  | .entry _ .directory => .error .isDirectory
  | .entry p (.file _) | .free p =>
    if path.endsWith "/" then .error .isDirectory
      else .ok (t.set p (.file content))

/-- Makes a directory where nothing is. -/
def makeDirectory (t : Tree) (path : String) : Except FileFault Tree := do
  match ← t.target path with
  | .entry _ _ => .error .occupied
  | .free p => .ok (t.set p .directory)

/-- The names that lead to the files below a place. -/
def filesBelow (t : Tree) (p : Place) : List Place :=
  t.entries.filterMap fun (q, e) =>
    match e with
    | .file _ => if p.isPrefixOf q then some (q.drop p.length) else none
    | .directory => none

/-- The names that lead to the files below a directory. -/
def filesUnder (t : Tree) (path : String) : List Place :=
  match t.target path with
  | .ok (.entry p .directory) => t.filesBelow p
  | _ => []

/-- The files below the start that another tree has not, or not with this
content, with their paths. -/
def changedSince (t before : Tree) : List (String × Content) :=
  t.entries.filterMap fun (p, e) =>
    match e with
    | .file content =>
      if t.start.isPrefixOf p && before.entry? p != some e then
        some ("/".intercalate (p.drop t.start.length), content)
      else none
    | .directory => none

end Tree

end NullGuard.Files
