import NullGuard.Reading.Dialect

/-!
# Paths

A path is text with slashes in it. Its components leave out what says nothing:
repeated and trailing slashes, and dots that are not in front. Names and
extensions are read off the components, so `a.ts/.` is a file `a.ts`, while `..`
is no name at all.
-/

namespace NullGuard.Files

open NullGuard.Reading (Dialect)

/-- A component of a path. -/
inductive Component where
  | root
  | here
  | parent
  | name (text : String)
deriving DecidableEq, Repr

/-- The pieces of a text between characters of a kind. -/
def piecesAt (separator : Char) (text : String) : List String :=
  (text.toList.splitOn separator).map String.ofList

/-- The pieces of a text between slashes. -/
def pieces (path : String) : List String :=
  piecesAt '/' path

/-- The component that a piece is, where a dot says nothing. -/
def Component.ofPiece? : String → Option Component
  | "" | "." => none
  | ".." => some .parent
  | n => some (.name n)

/-- The components of a path. -/
def components (path : String) : List Component :=
  match pieces path with
  | [""] => []
  | "" :: rest => .root :: rest.filterMap Component.ofPiece?
  | "." :: rest => .here :: rest.filterMap Component.ofPiece?
  | ps => ps.filterMap Component.ofPiece?

/-- The name of what a path leads to. -/
def fileName? (path : String) : Option String :=
  match (components path).getLast? with
  | some (.name n) => some n
  | _ => none

/-- What stands behind the last dot of a name, unless that dot is in front. -/
def extensionOf? (name : String) : Option String :=
  match (piecesAt '.' name).reverse with
  | last :: second :: rest =>
    if rest.isEmpty && second.isEmpty then none else some last
  | _ => none

/-- The extension of what a path leads to. -/
def extension? (path : String) : Option String :=
  (fileName? path).bind extensionOf?

/-- The dialect of a source file. -/
def dialectOf (path : String) : Dialect :=
  Dialect.ofExtension? (extension? path)

/-- The extensions of source files. -/
def sourceExtensions : List String :=
  ["js", "jsx", "mjs", "cjs", "ts", "tsx", "mts", "cts"]

/-- The ends of the names of declaration files, in which there is nothing to
rewrite. -/
def declarationEnds : List String :=
  [".d.ts", ".d.mts", ".d.cts"]

/-- Whether a path names a source file. -/
def isSourceFile (path : String) : Bool :=
  !(declarationEnds.any fun e => ((fileName? path).getD "").endsWith e) &&
    match extension? path with
    | some e => sourceExtensions.contains e
    | none => false

/-- A path inside another one. An absolute path stays as it is. -/
def join (base inside : String) : String :=
  if inside.startsWith "/" then inside
  else if base.isEmpty || base.endsWith "/" then base ++ inside
  else base ++ "/" ++ inside

/-- The components of a path behind those of another one that it begins with. -/
def stripComponents? (path base : List Component) : Option (List Component) :=
  if base.isPrefixOf path then some (path.drop base.length) else none

/-- A component as text. -/
def Component.text : Component → String
  | root => ""
  | here => "."
  | parent => ".."
  | name n => n

/-- Components as a path. -/
def ofComponents : List Component → String
  | [.root] => "/"
  | cs => "/".intercalate (cs.map Component.text)

/-- The path without its last component; the root has nothing above it. -/
def parent? (path : String) : Option String :=
  match components path with
  | [] | [.root] => none
  | cs => some (ofComponents cs.dropLast)

/-- Whether a path comes before another one: by components, each by its
characters. -/
def pathsInOrder (a b : String) : Bool :=
  go (components a) (components b)
where
  /-- The same for components; what stands for no name comes first. -/
  go : List Component → List Component → Bool
    | [], _ => true
    | _, [] => false
    | x :: xs, y :: ys =>
      if x = y then go xs ys
      else
        match x, y with
        | .name m, .name n => m < n
        | .root, _ => true
        | .here, .root => false
        | .here, _ => true
        | .parent, .name _ => true
        | _, _ => false

end NullGuard.Files
