import NullGuard.Command.Run

/-!
# Rehearsals: running commands in memory

A rehearsal runs command lines on a tree of files held in memory, and keeps what
they print.
-/

namespace NullGuard.Command

open NullGuard.Files

/-- The files of a rehearsal and what was printed. -/
structure Stage where
  tree : Tree
  printed : String := ""
  reported : String := ""

/-- Carries out an operation on the tree, which stays as it is if the operation
fails. -/
def onTree (f : Tree → Except FileFault Tree) :
    StateM Stage (Except FileFault Unit) :=
  fun s =>
  match f s.tree with
  | .ok tree => (.ok (), { s with tree })
  | .error fault => (.error fault, s)

/-- The tree of a rehearsal as the surroundings of a command. -/
def stageHost : Host (StateM Stage) where
  kind? path := do
    match (← get).tree.lookup path with
    | .ok .directory => return some .directory
    | .ok (.file _) => return some .file
    | .error _ => return none
  readText path := return (← get).tree.readText path
  writeText path text := onTree fun t => t.write path (.text text)
  makeDirectory path := onTree fun t => t.makeDirectory path
  filesUnder path := return (← get).tree.filesUnder path
  print text := modify fun s => { s with printed := s.printed ++ text }
  report text := modify fun s => { s with reported := s.reported ++ text }

/-- What a command line comes to on a tree. -/
def rehearse (isTerminal : Bool) (arguments : List String) (tree : Tree) :
    Except RunFault Unit × Stage :=
  (run stageHost isTerminal arguments).run { tree }

/-- A tree with a file more, and with the directories above it. -/
def withFile (tree : Tree) (path : String) (content : Content) : Tree :=
  let s : Stage := { tree }
  let s := match parent? path with
    | some above => ((stageHost.makeDirectories above).run s).2
    | none => s
  match s.tree.write path content with
  | .ok tree => tree
  | .error _ => s.tree

/-- A tree with a directory more, and with those above it. -/
def withDirectory (tree : Tree) (path : String) : Tree :=
  ((stageHost.makeDirectories path).run { tree }).2.tree

end NullGuard.Command
