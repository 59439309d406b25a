import NullGuard.Command.Host
import NullGuard.Command.Invocation
import NullGuard.Transform.Session

/-!
# Batches: rewriting file after file

A batch collects what comes of rewriting files one by one. A file that cannot be
read becomes an error of its own, like one that is rejected, and the batch goes
on. What a command counts besides is its own affair.
-/

namespace NullGuard.Command

open NullGuard.Text
open NullGuard.Diagnostics NullGuard.Files NullGuard.Transform

/-- What came of the files so far. -/
structure Batch where
  session : Session := {}
  /-- The calls that were rewritten. -/
  calls : Nat := 0

namespace Batch

/-- The error for a file that cannot be read. -/
def unreadable (path : String) (fault : FileFault) : Diagnostic :=
  Diagnostic.ofCode .ioError
    ("Could not read " ++ path ++ ": " ++ fault.message) none

/-- Goes on without a file that cannot be read. -/
def skip (b : Batch) (path : String) (fault : FileFault) : Batch :=
  { b with session := b.session.report [unreadable path fault] }

/-- Rewrites the text of a file. There is an answer unless the text is
rejected. -/
def rewrite (options : Options) (b : Batch) (path text : String) :
    Option Rewritten × Batch :=
  match b.session.rewrite options path text with
  | (none, session) => (none, { b with session })
  | (some r, session) => (some r, ⟨session, b.calls + r.report.callsRewritten⟩)

/-- The diagnostics of a batch in a format. -/
def shown (b : Batch) (format : Format) (isColored : Bool) : String :=
  match format with
  | .text => shownAll b.session.files isColored b.session.diagnostics
  | .json => jsonLines b.session.files b.session.diagnostics

/-- How many diagnostics a batch has. -/
def counts (b : Batch) : Counts :=
  Diagnostics.counts b.session.diagnostics

/-- A batch without its hints. -/
def withoutHints (b : Batch) : Batch :=
  let diagnostics := Diagnostics.withoutHints b.session.diagnostics
  { b with session := { b.session with diagnostics } }

end Batch

end NullGuard.Command
