import NullGuard.Command.Host
import NullGuard.Command.Invocation
import NullGuard.Diagnostics.Explanation
import NullGuard.Text.Capitals
import NullGuard.Text.Json
import NullGuard.Text.Style

/-!
# The command `explain`

Explains the code of a diagnostic, which may be written in any letter case.
-/

namespace NullGuard.Command

open NullGuard.Text NullGuard.Diagnostics

/-- Lines with two spaces in front of them, under a heading. -/
def indented (heading body : String) : String :=
  heading ++ ":\n" ++ String.join
    ((body.splitOn "\n").map fun line => "  " ++ line ++ "\n") ++ "\n"

/-- An explanation for a reader. -/
def explanationShown (isColored : Bool) (code : Code) : String :=
  let e := code.explanation
  let title :=
    "\n" ++ styled isColored [.cyan, .bold] code.text ++ ": " ++
      styled isColored [.bold] e.title ++ "\n"
  let rule := String.ofList
    (List.replicate (code.text.length + e.title.length + 2) '=') ++ "\n"
  let example? := e.example?.map (indented (styled isColored [.bold] "Example"))
  let suggestion? :=
    e.suggestion?.map (indented (styled isColored [.green, .bold] "Suggestion"))
  let related :=
    if e.related.isEmpty then ""
    else
      styled isColored [.dim] "Related" ++ ": " ++
        ", ".intercalate (e.related.map Code.text) ++ "\n"
  title ++ rule ++ "\n" ++ e.description ++ "\n\n" ++ example?.getD "" ++
    suggestion?.getD "" ++ related

/-- An explanation for a program. -/
def explanationRecord (code : Code) : Json :=
  let e := code.explanation
  .object [ ("code", .str code.text), ("description", .str e.description),
    ("example", .ofString? e.example?),
    ("related", .array (e.related.map fun c => .str c.text)),
    ("suggestion", .ofString? e.suggestion?), ("title", .str e.title)]

/-- Carries out the command. -/
def explain {m : Type → Type} [Monad m] (h : Host m) (globals : Globals)
    (isColored : Bool) (written : String) : Act m Unit := do
  let text := inCapitals written
  match Code.all.find? fun c => c.text == text with
  | none => throw (.unknownCode text)
  | some code =>
    match globals.format with
    | .text => h.print (explanationShown isColored code)
    | .json => h.print ((explanationRecord code).pretty ++ "\n")

end NullGuard.Command
