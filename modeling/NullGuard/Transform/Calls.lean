import NullGuard.Chain.Decompose
import NullGuard.Chain.Guard
import NullGuard.Transform.Plan
import NullGuard.Transform.Removal

/-!
# Rewriting calls

Every planned call is replaced by the expression of its chain, from the inside
out. The temporary of a call is declared in the nearest holder: the program, or
the body of a function, method or static block. Parameters, keys and decorators
stand outside the body that they belong to. A callback of the helper is no
holder, because its body moves out of it.

A holder that got temporaries starts with one `var` statement for all of them,
behind its directives. An arrow function whose body is an expression then gets a
block for it.

The parentheses around a rewritten call are taken off in places that separate
their content from everything around.
-/

namespace NullGuard.Transform

open NullGuard.Text (Span)
open NullGuard.Tree NullGuard.Chain NullGuard.Scope

/-- A name that the rewrite declared. -/
structure Temporary where
  name : String
  priority : HoistPriority
deriving DecidableEq, Repr

/-- Where temporaries are declared. -/
structure Holder where
  priority : HoistPriority := defaultPriority
  names : List String := []
deriving DecidableEq, Repr

/-- What has been done so far. -/
structure Progress where
  supply : NameSupply
  comments : CommentMap
  /-- The calls that were rewritten, taken apart, in the order in which they
  were replaced. -/
  chains : List AccessChain := []
  /-- The temporaries in the order in which they were made. -/
  temporaries : List Temporary := []
  /-- The innermost holder, once there is one. -/
  holder : Option Holder := none

/-- How many calls were rewritten. -/
def Progress.calls (p : Progress) : Nat :=
  p.chains.length

/-- The names that the innermost holder has to declare. -/
def Progress.held (p : Progress) : List String :=
  (p.holder.map Holder.names).getD []

/-- A step of a rewrite, which can reject the program. -/
abbrev Rewrite :=
  StateT Progress (Except Rejection)

/-- What a rewrite goes by. -/
structure Setting where
  options : Options
  plan : Plan
  removals : List (Option Span)
  programStart : Nat

/-- What has been done after a temporary of that name was made. Outside of all
holders it would be noted and declared nowhere. -/
def Progress.addTemporary (p : Progress) (name : String) (supply : NameSupply) :
    Progress :=
  match p.holder with
  | some holder =>
    { p with
      supply := supply
      temporaries := p.temporaries ++ [⟨name, holder.priority⟩]
      holder := some ⟨holder.priority, holder.names ++ [name]⟩ }
  | none => { p with supply := supply }

namespace Progress

variable (p : Progress) (name : String) (supply : NameSupply)

@[simp] theorem supply_addTemporary :
    (p.addTemporary name supply).supply = supply := by
  unfold addTemporary
  split <;> rfl

@[simp] theorem comments_addTemporary :
    (p.addTemporary name supply).comments = p.comments := by
  unfold addTemporary
  split <;> rfl

@[simp] theorem chains_addTemporary :
    (p.addTemporary name supply).chains = p.chains := by
  unfold addTemporary
  split <;> rfl

end Progress

/-- Makes a temporary in the current holder. -/
def makeTemporary : Rewrite String :=
  modifyGet fun p =>
    let (name, supply) := p.supply.fresh "ref"
    (name, p.addTemporary name supply)

/-- Runs a rewrite in a holder of its own, and gives the names that the holder
has to declare. -/
def withHolder {α : Type} (priority : HoistPriority) (act : Rewrite α) :
    Rewrite (α × List String) := do
  let outer := (← get).holder
  modify fun p => { p with holder := some ⟨priority, []⟩ }
  let a ← act
  let names := (← get).held
  modify fun p => { p with holder := outer }
  return (a, names)

/-- The statement that declares temporaries. -/
def varStatement (names : List String) : Node :=
  made (.varDecl .var false) (names.map fun name =>
    made (.declarator false) [made (.bindingIdent name false) [.none], .none])

/-- Whether a statement is a directive. -/
def isDirective : Node → Bool
  | .node .exprStmt _ [.node (.str _ _) _ _] => true
  | _ => false

/-- Statements with a declaration of temporaries behind the directives, if there
are any to declare. -/
def declareIn (names : List String) (items : List Node) : List Node :=
  if names.isEmpty then items
  else items.takeWhile isDirective ++ varStatement names ::
    items.dropWhile isDirective

/-- An argument or an element without parentheses made for it. -/
def unwrapItem : Node → Node
  | .node .spread s [inner] => .node .spread s [unwrap inner]
  | n => unwrap n

/-- A change to the items of a list. -/
def mapItems (f : Node → Node) : Node → Node
  | .node .list s items => .node .list s (items.map f)
  | n => n

/-- What becomes of the parts of a node, once they are rewritten, because of the
place they are in. -/
def tidy (removals : List (Option Span)) (k : Kind) (ns : List Node) :
    List Node :=
  match k with
  | .exprStmt => ns.modify 0 unwrapConditional
  | .assign _ | .declarator _ | .keyValue | .assignPat => ns.modify 1 unwrap
  | .property _ =>
    match ns with
    | .node (.privateName _) _ _ :: _ => ns
    | _ => ns.modify 1 unwrap
  | .returnStmt | .throwStmt | .computed | .paren | .markup .container =>
    ns.modify 0 unwrap
  | .array _ => ns.map unwrapItem
  | .call | .new | .optCall _ => ns.modify 1 (mapItems unwrapItem)
  | .cond => (ns.modify 1 unwrap).modify 2 unwrap
  | .seq | .template _ => ns.map unwrap
  | .varDecl _ _ => ns.filter fun d => !removals.contains d.span
  | .ifStmt => (ns.modify 1 loneStatement).modify 2 loneStatement
  | .labeled | .whileStmt | .doWhile | .withStmt => ns.modify 1 loneStatement
  | .forStmt => (ns.modify 0 loopStart).modify 3 loneStatement
  | .forIn | .forOf _ => ns.modify 2 loneStatement
  | _ => ns

/-- A node with what becomes of it, in its own place and as the callback of a
call, and its parts. -/
inductive Pending where
  | mk (node : Node) (rewrite inline : Rewrite Node) (parts : List Pending)

namespace Pending

/-- The node. -/
def node : Pending → Node
  | mk n _ _ _ => n

/-- What becomes of the node in its own place. -/
def rewrite : Pending → Rewrite Node
  | mk _ r _ _ => r

/-- What becomes of the node as the callback of a call. -/
def inline : Pending → Rewrite Node
  | mk _ _ i _ => i

/-- The children of the node. -/
def parts : Pending → List Pending
  | mk _ _ _ ps => ps

/-- A part that is not there. -/
def none : Pending :=
  mk .none (pure .none) (pure .none) []

end Pending

/-- The part at a position. -/
def pending (ps : List Pending) (i : Nat) : Pending :=
  ps.getD i .none

/-- What becomes of several nodes, in order. -/
def rewriteAll (ps : List Pending) : Rewrite (List Node) :=
  ps.mapM Pending.rewrite

/-- The statements or items of a list; those that are dropped leave their
comments to the others. -/
def rewriteItems (setting : Setting) (ps : List Pending) :
    Rewrite (List Node) := do
  let items ← rewriteAll ps
  let keep := staysIn setting.removals
  if setting.removals.isEmpty then return items.filter keep
  modifyGet fun p =>
    let (kept, comments) :=
      retainItems setting.programStart keep items (some p.comments)
    (kept, { p with comments := comments.getD p.comments })

/-- A body that holds temporaries; a missing body stays missing. -/
def rewriteBody (setting : Setting) (priority : HoistPriority)
    (body : Pending) : Rewrite Node := do
  match body.node with
  | .node .block s _ =>
    let (items, names) ← withHolder priority (rewriteItems setting body.parts)
    return .node .block s (declareIn names items)
  | _ => body.rewrite

/-- The parts of a function, with the priority of the temporaries in its body.
The decorators come before the parameters that they stand in front of. -/
def rewriteFunction (setting : Setting) (priority : HoistPriority) :
    List Pending → Rewrite (List Node)
  | parameters :: decorators :: body :: types => do
    let decorators ← decorators.rewrite
    let parameters ← parameters.rewrite
    let body ← rewriteBody setting priority body
    return parameters :: decorators :: body :: types.map Pending.node
  | ps => rewriteAll ps

/-- The priority of the temporaries in the body of a method. -/
def methodPriority (options : Options) (function : Node) : HoistPriority :=
  match function.kind with
  | .function true _ => options.asyncMethodHoist
  | _ => defaultPriority

/-- The body of an arrow function that has to declare some names. An expression
becomes a block if there are any. -/
def arrowBody (names : List String) : Node → Node
  | .node .block s items => .node .block s (declareIn names items)
  | value =>
    if names.isEmpty then unwrapConditional value
    else made .block [varStatement names, made .returnStmt [unwrap value]]

/-- The parts of an arrow function. -/
def rewriteArrow : List Pending → Rewrite (List Node)
  | parameters :: body :: types => do
    let parameters ← parameters.rewrite
    let (body, names) ← withHolder defaultPriority body.rewrite
    return parameters :: arrowBody names body :: types.map Pending.node
  | ps => rewriteAll ps

/-- Whether a node is an arrow function, parentheses aside. -/
def isArrow (n : Node) : Bool :=
  match n.stripParens.kind with
  | .arrow _ => true
  | _ => false

/-- Whether a callee is a helper whose call is planned. -/
def isPlanned (plan : Plan) (callee : Node) : Bool :=
  match callee.stripParens with
  | .node (.ident _) s _ => plan.isTarget s
  | _ => false

/-- The arguments of a helper call: the second one is the callback. -/
def rewriteArguments : List Pending → Rewrite (List Node)
  | base :: callback :: rest => do
    let base ← base.rewrite
    let callback ← callback.inline
    return ((base :: callback :: (← rewriteAll rest))).map unwrapItem
  | ps => do return (← rewriteAll ps).map unwrapItem

/-- A helper call: its arguments first, and then the call itself. -/
def rewriteCall (setting : Setting) (s : Option Span) (arguments : Pending) :
    Rewrite Node := do
  let arguments ← rewriteArguments arguments.parts
  let chain ← decompose setting.options.policy s arguments
  modify fun p => { p with chains := p.chains ++ [chain] }
  if chain.needsTemporary then return chain.expression (← makeTemporary)
  else return chain.expression ""

/-- What becomes of the parts of a node in its own place. -/
def rewriteParts (setting : Setting) (k : Kind) (ps : List Pending) :
    Rewrite (List Node) := do
  match k, ps with
  | .program _ _, items =>
    let (items, names) ← withHolder defaultPriority (rewriteItems setting items)
    return declareIn names items
  | .block, items | .moduleBlock, items => rewriteItems setting items
  | .switchCase, [test, items] =>
    let test ← test.rewrite
    return [test, .node items.node.kind items.node.span
      (← rewriteItems setting items.parts)]
  | .function _ _, ps => rewriteFunction setting defaultPriority ps
  | .method _ _, [key, function] =>
    let key ← key.rewrite
    let priority := methodPriority setting.options function.node
    let parts ← rewriteFunction setting priority function.parts
    return [key, .node function.node.kind function.node.span parts]
  | .constructor _, [key, parameters, body] =>
    let key ← key.rewrite
    let parameters ← parameters.rewrite
    return [key, parameters, ← rewriteBody setting defaultPriority body]
  | .getterProp, [key, type, body] =>
    let key ← key.rewrite
    return [key, type.node, ← rewriteBody setting defaultPriority body]
  | .setterProp, [key, this, parameter, body] =>
    let key ← key.rewrite
    let parameter ← parameter.rewrite
    return [key, this.node, parameter,
      ← rewriteBody setting defaultPriority body]
  | .staticBlock, [body] => return [← rewriteBody setting defaultPriority body]
  | .arrow _, ps => rewriteArrow ps
  | k, ps => return tidy setting.removals k (← rewriteAll ps)

/-- What becomes of a node in its own place. -/
def rewriteOf (setting : Setting) (k : Kind) (s : Option Span)
    (ps : List Pending) : Rewrite Node := do
  match k, ps with
  | .call, callee :: arguments :: _ =>
    if isPlanned setting.plan callee.node
      then return ← rewriteCall setting s arguments
  | _, _ => pure ()
  return .node k s (← rewriteParts setting k ps)

/-- What becomes of a node as the callback of a call: of an arrow function only
the body is looked at, and it holds no temporaries. -/
def inlineOf (rewrite : Rewrite Node) (k : Kind) (s : Option Span)
    (ps : List Pending) : Rewrite Node := do
  match k, ps with
  | .arrow _, parameters :: body :: types =>
    return .node k s (parameters.node :: (← body.rewrite) ::
      types.map Pending.node)
  | .paren, [inner] | .spread, [inner] =>
    if isArrow inner.node then return .node k s [← inner.inline] else rewrite
  | _, _ => rewrite

mutual

/-- A node with what becomes of it. -/
def toPending (setting : Setting) : Node → Pending
  | .node k s ns =>
    let ps := toPendings setting ns
    let rewrite := rewriteOf setting k s ps
    .mk (.node k s ns) rewrite (inlineOf rewrite k s ps) ps

/-- Several nodes with what becomes of them. -/
def toPendings (setting : Setting) : List Node → List Pending
  | [] => []
  | n :: ns => toPending setting n :: toPendings setting ns

end

/-- Rewrites the planned calls of a program and removes the declarations that
are not needed any more. -/
def rewriteProgram (options : Options) (plan : Plan) (names : NameSupply)
    (program : Node) (comments : CommentMap) :
    Except Rejection (Node × Progress) :=
  let setting : Setting := {
    options, plan
    removals := plan.removals
    programStart := itemStart program }
  ((toPending setting program).rewrite).run { supply := names, comments }

end NullGuard.Transform
