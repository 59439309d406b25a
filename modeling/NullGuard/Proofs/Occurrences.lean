import NullGuard.Proofs.PlainScripts

/-!
# What the identifiers of a script do

The grammar says what an identifier does where it stands. It declares a name, or
its value is read or assigned to, or it is a label, a key or a name for the
outside and does nothing. `occurrences` lists the identifiers that do something.
It goes through the nodes of a program one by one, and each node says what the
names close to it do: an identifier in an expression has a value, a function
declares the names in its parameters, an assignment assigns to the names in its
target. No context is passed along and no scope is entered.

The analysis comes to its outline in another way, through a context that is
handed from node to node. In the middle of a program the outline of a pattern is
ahead of the list by the names that the node around the pattern accounts for
(`pending`). A *script* is a program without types in which every part is of the
sort that its place takes (`isScript`); there both ways come to the same.
-/

namespace NullGuard.Scope

open NullGuard.Text (Span)
open NullGuard.Tree

/-- What an identifier does where it stands. -/
inductive Role where
  /-- Its value is read or assigned to. -/
  | value
  | declares (kind : BindingKind)
deriving DecidableEq, Repr

/-- An identifier with what it does. -/
structure Occurrence where
  role : Role
  name : String
  span : Option Span
deriving DecidableEq, Repr

/-- Names that all do the same. -/
def doing (role : Role) (names : List (String × Option Span)) :
    List Occurrence :=
  names.map fun p => ⟨role, p.1, p.2⟩

/-- The name that a node itself is, if it is one. -/
def ownName (n : Node) : List (String × Option Span) :=
  (identifier? n.kind).toList.map fun x => (x, n.span)

/-- Whether the names of a pattern are those of its parts. -/
def isTargetPart (k : Kind) : Bool :=
  isPattern k || k == .list || k == .param

mutual

/-- The names that a pattern binds or assigns to. Keys, default values and other
expressions in it are not among them. -/
def targets : Node → List (String × Option Span)
  | .node (.bindingIdent x _) s _ => [(x, s)]
  | .node k _ ns => if isTargetPart k then targetsAmong ns else []

/-- The names that several patterns bind or assign to. -/
def targetsAmong : List Node → List (String × Option Span)
  | [] => []
  | n :: ns => targets n ++ targetsAmong ns

end

/-- Whether the name of an element stands for itself and not for a value: it
begins with a small letter. -/
def isIntrinsic (name : String) : Bool :=
  match name.toList with
  | first :: _ => decide ('a' ≤ first ∧ first ≤ 'z')
  | [] => false

/-- The value that a name in markup stands for. -/
def elementValue (intrinsic : String → Bool) (n : Node) : List Occurrence :=
  match n.kind with
  | .markup (.name x) => if intrinsic x then [] else [⟨.value, x, n.span⟩]
  | _ => []

/-- The names that the specifiers of an import declare. -/
def specified (specifiers : List Node) : List Occurrence :=
  specifiers.flatMap fun q => doing (.declares .imported)
    (ownName (child q.children 0))

/-- The value that a specifier of an export makes visible. -/
def exportedValue (n : Node) : List Occurrence :=
  match n.kind with
  | .exportSpecifier _ => doing .value (ownName (child n.children 0))
  | _ => []

/-- What a `var`, `let` or `const` declares. -/
def variableKind : VarWord → BindingKind
  | .var => .var
  | _ => .lexical

/-- The names that declarators declare. -/
def declaratorNames (ns : List Node) : List (String × Option Span) :=
  ns.flatMap fun d => targets (child d.children 0)

/-- The identifiers that a node says something about: itself, the name of what
it is, or the names in a pattern of it. -/
def given (k : Kind) (s : Option Span) (ns : List Node) : List Occurrence :=
  match k with
  | .ident x | .shorthand x => [⟨.value, x, s⟩]
  | .assign _ => doing .value (targets (child ns 0))
  | .forIn | .forOf _ =>
    if isVariables (child ns 0).kind then []
      else doing .value (targets (child ns 0))
  | .exportNamed _ _ =>
    if (child ns 1).isNone then (child ns 0).children.flatMap exportedValue
      else []
  | .markup (.opening _) | .markup .closing =>
    elementValue isIntrinsic (child ns 0)
  | .markup .member => elementValue (fun _ => false) (child ns 0)
  | .importDecl _ => specified (child ns 0).children
  | .varDecl word _ =>
    doing (.declares (variableKind word)) (declaratorNames ns)
  | .usingDecl _ => doing (.declares .lexical) (declaratorNames ns)
  | .fnDecl _ | .fnExpr => doing (.declares .function) (ownName (child ns 0))
  | .classDecl _ | .classExpr => doing (.declares .class) (ownName (child ns 0))
  | .function _ _ | .arrow _ => doing (.declares .param) (targets (child ns 0))
  | .constructor _ => doing (.declares .param) (targets (child ns 1))
  | .setterProp =>
    doing (.declares .param) (targets (child ns 1) ++ targets (child ns 2))
  | .catchClause => doing (.declares .lexical) (targets (child ns 0))
  | _ => []

/-- What the nodes in a piece of a program give, one after the other. -/
def gathered {α : Type} (f : Kind → Option Span → List Node → List α)
    (n : Node) : List α :=
  (subnodes n).flatMap fun m => f m.kind m.span m.children

/-- The identifiers in a piece of a program that do something, with what they
do. -/
def occurrences (n : Node) : List Occurrence :=
  gathered given n

/-- The identifiers in several pieces of a program that do something, with what
they do. -/
def occurrencesAmong (ns : List Node) : List Occurrence :=
  ns.flatMap occurrences

/-- Whether nodes of a kind stand in programs with types only. -/
def isTyped : Kind → Bool
  | .type _ | .importEquals _ _ | .externalModule | .exportAssignment
      | .exportAsNamespace | .interfaceDecl _ | .heritage
  | .typeAlias _ | .enumDecl _ _ | .enumMember | .moduleDecl _ _ | .moduleBlock
      | .innerModule | .typeAssertion
  | .constAssertion | .nonNull | .asType | .satisfies | .instantiation
      | .paramProperty _ =>
    true
  | _ => false

/-- How many parts a node has where there are no types, if types can stand
behind them. -/
def untypedParts : Kind → Option Nat
  | .ident _ | .name _ | .shorthand _ | .bindingIdent _ _ | .markup (.name _) =>
    some 0
  | .update _ _ | .staticBlock | .exportDefaultDecl | .markup .closing => some 1
  | .arrow _ | .call | .assign _ | .declarator _ | .fnDecl _ | .classDecl _
      | .fnExpr | .classExpr | .catchClause
  | .switchStmt => some 2
  | .function _ _ | .constructor _ | .getterProp | .importDecl _
      | .exportNamed _ _ =>
    some 3
  | .setterProp => some 4
  | _ => none

/-- Whether nothing stands behind the parts of a node. -/
def endsAt (k : Kind) (ns : List Node) : Bool :=
  match untypedParts k with
  | some i => (ns.drop i).all isMissing
  | none => true

/-- Whether a node is a pattern or an expression, a parameter, or a sequence of
them. -/
def isTarget (n : Node) : Bool :=
  let one (k : Kind) := isExpression k || isPattern k || k == .param
  one n.kind || isSequence n && n.children.all fun m => one m.kind

/-- Whether a node is a plain word or missing. -/
def isWord (n : Node) : Bool :=
  match n.kind with
  | .name _ => true
  | _ => isMissing n

/-- Whether nodes of a kind are missing, plain keys or strings. -/
def isAttributePart : Kind → Bool
  | .absent | .object _ | .keyValue | .propName _ | .str _ _ => true
  | _ => false

/-- Whether a node is missing or made of plain keys and strings, as the
attributes of an import are. -/
def isAttributes (n : Node) : Bool :=
  (subnodes n).all fun m => isAttributePart m.kind

/-- Whether names and patterns stand where a node has to have some. -/
def namedAt (k : Kind) (ns : List Node) : Bool :=
  match k with
  | .fnDecl _ | .classDecl _ | .fnExpr | .classExpr => isWord (child ns 0)
  | .declarator _ | .function _ _ | .arrow _ | .catchClause =>
    isTarget (child ns 0)
  | .constructor _ => isTarget (child ns 1)
  | .setterProp => isTarget (child ns 1) && isTarget (child ns 2)
  | .forIn | .forOf _ => isVariables (child ns 0).kind || isTarget (child ns 0)
  | .param => ns.all isTarget
  | .usingDecl _ => ns.all fun n => isDeclarator n.kind
  | .getterProp => isMissing (child ns 1)
  | .importDecl _ | .exportNamed _ _ => isAttributes (child ns 2)
  | _ => true

/-- Whether a node is a declarator or a name of an element, so that the node
around it says what its name does. -/
def isDependent (n : Node) : Bool :=
  isDeclarator n.kind || isElementName n.kind

/-- Whether declarators stand in declarations of variables only, and names of
elements in tags only. -/
def housedAt (k : Kind) (ns : List Node) : Bool :=
  isVariables k || (if isTag k || k == .markup .member then ns.drop 1
    else ns).all fun n => !isDependent n

/-- Whether a node is one of a program without types. -/
def scriptAt (k : Kind) (ns : List Node) : Bool :=
  !isTyped k && endsAt k ns && namedAt k ns && housedAt k ns

/-- Whether a program or a piece of one is a script: it has no types, and every
part is of the sort that its place takes. -/
def isScript (n : Node) : Bool :=
  isPlain n && (subnodes n).all fun m => scriptAt m.kind m.children

mutual

/-- The identifiers that an outline records, with what they do. -/
def recorded : Outline → List Occurrence
  | .scope _ inside => recordedAll inside
  | .declaration x s kind | .helper x s kind _ => [⟨.declares kind, x, s⟩]
  | .reference x s _ => [⟨.value, x, s⟩]
  | _ => []

/-- The identifiers that several outlines record. -/
def recordedAll : List Outline → List Occurrence
  | [] => []
  | o :: os => recorded o ++ recordedAll os

end

/-- What the node around a node has to say about the names in it, where the node
is read in a context. -/
def pending (c : Context) (n : Node) : List Occurrence :=
  match n.kind with
  | .declarator _ => doing (.declares c.varKind) (targets (child n.children 0))
  | .markup (.name x) => [⟨.value, x, n.span⟩]
  | _ =>
    match c.mode with
    | .read => []
    | .declare kind => doing (.declares kind) (targets n)
    | .write => doing .value (targets n)

/-- What the node around several nodes has to say about the names in them. -/
def pendingAmong (c : Context) (ns : List Node) : List Occurrence :=
  ns.flatMap (pending c)

section Lists

variable {o : Occurrence} {k : Kind} {s : Option Span} {n : Node}
  {ns ms : List Node} {c : Context}

@[simp] theorem recordedAll_append (os os' : List Outline) :
    recordedAll (os ++ os') = recordedAll os ++ recordedAll os' := by
  induction os with
  | nil => rfl
  | cons o os ih =>
    rw [List.cons_append, recordedAll, ih, recordedAll, List.append_assoc]

@[simp] theorem recordedAll_scope (k : ScopeKind) (os : List Outline) :
    recordedAll [.scope k os] = recordedAll os := by
  rw [recordedAll, recordedAll, recorded, List.append_nil]

@[simp] theorem recordedAll_helper (x : String) (t : Option Span)
    (kind : BindingKind) (origin : Origin) (os : List Outline) :
    recordedAll (.helper x t kind origin :: os) =
      doing (.declares kind) [(x, t)] ++ recordedAll os :=
  rfl

@[simp] theorem recordedAll_unrecognized (t : Option Span) (os : List Outline) :
    recordedAll (.unrecognized t :: os) = recordedAll os :=
  rfl

@[simp] theorem recordedAll_malformed (e : Transform.Rejection)
    (os : List Outline) :
    recordedAll (.malformed e :: os) = recordedAll os :=
  rfl

/-- A declaration of a name records it. -/
@[simp] theorem recordedAll_declare (n : Node) (kind : BindingKind) :
    recordedAll (declare n kind) = doing (.declares kind) (ownName n) := by
  rw [declare, ownName]
  cases identifier? n.kind <;> rfl

/-- A use of a name records it, whatever the use is. -/
@[simp] theorem recordedAll_refer (n : Node) (kind : ReferenceKind) :
    recordedAll (refer n kind) = doing .value (ownName n) := by
  rw [refer, ownName]
  cases identifier? n.kind <;> rfl

@[simp] theorem doing_nil (role : Role) : doing role [] = [] :=
  rfl

@[simp] theorem doing_append (role : Role)
    (xs ys : List (String × Option Span)) :
    doing role (xs ++ ys) = doing role xs ++ doing role ys :=
  List.map_append

theorem doing_flatMap {α : Type} (role : Role) (l : List α)
    (f : α → List (String × Option Span)) :
    doing role (l.flatMap f) = l.flatMap fun a => doing role (f a) :=
  List.map_flatMap

theorem targetsAmong_eq (ns : List Node) :
    targetsAmong ns = ns.flatMap targets := by
  induction ns with
  | nil => rfl
  | cons n ns ih => rw [targetsAmong, ih, List.flatMap_cons]

/-- Besides single names, patterns and sequences of them have the names of their
parts. -/
theorem targets_of_isTargetPart (isPart : isTargetPart k = true)
    (other : ∀ x b, k ≠ .bindingIdent x b) :
    targets (.node k s ns) = targetsAmong ns := by
  cases k
  case bindingIdent x b => exact absurd rfl (other x b)
  all_goals first
    | rfl
    | cases isPart

/-- Only patterns, parameters and sequences of them have names that they
bind. -/
theorem targets_eq_nil (noPart : isTargetPart n.kind = false) :
    targets n = [] := by
  obtain ⟨k, s, ns⟩ := n
  cases k
  all_goals first
    | rfl
    | cases noPart

theorem isTargetPart_of_isExpression (isExpr : isExpression k = true) :
    isTargetPart k = false := by
  cases k
  all_goals first
    | rfl
    | cases isExpr

/-- A node gives something of itself and through the nodes in it. -/
theorem gathered_node {α : Type} (f : Kind → Option Span → List Node → List α) :
    gathered f (.node k s ns) = f k s ns ++ ns.flatMap (gathered f) := by
  have among : subnodesAmong ns = ns.flatMap subnodes := by
    induction ns with
    | nil => rfl
    | cons n ns ih => rw [subnodesAmong, ih, List.flatMap_cons]
  rw [gathered, subnodes, List.flatMap_cons, among, List.flatMap_assoc]
  rfl

/-- What the identifiers in a node do is said by the node and by those in it. -/
theorem occurrences_node :
    occurrences (.node k s ns) = given k s ns ++ occurrencesAmong ns :=
  gathered_node given

/-- What the children from a position on give is what the one there gives and
what those behind it give. -/
theorem count_flatMap_drop {α : Type} [BEq α] {f : Node → List α}
    (missing : f .none = []) (a : α) (ns : List Node) (i : Nat) :
    ((ns.drop i).flatMap f).count a = (f (child ns i)).count a +
      ((ns.drop (i + 1)).flatMap f).count a := by
  rcases Nat.lt_or_ge i ns.length with bound | beyond
  · rw [List.drop_eq_getElem_cons bound, List.flatMap_cons, List.count_append,
      child, List.getD_eq_getElem?_getD, List.getElem?_eq_getElem bound,
      Option.getD_some]
  · rw [List.drop_eq_nil_of_le beyond, List.drop_eq_nil_of_le
      (Nat.le_succ_of_le beyond), child, List.getD_eq_getElem?_getD,
      List.getElem?_eq_none beyond, Option.getD_none, missing]
    rfl

end Lists

/-- A node can be read in a context: no names of patterns are asked for, or it
can be a pattern. -/
def Fits (c : Context) (n : Node) : Prop :=
  c.mode = .read ∨ isTarget n = true

section Counting

variable {o : Occurrence} {m : String} {k : Kind} {s : Option Span} {n : Node}
  {ns ms : List Node} {c : Context}

/-- A script at a node, and scripts below it. -/
theorem isScript_node :
    isScript (.node k s ns) = true ↔
      (plainAt k ns = true ∧ scriptAt k ns = true) ∧
      ∀ n ∈ ns, isScript n = true := by
  rw [isScript, Bool.and_eq_true, isPlain_node,
    all_subnodes_node (p := scriptAt)]
  simp only [isScript, Bool.and_eq_true]
  constructor
  · rintro ⟨⟨plain, plains⟩, script, scripts⟩
    exact ⟨⟨plain, script⟩, fun n hn => ⟨plains n hn, scripts n hn⟩⟩
  · rintro ⟨⟨plain, script⟩, below⟩
    exact ⟨⟨plain, fun n hn => (below n hn).1⟩, script,
      fun n hn => (below n hn).2⟩

theorem isScript_none : isScript .none = true :=
  rfl

theorem isScript_child (all : ∀ n ∈ ns, isScript n = true) (i : Nat) :
    isScript (child ns i) = true := by
  rcases child_mem_or ns i with mem | missing
  · exact all _ mem
  · rw [missing]
    exact isScript_none

/-- The node around an independent node has something to say where names of
patterns are asked for. -/
theorem pending_eq (independent : isDependent n = false) :
    pending c n =
      match c.mode with
      | .read => []
      | .declare kind => doing (.declares kind) (targets n)
      | .write => doing .value (targets n) := by
  unfold pending
  split
  · rename_i kind
    rw [isDependent, kind] at independent
    cases independent
  · rename_i kind
    rw [isDependent, kind] at independent
    cases independent
  · rfl

theorem pending_read (independent : isDependent n = false)
    (mode : c.mode = .read) : pending c n = [] := by
  rw [pending_eq independent, mode]

theorem pendingAmong_read (independent : ∀ n ∈ ns, isDependent n = false)
    (mode : c.mode = .read) : pendingAmong c ns = [] :=
  List.flatMap_eq_nil_iff.2 fun n hn => pending_read (independent n hn) mode

/-- In a pattern the node around it has to say about all names of the parts what
it has to say about the whole. -/
theorem pendingAmong_parts (independent : ∀ n ∈ ns, isDependent n = false) :
    pendingAmong c ns =
      match c.mode with
      | .read => []
      | .declare kind => doing (.declares kind) (targetsAmong ns)
      | .write => doing .value (targetsAmong ns) := by
  have each (n : Node) (hn : n ∈ ns) := pending_eq (c := c) (independent n hn)
  rw [pendingAmong, List.flatMap_congr each]
  split
  · exact List.flatMap_eq_nil_iff.2 fun _ _ => rfl
  · rw [targetsAmong_eq, doing_flatMap]
  · rw [targetsAmong_eq, doing_flatMap]

/-- The parts of what can be a pattern can be patterns. -/
theorem isTarget_of_isAssignable (h : isAssignable n = true) :
    isTarget n = true := by
  simp only [isAssignable, isTarget, Bool.or_eq_true, Bool.and_eq_true,
    List.all_eq_true] at h ⊢
  rcases h with (isExpr | isPat) | ⟨isList, items⟩
  · exact .inl (.inl (.inl isExpr))
  · exact .inl (.inl (.inr isPat))
  · exact .inr ⟨isList, fun m hm => .inl (items m hm)⟩

/-- What can be a pattern and has no parts as one is an expression. -/
theorem isExpression_of_isTarget (target : isTarget n = true)
    (noPart : isTargetPart n.kind = false) :
    isExpression n.kind = true := by
  simp only [isTarget, Bool.or_eq_true, Bool.and_eq_true] at target
  simp only [isTargetPart, Bool.or_eq_false_iff] at noPart
  obtain ⟨⟨noPattern, noList⟩, noParam⟩ := noPart
  rcases target with ((isExpr | isPat) | isParam) | ⟨isList, -⟩
  · exact isExpr
  · cases noPattern.symm.trans isPat
  · cases noParam.symm.trans isParam
  · cases noList.symm.trans isList

/-- The parts of a pattern can be patterns. -/
theorem isTarget_parts (isPart : isTargetPart k = true)
    (other : ∀ x b, k ≠ .bindingIdent x b) (sorted : sortedAt k ns = true)
    (named : namedAt k ns = true) (whole : isTarget (.node k s ns) = true) :
    ∀ n ∈ ns, isTarget n = true := by
  intro n hn
  cases k
  case bindingIdent x b => exact absurd rfl (other x b)
  case list =>
    simp only [isTarget, Node.kind_node, Node.children_node, Bool.or_eq_true,
      Bool.and_eq_true, List.all_eq_true] at whole
    rcases whole with ((isExpr | isPat) | isParam) | ⟨-, items⟩
    · cases isExpr
    · cases isPat
    · cases isParam
    · simp only [isTarget, Bool.or_eq_true]
      exact .inl (items n hn)
  case param => exact List.all_eq_true.1 named n hn
  case arrayPat | objectPat | restPat | assignPat | keyValuePat | shorthandPat
    | exprPat =>
    exact isTarget_of_isAssignable (List.all_eq_true.1 sorted n hn)
  all_goals cases isPart

/-- A bare identifier in parentheses has no names of a pattern in it. -/
theorem targets_of_bare {x : Node} (isBare : bareIdentifier? n = some x) :
    targets n = [] := by
  refine targets_eq_nil ?_
  obtain ⟨k, s, ns⟩ := n
  unfold bareIdentifier? at isBare
  split at isBare
  · rename_i y isIdent
    by_cases paren : k = .paren
    · rw [paren]
      rfl
    · have same : (Node.node k s ns).stripParens = .node k s ns := by
        unfold Node.stripParens
        split
        · rename_i isParen
          exact absurd (Node.node.inj isParen).1 paren
        · rfl
      rw [same] at isIdent
      rw [isIdent]
      rfl
  · cases isBare

/-- What `scriptAt` says about the children of a node. -/
structure Scripted (k : Kind) (ns : List Node) : Prop where
  untyped : isTyped k = false
  sorted : sortedAt k ns = true
  ends : endsAt k ns = true
  named : namedAt k ns = true
  housed : housedAt k ns = true

theorem scripted_of_isScript (script : isScript (.node k s ns) = true) :
    Scripted k ns := by
  obtain ⟨⟨plain, here⟩, -⟩ := isScript_node.1 script
  simp only [scriptAt, Bool.and_eq_true, Bool.not_eq_true'] at here
  obtain ⟨⟨⟨untyped, ends⟩, named⟩, housed⟩ := here
  rw [plainAt, Bool.and_eq_true, Bool.and_eq_true] at plain
  exact ⟨untyped, plain.1.1, ends, named, housed⟩

/-- Most children are independent. -/
theorem Scripted.independent (h : Scripted k ns)
    (noVars : isVariables k = false)
    (noTag : (isTag k || k == .markup .member) = false) :
    ∀ n ∈ ns, isDependent n = false := by
  have housed := h.housed
  rw [housedAt, noVars, noTag] at housed
  intro n hn
  exact Bool.not_eq_true' _ ▸ List.all_eq_true.1 housed n hn

theorem independent_child (all : ∀ n ∈ ns, isDependent n = false) (i : Nat) :
    isDependent (child ns i) = false := by
  rcases child_mem_or ns i with mem | missing
  · exact all _ mem
  · rw [missing]
    rfl

/-- What the items of a sequence say is what the sequence says. -/
theorem saidAmong_items {i : Nat}
    (isList : ∀ q, ns[i]? = some q → isSequence q = true) (c : Context) :
    saidAmong m c (child ns i).children = said m c (child ns i) := by
  rw [child, List.getD_eq_getElem?_getD]
  cases there : ns[i]? with
  | none => rfl
  | some q =>
    have isSeq := isList q there
    obtain ⟨k, s, items⟩ := q
    cases eq_of_beq isSeq
    exact (outlines_toParts m c items).symm

theorem recordedAll_specifiers (specifiers : List Node) :
    recordedAll (specifiers.flatMap fun q =>
      match q.children with
      | here :: _ => declare here .imported
      | [] => []) = specified specifiers := by
  induction specifiers with
  | nil => rfl
  | cons q qs ih =>
    rw [List.flatMap_cons, recordedAll_append, ih, specified, specified,
      List.flatMap_cons]
    congr 1
    cases q.children with
    | nil => rfl
    | cons here rest => exact recordedAll_declare here .imported

/-- An import of the helper that makes sense has one specifier, with the
helper's name in front. -/
theorem specified_of_checkImport {typeOnly : Bool} {specifiers : List Node}
    {here : Node} (checked : checkImport typeOnly s specifiers = .ok here) :
    specified specifiers = doing (.declares .imported) (ownName here) := by
  have single (q : Node) (rest : List Node) (front : q.children = here ::
      rest) : specified [q] = doing (.declares .imported) (ownName here) := by
    rw [specified, List.flatMap_singleton, front]
    rfl
  unfold checkImport at checked
  split at checked
  · cases checked
  · rename_i q
    split at checked
    · rename_i default
      unfold defaultSpecifier? at default
      split at checked
      · cases checked
      · cases checked
        split at default
        · cases default
          exact single _ _ rfl
        · split at default
          · cases default
            exact single _ _ rfl
          · cases default
        · cases default
    · cases checked
  · cases checked

/-- An import declares the names of its specifiers, whatever else it says. -/
theorem recordedAll_importOutline (typeOnly : Bool) (specifiers source : Node) :
    recordedAll (importOutline m typeOnly s specifiers source) =
      specified specifiers.children := by
  unfold importOutline
  dsimp only
  split
  · split
    · rename_i here checked
      rw [specified_of_checkImport checked, ← recordedAll_declare, declare]
      cases identifier? here.kind <;> rfl
    · rw [recordedAll_malformed]
      exact recordedAll_specifiers _
  · exact recordedAll_specifiers _

/-- An export uses the values that its specifiers make visible. -/
theorem recordedAll_exportOutline (specifiers source : Node) :
    recordedAll (exportOutline specifiers source) = if source.isNone
      then specifiers.children.flatMap exportedValue else [] := by
  unfold exportOutline
  split
  · induction specifiers.children with
    | nil => rfl
    | cons q qs ih =>
      rw [List.flatMap_cons, List.flatMap_cons, recordedAll_append, ih]
      congr 1
      obtain ⟨k, t, ns⟩ := q
      cases k
      case exportSpecifier =>
        cases ns with
        | nil => rfl
        | cons here rest => exact recordedAll_refer here .read
      all_goals rfl
  · rfl

/-- Declarators leave it to the declaration around them to declare their
names. -/
theorem pendingAmong_declarators (all : ∀ n ∈ ns, isDeclarator n.kind = true) :
    pendingAmong c ns = doing (.declares c.varKind) (declaratorNames ns) := by
  rw [pendingAmong, declaratorNames, doing_flatMap]
  refine List.flatMap_congr fun n hn => ?_
  have sort := all n hn
  unfold isDeclarator at sort
  split at sort
  · rename_i b kind
    rw [pending, kind]
  · cases sort

/-- A name that is not there is no name. -/
theorem ownName_of_isNone (missing : n.isNone = true) : ownName n = [] := by
  unfold Node.isNone at missing
  split at missing
  · rfl
  · cases missing

/-- One of the first children is as all of them are, if a missing one is,
too. -/
theorem all_take_child {p : Node → Bool} {i j : Nat} (missing : p .none = true)
    (bound : i < j) (all : (ns.take j).all p = true) :
    p (child ns i) = true := by
  rw [child, List.getD_eq_getElem?_getD]
  cases there : ns[i]? with
  | none => exact missing
  | some q =>
    exact List.all_eq_true.1 all q
      (List.mem_of_getElem? ((List.getElem?_take_of_lt bound).trans there))

/-- An operand has nothing to be said about from around it, unless it is the
name of an element. -/
theorem pending_element (operand : isOperand n = true) (mode : c.mode = .read) :
    pending c n = elementValue (fun _ => false) n := by
  obtain ⟨k, s, ns⟩ := n
  cases k
  case declarator => cases operand
  case markup form =>
    cases form
    case name => rfl
    all_goals exact pending_read rfl mode
  all_goals exact pending_read rfl mode

end Counting

end NullGuard.Scope
