import NullGuard.Proofs.Occurrences
import NullGuard.Proofs.Spans

/-!
# Words that do nothing

Some identifiers of a script are neither declared nor have a value: labels, the
names that specifiers have for other programs, and the names of elements that
begin with a small letter. They are *idle*. Where identifiers have spans of
their own, no idle word shares one with an identifier that does something
(`idle_disjoint`), so none of them is recorded under another name for it.

The proof counts. A node gives a role to the names close to it, and it can do so
because no other node does: the names that are `reserved` in a node are left to
the node around it.
-/

namespace NullGuard.Scope

open NullGuard.Text (Span)
open NullGuard.Tree NullGuard.Transform

/-- The word that a node is, if it is one. -/
def word (n : Node) : List (String × Option Span) :=
  match n.kind with
  | .name x => [(x, n.span)]
  | _ => []

/-- The name of an element that stands for itself. -/
def intrinsicName (n : Node) : List (String × Option Span) :=
  match n.kind with
  | .markup (.name x) => if isIntrinsic x then [(x, n.span)] else []
  | _ => []

/-- The name that a specifier takes from another program. -/
def foreignName (n : Node) : List (String × Option Span) :=
  match n.kind with
  | .exportSpecifier _ => word (child n.children 0)
  | _ => []

/-- The identifiers close to a node that do nothing. -/
def idleAt (k : Kind) (_ : Option Span) (ns : List Node) :
    List (String × Option Span) :=
  match k with
  | .labeled | .breakStmt | .continueStmt | .exportNamespace =>
    word (child ns 0)
  | .importNamed _ | .exportSpecifier _ => word (child ns 1)
  | .exportNamed _ _ =>
    if (child ns 1).isNone then []
      else (child ns 0).children.flatMap foreignName
  | .markup (.opening _) | .markup .closing => intrinsicName (child ns 0)
  | _ => []

/-- The identifiers in a piece of a program that do nothing. -/
def idleWords (n : Node) : List (String × Option Span) :=
  gathered idleAt n

/-- Whether names in a node are left to the node around it because the node is
about names itself. -/
def isShell (k : Kind) : Bool :=
  isTargetPart k || isDeclarator k ||
    match k with
    | .importDefault | .importNamed _ | .importNamespace | .exportSpecifier _ =>
      true
    | _ => false

mutual

/-- The names in a node that the node around it says something about. -/
def reserved : Node → List (String × Option Span)
  | .node (.bindingIdent x _) s _ | .node (.name x) s _
      | .node (.markup (.name x)) s _ =>
    [(x, s)]
  | .node (.importNamed _) _ (n :: _) | .node (.exportSpecifier _) _ (n :: _) =>
    reserved n
  | .node k _ ns => if isShell k then reservedAmong ns else []

/-- The names in several nodes that the node around them says something
about. -/
def reservedAmong : List Node → List (String × Option Span)
  | [] => []
  | n :: ns => reserved n ++ reservedAmong ns

end

/-- How often a span stands beside names. -/
def tally (s : Option Span) (names : List (String × Option Span)) : Nat :=
  (names.map Prod.snd).count s

/-- How often a span stands beside identifiers that do something. -/
def active (s : Option Span) (os : List Occurrence) : Nat :=
  (os.map Occurrence.span).count s

section Tally

variable {t : Option Span} {k : Kind} {s : Option Span} {n : Node}
  {ns : List Node}

@[simp] theorem tally_append (xs ys : List (String × Option Span)) :
    tally t (xs ++ ys) = tally t xs + tally t ys := by
  rw [tally, List.map_append, List.count_append]
  rfl

@[simp] theorem active_append (os os' : List Occurrence) :
    active t (os ++ os') = active t os + active t os' := by
  rw [active, List.map_append, List.count_append]
  rfl

@[simp] theorem active_doing (role : Role)
    (names : List (String × Option Span)) :
    active t (doing role names) = tally t names := by
  rw [active, doing, List.map_map]
  rfl

theorem tally_flatMap_le {f g : Node → List (String × Option Span)}
    (each : ∀ n ∈ ns, tally t (f n) ≤ tally t (g n)) :
    tally t (ns.flatMap f) ≤ tally t (ns.flatMap g) := by
  induction ns with
  | nil => exact Nat.le_refl _
  | cons n ns ih =>
    rw [List.flatMap_cons, List.flatMap_cons, tally_append, tally_append]
    exact Nat.add_le_add (each n List.mem_cons_self)
      (ih fun n hn => each n (List.mem_cons_of_mem _ hn))

theorem reservedAmong_eq (ns : List Node) :
    reservedAmong ns = ns.flatMap reserved := by
  induction ns with
  | nil => rfl
  | cons n ns ih => rw [reservedAmong, ih, List.flatMap_cons]

/-- What is reserved in a child is reserved in the children. -/
theorem tally_reserved_drop (ns : List Node) (i : Nat) :
    tally t (reservedAmong (ns.drop i)) = tally t (reserved (child ns i)) +
      tally t (reservedAmong (ns.drop (i + 1))) := by
  rw [reservedAmong_eq, reservedAmong_eq, tally, tally, tally, List.map_flatMap,
    List.map_flatMap]
  exact count_flatMap_drop (f := fun n => (reserved n).map Prod.snd) rfl t ns i

theorem tally_reserved_child (ns : List Node) (i : Nat) :
    tally t (reserved (child ns i)) ≤ tally t (reservedAmong ns) := by
  induction ns generalizing i with
  | nil => exact Nat.zero_le _
  | cons n ns ih =>
    rw [reservedAmong, tally_append]
    cases i with
    | zero => exact Nat.le_add_right _ _
    | succ i => exact Nat.le_trans (ih i) (Nat.le_add_left _ _)

/-- The names of a pattern are left to the node around it. -/
theorem tally_targets_le (n : Node) :
    tally t (targets n) ≤ tally t (reserved n) := by
  induction n using Node.induct with
  | step k s ns ih =>
    by_cases binds : ∃ x b, k = .bindingIdent x b
    · obtain ⟨x, b, rfl⟩ := binds
      exact Nat.le_refl _
    · have other : ∀ x b, k ≠ .bindingIdent x b :=
        fun x b same => binds ⟨x, b, same⟩
      cases isPart : isTargetPart k with
      | false =>
        have noNames : targets (.node k s ns) = [] := targets_eq_nil isPart
        rw [noNames]
        exact Nat.zero_le _
      | true =>
        have shell : reserved (.node k s ns) = reservedAmong ns := by
          cases k
          case bindingIdent x b => exact absurd rfl (other x b)
          all_goals first
            | rfl
            | cases isPart
        rw [targets_of_isTargetPart isPart other, shell, targetsAmong_eq,
          reservedAmong_eq]
        exact tally_flatMap_le ih

theorem tally_word_le (n : Node) : tally t (word n) ≤ tally t (reserved n) := by
  obtain ⟨k, s, ns⟩ := n
  unfold word
  split
  · rename_i x isName
    cases isName
    exact Nat.le_refl _
  · exact Nat.zero_le _

/-- A plain word is left to the node around it. -/
theorem tally_ownName_le (plain : isWord n = true ∨ isInert n = true) :
    tally t (ownName n) ≤ tally t (reserved n) := by
  have same : ownName n = word n := by
    obtain ⟨k, s, ns⟩ := n
    have sort : isSpecifierPart k = true := by
      rcases plain with isWord | inert
      · unfold Scope.isWord at isWord
        split at isWord
        · rename_i x isName
          cases isName
          rfl
        · unfold isMissing at isWord
          split at isWord
          · rename_i missing
            cases missing
            rfl
          · cases isWord
      · exact List.all_eq_true.1 inert _ List.mem_cons_self
    cases k
    all_goals first
      | rfl
      | cases sort
  rw [same]
  exact tally_word_le n

/-- The name of an element is left to the tag around it. -/
theorem tally_element_le (n : Node) :
    active t (elementValue isIntrinsic n) + tally t (intrinsicName n) ≤
      tally t (reserved n) := by
  cases element : isElementName n.kind with
  | true =>
    obtain ⟨k, s, ns⟩ := n
    unfold isElementName at element
    split at element
    · rename_i x isName
      cases isName
      have value : elementValue isIntrinsic (.node (.markup (.name x)) s ns) =
          if isIntrinsic x then [] else doing .value [(x, s)] := rfl
      have itself : intrinsicName (.node (.markup (.name x)) s ns) =
          if isIntrinsic x then [(x, s)] else [] := rfl
      have left : reserved (.node (.markup (.name x)) s ns) = [(x, s)] := rfl
      rw [value, itself, left]
      cases isIntrinsic x with
      | true => exact Nat.le_of_eq (Nat.zero_add _)
      | false => exact Nat.le_refl _
    · cases element
  | false =>
    have value : elementValue isIntrinsic n = [] := by
      unfold elementValue
      split
      · rename_i x isName
        rw [isName] at element
        cases element
      · rfl
    have itself : intrinsicName n = [] := by
      unfold intrinsicName
      split
      · rename_i x isName
        rw [isName] at element
        cases element
      · rfl
    rw [value, itself]
    exact Nat.zero_le _

theorem tally_memberName_le (n : Node) :
    active t (elementValue (fun _ => false) n) ≤ tally t (reserved n) := by
  obtain ⟨k, s, ns⟩ := n
  unfold elementValue
  rw [Node.kind_node]
  split
  · exact Nat.le_refl _
  · exact Nat.zero_le _

/-- The names that declarators declare are left to the declaration around
them. -/
theorem tally_declarators_le
    (declarators : ∀ d ∈ ns, isDeclarator d.kind = true) :
    tally t (declaratorNames ns) ≤ tally t (reservedAmong ns) := by
  rw [declaratorNames, reservedAmong_eq]
  refine tally_flatMap_le fun d hd => ?_
  have sort := declarators d hd
  obtain ⟨k, s, parts⟩ := d
  cases k
  case declarator b =>
    exact Nat.le_trans (tally_targets_le (child parts 0))
      (tally_reserved_child parts 0)
  all_goals cases sort

/-- The first word of an inert node is left to the nodes around it. -/
theorem tally_front_le (inert : isInert n = true) :
    tally t (ownName (child n.children 0)) ≤
      tally t (reserved (child n.children 0)) := by
  refine tally_ownName_le (.inr ?_)
  obtain ⟨k, s, ns⟩ := n
  rcases child_mem_or ns 0 with mem | none
  · refine List.all_eq_true.2 fun q hq => List.all_eq_true.1 inert q ?_
    exact mem_subnodes.2 (.inside mem (mem_subnodes.1 hq))
  · rw [Node.children_node, none]
    rfl

theorem isInert_child (inert : isInert (.node k s ns) = true) (hn : n ∈ ns) :
    isInert n = true :=
  List.all_eq_true.2 fun q hq => List.all_eq_true.1 inert q
    (mem_subnodes.2 (.inside hn (mem_subnodes.1 hq)))

/-- The names that the specifiers of an import declare are left to
the import. -/
theorem tally_specified_le (isList : isSequence n = true)
    (items : n.children.all isImportSpecifier = true)
    (inert : isInert n = true) :
    active t (specified n.children) ≤ tally t (reserved n) := by
  obtain ⟨k, s, ns⟩ := n
  cases eq_of_beq isList
  have names : active t (specified ns) =
      tally t (ns.flatMap fun q => ownName (child q.children 0)) := by
    rw [specified, ← doing_flatMap, active_doing]
  have whole : reserved (.node .list s ns) = ns.flatMap reserved :=
    reservedAmong_eq ns
  rw [Node.children_node, names, whole]
  refine tally_flatMap_le fun q hq => Nat.le_trans
    (tally_front_le (isInert_child inert hq)) ?_
  have sort := List.all_eq_true.1 items q hq
  obtain ⟨k, s, parts⟩ := q
  cases k
  case importDefault | importNamespace => exact tally_reserved_child parts 0
  case importNamed =>
    cases parts with
    | nil => exact Nat.le_refl _
    | cons n rest => exact Nat.le_refl _
  all_goals cases sort

/-- The names in the specifiers of an export are left to the export. -/
theorem tally_exported_le (isList : isSequence n = true)
    (inert : isInert n = true) :
    active t (n.children.flatMap exportedValue) ≤ tally t (reserved n) ∧
      tally t (n.children.flatMap foreignName) ≤ tally t (reserved n) := by
  obtain ⟨k, s, ns⟩ := n
  cases eq_of_beq isList
  have whole : reserved (.node .list s ns) = ns.flatMap reserved :=
    reservedAmong_eq ns
  have names : active t (ns.flatMap exportedValue) =
    tally t (ns.flatMap fun q => match q.kind with
      | .exportSpecifier _ => ownName (child q.children 0)
      | _ => []) := by
    rw [← active_doing .value, doing_flatMap]
    congr 1
    refine List.flatMap_congr fun q _ => ?_
    obtain ⟨k, s, parts⟩ := q
    cases k <;> rfl
  rw [Node.children_node, names, whole]
  constructor
  · refine tally_flatMap_le fun q hq => ?_
    have front := tally_front_le (t := t) (isInert_child inert hq)
    obtain ⟨k, s, parts⟩ := q
    cases k
    case exportSpecifier =>
      cases parts with
      | nil => exact front
      | cons n rest => exact front
    all_goals exact Nat.zero_le _
  · refine tally_flatMap_le fun q hq => ?_
    have front := tally_word_le (t := t) (child q.children 0)
    obtain ⟨k, s, parts⟩ := q
    cases k
    case exportSpecifier =>
      cases parts with
      | nil => exact front
      | cons n rest => exact front
    all_goals exact Nat.zero_le _

/-- **What a node says about the names close to it** it says about names that
are left to it, or about itself. -/
theorem tally_node (script : isScript (.node k s ns) = true)
    (isRegular : regular (.node k s ns) = true) :
    active t (given k s ns) + tally t (idleAt k s ns) + tally t (reserved
      (.node k s ns)) ≤ tally t ((identifier? k).toList.map fun x => (x, s)) +
      tally t (reservedAmong ns) := by
  have here := scripted_of_isScript script
  have below := (isScript_node.1 script).2
  have parts := (regular_node.1 isRegular).1
  have sorted := here.sorted
  have named := here.named
  have names (i : Nat) := tally_targets_le (t := t) (child ns i)
  have first : tally t (reservedAmong ns) = tally t (reserved (child ns 0)) +
      tally t (reservedAmong (ns.drop 1)) :=
    tally_reserved_drop ns 0
  have second : tally t (reservedAmong (ns.drop 1)) =
      tally t (reserved (child ns 1)) + tally t (reservedAmong (ns.drop 2)) :=
    tally_reserved_drop ns 1
  have third : tally t (reservedAmong (ns.drop 2)) =
      tally t (reserved (child ns 2)) + tally t (reservedAmong (ns.drop 3)) :=
    tally_reserved_drop ns 2
  have inert (all : (ns.take 2).all isInert = true) :
      isInert (child ns 0) = true := all_take_child rfl (by omega) all
  cases k
  case importDecl =>
    change active t (specified (child ns 0).children) + 0 + 0 ≤ 0 + _
    rw [sortedAt] at sorted
    cases ns with
    | nil => exact Nat.zero_le _
    | cons n rest =>
      simp only [regularParts, List.take_succ_cons, List.take_zero,
        List.all_cons, List.all_nil, Bool.and_true, Bool.and_eq_true] at parts
      have specifiers : active t (specified n.children) ≤
          tally t (reserved n) :=
        tally_specified_le parts.1 parts.2 (inert sorted)
      rw [reservedAmong, tally_append]
      exact Nat.le_trans specifiers
        (Nat.le_trans (Nat.le_add_right _ _) (Nat.le_add_left _ _))
  case exportNamed =>
    change active t (if (child ns 1).isNone then (child ns 0).children.flatMap
      exportedValue else []) + tally t (if (child ns 1).isNone then []
      else (child ns 0).children.flatMap foreignName) + 0 ≤ 0 + _
    rw [sortedAt] at sorted
    have specifiers : active t ((child ns 0).children.flatMap exportedValue) ≤
        tally t (reserved (child ns 0)) ∧
        tally t ((child ns 0).children.flatMap foreignName) ≤
        tally t (reserved (child ns 0)) := by
      cases ns with
      | nil => exact ⟨Nat.zero_le _, Nat.zero_le _⟩
      | cons n rest =>
        exact tally_exported_le (List.all_eq_true.1 parts n List.mem_cons_self)
          (inert sorted)
    have nothing : active t [] = 0 ∧ tally t [] = 0 := ⟨rfl, rfl⟩
    split <;> omega
  case varDecl =>
    have declared := tally_declarators_le (t := t) (List.all_eq_true.1 sorted)
    change active t (doing _ (declaratorNames ns)) + 0 + 0 ≤ 0 + _
    rw [active_doing]
    omega
  case usingDecl =>
    have declared := tally_declarators_le (t := t) (List.all_eq_true.1 named)
    change active t (doing _ (declaratorNames ns)) + 0 + 0 ≤ 0 + _
    rw [active_doing]
    omega
  case importNamed | exportSpecifier =>
    have outside := tally_word_le (t := t) (child ns 1)
    cases ns with
    | nil => exact Nat.zero_le _
    | cons n rest =>
      have own : reserved (child (n :: rest) 0) = reserved n := rfl
      change 0 + tally t (word (child (n :: rest) 1)) +
        tally t (reserved n) ≤ 0 + _
      rw [own] at first
      omega
  case ident | shorthand => exact Nat.le_add_right _ _
  case name | bindingIdent =>
    change 0 + 0 + tally t [(_, s)] ≤ tally t [(_, s)] + _
    omega
  case assign | function | arrow | catchClause =>
    have target := names 0
    change active t (doing _ (targets (child ns 0))) + 0 + 0 ≤ 0 + _
    rw [active_doing]
    omega
  case forIn | forOf =>
    have target := names 0
    change active t (if isVariables (child ns 0).kind then []
      else doing .value (targets (child ns 0))) + 0 + 0 ≤ 0 + _
    split
    · exact Nat.zero_le _
    · rw [active_doing]
      omega
  case constructor =>
    have target := names 1
    change active t (doing _ (targets (child ns 1))) + 0 + 0 ≤ 0 + _
    rw [active_doing]
    omega
  case setterProp =>
    have this := names 1
    have parameter := names 2
    change active t (doing _ (targets (child ns 1) ++ targets (child ns 2))) +
      0 + 0 ≤ 0 + _
    rw [active_doing, tally_append]
    omega
  case fnDecl | classDecl | fnExpr | classExpr =>
    have name : tally t (ownName (child ns 0)) ≤
        tally t (reserved (child ns 0)) := tally_ownName_le (.inl named)
    change active t (doing _ (ownName (child ns 0))) + 0 + 0 ≤ 0 + _
    rw [active_doing]
    omega
  case labeled | breakStmt | continueStmt | exportNamespace =>
    have label := tally_word_le (t := t) (child ns 0)
    change 0 + tally t (word (child ns 0)) + 0 ≤ 0 + _
    omega
  case markup form =>
    have element := tally_element_le (t := t) (child ns 0)
    have object := tally_memberName_le (t := t) (child ns 0)
    cases form
    case name =>
      change 0 + 0 + tally t [(_, s)] ≤ tally t [(_, s)] + _
      omega
    case opening | closing =>
      change active t (elementValue isIntrinsic (child ns 0)) +
        tally t (intrinsicName (child ns 0)) + 0 ≤ 0 + _
      omega
    case member =>
      change active t (elementValue (fun _ => false) (child ns 0)) +
        0 + 0 ≤ 0 + _
      omega
    all_goals exact Nat.zero_le _
  case list | param | arrayPat | objectPat | restPat | assignPat | keyValuePat
    | shorthandPat | exprPat | declarator
    | importDefault | importNamespace =>
    change 0 + 0 + tally t (reservedAmong ns) ≤ 0 + tally t (reservedAmong ns)
    omega
  all_goals exact Nat.zero_le _

theorem tally_among_le
    (each : ∀ n ∈ ns, active t (occurrences n) + tally t (idleWords n) +
      tally t (reserved n) ≤ times t [n]) :
    active t (occurrencesAmong ns) + tally t (ns.flatMap idleWords) +
      tally t (reservedAmong ns) ≤ times t ns := by
  induction ns with
  | nil => exact Nat.le_refl _
  | cons n ns ih =>
    have first := each n List.mem_cons_self
    have rest := ih fun n' hn' => each n' (List.mem_cons_of_mem _ hn')
    rw [occurrencesAmong] at rest
    rw [occurrencesAmong, List.flatMap_cons, List.flatMap_cons, reservedAmong,
      active_append, tally_append, tally_append, times_cons]
    omega

/-- **Every identifier of a script does something, or is idle, or is left to the
node around, but only one of these.** -/
theorem tally_le (script : isScript n = true) (isRegular : regular n = true) :
    active t (occurrences n) + tally t (idleWords n) + tally t (reserved n) ≤
      times t [n] := by
  induction n using Node.induct with
  | step k s ns ih =>
    have among := tally_among_le fun n hn =>
      ih n hn ((isScript_node.1 script).2 n hn) (regular_child isRegular hn)
    have own := tally_node (t := t) script isRegular
    have whole : times t [.node k s ns] =
        tally t ((identifier? k).toList.map fun x => (x, s)) + times t ns := by
      cases isName : identifier? k with
      | none => rw [times_node isName]; exact (Nat.zero_add _).symm
      | some x => exact times_identifier isName
    have idle : idleWords (.node k s ns) = idleAt k s ns ++
        ns.flatMap idleWords := gathered_node idleAt
    rw [occurrences_node, active_append, idle, tally_append, whole]
    omega

/-- **No idle word is an identifier that does something**, where identifiers
have spans of their own. -/
theorem idle_disjoint (script : isScript n = true)
    (isRegular : regular n = true) (distinct : (spans n).Nodup)
    {w : String × Option Span} (idle : w ∈ idleWords n) :
    w.2 ∉ (occurrences n).map Occurrence.span := by
  intro acts
  have once : times w.2 [n] ≤ 1 := by
    rw [times, spansAmong_single]
    exact List.nodup_iff_count_le_one.1 distinct w.2
  have whole := tally_le (t := w.2) script isRegular
  have isIdle : 0 < tally w.2 (idleWords n) :=
    List.count_pos_iff.2 (List.mem_map_of_mem idle)
  have isActive : 0 < active w.2 (occurrences n) := List.count_pos_iff.2 acts
  omega

end Tally

end NullGuard.Scope
