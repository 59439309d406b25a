import NullGuard.Proofs.Decomposition
import NullGuard.Proofs.Rewrites

/-!
# Where a name is, as the pieces of a program move

A rewrite puts the pieces of a program together anew. For one name `t` this
module follows where it stands. There are three states of a node:

* the name does not occur in it (`Clear`);
* the name is only used in it, as the base of a member, a call, an assignment or
  a conditional (`Held`), so that it still has to be declared somewhere further
  out;
* the name occurs in one home only (`Housed`), of which at most one of several
  nodes has one (`Placed`).

Each state is kept where the children of a rewritten node are tidied up
(`Trims`), and where the pieces of a helper call become an expression.
-/

namespace NullGuard.Transform

open NullGuard.Text (Span)
open NullGuard.Tree NullGuard.Chain NullGuard.Scope

/-- An identifier of a certain name. -/
def named (t : String) (p : String × Option Span) : Prop :=
  p.1 = t

/-- Whether the children of a node may be temporaries. -/
def usesChild : Kind → Bool
  | .cond | .assign _ | .member | .call => true
  | _ => false

/-- A name stands in a node only as an expression, and in the places of
temporaries. -/
def OnlyUsed (t : String) (n : Node) : Prop :=
  ∀ m, Occurs m n → (identifier? m.kind = some t → m.kind = .ident t) ∧
    ∀ c ∈ m.children, identifier? c.kind = some t → usesChild m.kind = true

/-- A name is only used inside of a node. -/
structure Held (t : String) (n : Node) : Prop where
  used : OnlyUsed t n
  other : Other (named t) n

section Held

variable {t : String} {k : Kind} {s : Option Span} {ns : List Node}

theorem clear_node : Clear (named t) (.node k s ns) ↔
    identifier? k ≠ some t ∧ ∀ n ∈ ns, Clear (named t) n := by
  constructor
  · intro h
    exact ⟨fun isName => h (t, s) (mem_mentions.2 (.inl ⟨isName, rfl⟩)) rfl,
      fun n hn => h.child hn⟩
  · rintro ⟨own, below⟩ ⟨x, s'⟩ hp rfl
    rcases mem_mentions.1 hp with ⟨isName, -⟩ | ⟨n, hn, inside⟩
    · exact own isName
    · exact below n hn _ inside rfl

theorem OnlyUsed.of_occurs {n n' : Node} (h : OnlyUsed t n')
    (occurs : Occurs n n') : OnlyUsed t n :=
  fun m hm => h m (hm.trans occurs)

theorem onlyUsed_node (own : identifier? k = some t → k = .ident t)
    (below : ∀ n ∈ ns, OnlyUsed t n)
    (placed : ∀ n ∈ ns, identifier? n.kind = some t → usesChild k = true) :
    OnlyUsed t (.node k s ns) := by
  intro m hm
  cases hm with
  | here => exact ⟨own, placed⟩
  | inside hc inC => exact below _ hc m inC

theorem other_iff {n : Node} :
    Other (named t) n ↔ identifier? n.kind ≠ some t := by
  constructor
  · exact fun h isName => h t isName rfl
  · rintro h x isName same
    cases same
    exact h isName

theorem onlyUsed_of_clear {n : Node} (h : Clear (named t) n) :
    OnlyUsed t n := by
  intro m hm
  have clear : Clear (named t) m := fun p hp => h p (hm.mentions hp)
  exact ⟨fun isName => absurd isName (other_iff.1 clear.other),
    fun c hc isName => absurd isName (other_iff.1 (clear.child hc).other)⟩

theorem held_of_clear {n : Node} (h : Clear (named t) n) : Held t n :=
  ⟨onlyUsed_of_clear h, h.other⟩

theorem held_node (own : identifier? k ≠ some t) (below : ∀ n ∈ ns, Held t n) :
    Held t (.node k s ns) :=
  ⟨onlyUsed_node (fun isName => absurd isName own)
    (fun n hn => (below n hn).used) fun n hn isName => absurd isName
    (other_iff.1 (below n hn).other), other_iff.2 own⟩

/-- Only the nodes that use temporaries have them as children. -/
theorem OnlyUsed.child {n c : Node} (h : OnlyUsed t n)
    (no : usesChild n.kind = false) (hc : c ∈ n.children) : Held t c := by
  refine ⟨h.of_occurs ?_, other_iff.2 fun isName => ?_⟩
  · obtain ⟨k, s, ns⟩ := n
    exact .inside hc .here
  · cases ((h n .here).2 c hc isName).symm.trans no

/-- A node in parentheses is held as they are. -/
theorem held_of_paren {inner : Node} (h : Held t (.node .paren s [inner])) :
    Held t inner :=
  h.used.child rfl List.mem_cons_self

end Held

/-- Where the body of a node stands that holds the variables declared in it. -/
def bodyIndex : Kind → Option Nat
  | .staticBlock => some 0
  | .arrow _ => some 1
  | .function _ _ | .constructor _ | .getterProp => some 2
  | .setterProp => some 3
  | _ => none

/-- Nowhere in several nodes does a name occur. -/
def AllClear (t : String) (ns : List Node) : Prop :=
  ∀ n ∈ ns, Clear (named t) n

/-- A name occurs in several nodes within one home, or not at all. -/
inductive Placed (t : String) (Home : Node → Prop) : List Node → Prop where
  | nowhere {ns : List Node} (clear : AllClear t ns) : Placed t Home ns
  | here {n : Node} {ns : List Node} (housed : Housed (named t) Home n)
      (clear : AllClear t ns) : Placed t Home (n :: ns)
  | behind {n : Node} {ns : List Node} (clear : Clear (named t) n)
      (placed : Placed t Home ns) : Placed t Home (n :: ns)

namespace Placed

variable {t : String} {Home : Node → Prop} {k : Kind} {s : Option Span}
  {n : Node} {ns ms : List Node}

theorem cons_iff :
    Placed t Home (n :: ns) ↔ (Housed (named t) Home n ∧ AllClear t ns) ∨
      (Clear (named t) n ∧ Placed t Home ns) := by
  constructor
  · intro h
    cases h with
    | nowhere clear =>
      exact .inr ⟨clear n List.mem_cons_self,
        .nowhere fun m hm => clear m (List.mem_cons_of_mem _ hm)⟩
    | here housed clear => exact .inl ⟨housed, clear⟩
    | behind clear placed => exact .inr ⟨clear, placed⟩
  · rintro (⟨housed, clear⟩ | ⟨clear, placed⟩)
    · exact .here housed clear
    · exact .behind clear placed

theorem append_iff :
    Placed t Home (ns ++ ms) ↔ (Placed t Home ns ∧ AllClear t ms) ∨
      (AllClear t ns ∧ Placed t Home ms) := by
  induction ns with
  | nil =>
    refine ⟨fun h => .inr ⟨nofun, h⟩, ?_⟩
    rintro (⟨-, clear⟩ | ⟨-, placed⟩)
    · exact .nowhere clear
    · exact placed
  | cons n ns ih =>
    rw [List.cons_append, cons_iff, cons_iff, ih]
    simp only [AllClear, List.forall_mem_append, List.forall_mem_cons]
    constructor
    · rintro (⟨housed, clear, clear'⟩ | ⟨clear,
        ⟨placed, clear'⟩ | ⟨clear', placed⟩⟩)
      · exact .inl ⟨.inl ⟨housed, clear⟩, clear'⟩
      · exact .inl ⟨.inr ⟨clear, placed⟩, clear'⟩
      · exact .inr ⟨⟨clear, clear'⟩, placed⟩
    · rintro (⟨⟨housed, clear⟩ | ⟨clear, placed⟩,
        clear'⟩ | ⟨⟨clear, clear'⟩, placed⟩)
      · exact .inl ⟨housed, clear, clear'⟩
      · exact .inr ⟨clear, .inl ⟨placed, clear'⟩⟩
      · exact .inr ⟨clear, .inr ⟨clear', placed⟩⟩

theorem single (h : Placed t Home [n]) :
    Housed (named t) Home n ∨ Clear (named t) n := by
  rcases cons_iff.1 h with ⟨housed, -⟩ | ⟨clear, -⟩
  · exact .inl housed
  · exact .inr clear

/-- Where several nodes become the children of one, the name is where it was. -/
theorem node (own : identifier? k ≠ some t) (h : Placed t Home ns) :
    Placed t Home [.node k s ns] := by
  have split : ∀ before, AllClear t before →
      Placed t Home [.node k s (before ++ ns)] := by
    induction h with
    | @nowhere ns clear =>
      intro before clearBefore
      refine .nowhere fun m hm => ?_
      cases List.mem_singleton.1 hm
      exact clear_node.2 ⟨own, List.forall_mem_append.2 ⟨clearBefore, clear⟩⟩
    | here housed clear =>
      exact fun before clearBefore =>
        .here (.inside (other_iff.2 own) clearBefore clear housed) nofun
    | @behind n ns clear placed ih =>
      intro before clearBefore
      rw [List.append_cons]
      exact ih (before ++ [n]) (List.forall_mem_append.2
        ⟨clearBefore, List.forall_mem_singleton.2 clear⟩)
  exact split [] nofun

/-- A node that is no home has the name in one of its children. -/
theorem children (h : Placed t Home [.node k s ns])
    (noHome : ¬ Home (.node k s ns)) : Placed t Home ns := by
  rcases h.single with housed | clear
  · cases housed with
    | home _ home => exact absurd home noHome
    | @inside _ _ before after n _ clearBefore clearAfter within =>
      exact append_iff.2 (.inr ⟨clearBefore, .here within clearAfter⟩)
  · exact .nowhere (clear_node.1 clear).2

/-- The first of several nodes become the children of one. -/
theorem wrap (ns : List Node) (own : identifier? k ≠ some t)
    (h : Placed t Home (ns ++ ms)) :
    Placed t Home (.node k s ns :: ms) := by
  rcases append_iff.1 h with ⟨placed, clear⟩ | ⟨clear, placed⟩
  · rcases (placed.node (s := s) own).single with housed | clear'
    · exact .here housed clear
    · exact .behind clear' (.nowhere clear)
  · exact .behind (clear_node.2 ⟨own, clear⟩) placed

theorem append_clear (h : Placed t Home ns) (clear : AllClear t ms) :
    Placed t Home (ns ++ ms) :=
  append_iff.2 (.inl ⟨h, clear⟩)

theorem tail (h : Placed t Home (n :: ns)) : Placed t Home ns := by
  rcases cons_iff.1 h with ⟨-, clear⟩ | ⟨-, placed⟩
  · exact .nowhere clear
  · exact placed

theorem head (h : Placed t Home (n :: ns)) : Placed t Home [n] := by
  rcases cons_iff.1 h with ⟨housed, -⟩ | ⟨clear, -⟩
  · exact .here housed nofun
  · exact .nowhere (List.forall_mem_singleton.2 clear)

/-- Two nodes that were made of some nodes each. -/
theorem both {as bs : List Node} {a b : Node} (h : Placed t Home (as ++ bs))
    (left : Placed t Home as → Placed t Home [a])
    (right : Placed t Home bs → Placed t Home [b])
    (clearLeft : AllClear t as → Clear (named t) a)
    (clearRight : AllClear t bs → Clear (named t) b) :
    Placed t Home [a, b] := by
  change Placed t Home ([a] ++ [b])
  rw [append_iff]
  rcases append_iff.1 h with ⟨placed, clear⟩ | ⟨clear, placed⟩
  · exact .inl ⟨left placed, List.forall_mem_singleton.2 (clearRight clear)⟩
  · exact .inr ⟨List.forall_mem_singleton.2 (clearLeft clear), right placed⟩

end Placed

/-- **How the children of a rewritten node are tidied up**: some are dropped or
left empty, and parentheses made for an expression are taken off. -/
inductive Trims : List Node → List Node → Prop where
  | nil : Trims [] []
  | keep (n : Node) {ns ms : List Node} (rest : Trims ns ms) :
      Trims (n :: ns) (n :: ms)
  | drop (n : Node) {ns ms : List Node} (rest : Trims ns ms) :
      Trims (n :: ns) ms
  | gone (n : Node) {k : Kind} {ns ms : List Node}
      (empty : k = .absent ∨ k = .empty) (rest : Trims ns ms) :
      Trims (n :: ns) (.node k none [] :: ms)
  | unwrap (inner : Node) {ns ms : List Node} (rest : Trims ns ms) :
      Trims (.node .paren none [inner] :: ns) (inner :: ms)
  | within {k : Kind} {s : Option Span} {ns ms ns' ms' : List Node}
      (wraps : k = .spread ∨ k = .list) (inside : Trims ns ms)
      (rest : Trims ns' ms') :
      Trims (.node k s ns :: ns') (.node k s ms :: ms')
  | trans {ns ms ls : List Node} (first : Trims ns ms) (second : Trims ms ls) :
      Trims ns ls

/-- A way to tidy up one of several nodes. -/
def Trimming (f : Node → Node) : Prop :=
  ∀ n {ns ms : List Node}, Trims ns ms → Trims (n :: ns) (f n :: ms)

namespace Trims

variable {ns ms : List Node}

theorem refl (ns : List Node) : Trims ns ns := by
  induction ns with
  | nil => exact .nil
  | cons n ns ih => exact .keep n ih

theorem map {f : Node → Node} (each : Trimming f) (ns : List Node) :
    Trims ns (ns.map f) := by
  induction ns with
  | nil => exact .nil
  | cons n ns ih => exact each n ih

theorem modify {f : Node → Node} (each : Trimming f) (i : Nat)
    (ns : List Node) : Trims ns (ns.modify i f) := by
  induction ns generalizing i with
  | nil =>
    rw [List.modify_nil]
    exact .nil
  | cons n ns ih =>
    cases i with
    | zero =>
      rw [List.modify_zero_cons]
      exact each n (.refl ns)
    | succ i =>
      rw [List.modify_succ_cons]
      exact .keep n (ih i)

theorem filter (p : Node → Bool) (ns : List Node) : Trims ns (ns.filter p) := by
  induction ns with
  | nil => exact .nil
  | cons n ns ih =>
    rw [List.filter_cons]
    split
    · exact .keep n ih
    · exact .drop n ih

end Trims

theorem trimming_unwrap : Trimming unwrap := by
  intro n ns ms rest
  unfold unwrap
  split
  · exact .unwrap _ rest
  · exact .keep _ rest

theorem trimming_unwrapConditional : Trimming unwrapConditional := by
  intro n ns ms rest
  unfold unwrapConditional
  split
  · exact .unwrap _ rest
  · exact .keep _ rest

theorem trimming_unwrapItem : Trimming unwrapItem := by
  intro n ns ms rest
  unfold unwrapItem
  split
  · exact .within (.inl rfl) (trimming_unwrap _ .nil) rest
  · exact trimming_unwrap _ rest

theorem trimming_mapItems {f : Node → Node} (each : Trimming f) :
    Trimming (mapItems f) := by
  intro n ns ms rest
  unfold mapItems
  split
  · exact .within (.inr rfl) (.map each _) rest
  · exact .keep _ rest

theorem trimming_loneStatement : Trimming loneStatement := by
  intro n ns ms rest
  unfold loneStatement
  split
  · exact .gone _ (.inr rfl) rest
  · exact .keep _ rest

theorem trimming_loopStart : Trimming loopStart := by
  intro n ns ms rest
  unfold loopStart
  split
  · exact .gone _ (.inl rfl) rest
  · exact .keep _ rest

/-- **The children of a rewritten node are only tidied up.** -/
theorem trims_finish (removals : List (Option Span)) (k : Kind)
    (ns : List Node) :
    Trims ns (finish removals k ns) := by
  cases k
  case block | moduleBlock => exact .filter _ ns
  case exprStmt => exact .modify trimming_unwrapConditional 0 ns
  case assign | declarator | keyValue | assignPat =>
    exact .modify trimming_unwrap 1 ns
  case property =>
    simp only [finish, tidy]
    split
    · exact .refl _
    · exact .modify trimming_unwrap 1 ns
  case returnStmt | throwStmt | computed | paren =>
    exact .modify trimming_unwrap 0 ns
  case markup form =>
    cases form
    case container => exact .modify trimming_unwrap 0 ns
    all_goals exact .refl ns
  case array => exact .map trimming_unwrapItem ns
  case call | new | optCall =>
    exact .modify (trimming_mapItems trimming_unwrapItem) 1 ns
  case cond =>
    exact .trans (.modify trimming_unwrap 1 ns) (.modify trimming_unwrap 2 _)
  case seq | template => exact .map trimming_unwrap ns
  case varDecl => exact .filter _ ns
  case ifStmt =>
    exact .trans (.modify trimming_loneStatement 1 ns)
      (.modify trimming_loneStatement 2 _)
  case labeled | whileStmt | doWhile | withStmt =>
    exact .modify trimming_loneStatement 1 ns
  case forStmt =>
    exact .trans (.modify trimming_loopStart 0 ns)
      (.modify trimming_loneStatement 3 _)
  case forIn | forOf => exact .modify trimming_loneStatement 2 ns
  all_goals exact .refl ns

namespace Trims

variable {t : String} {Home : Node → Prop} {ns ms : List Node}

theorem clear (h : Trims ns ms) (clear : AllClear t ns) : AllClear t ms := by
  induction h with
  | nil => exact clear
  | keep n rest ih =>
    exact List.forall_mem_cons.2 ⟨clear n List.mem_cons_self,
      ih fun m hm => clear m (List.mem_cons_of_mem _ hm)⟩
  | drop n rest ih => exact ih fun m hm => clear m (List.mem_cons_of_mem _ hm)
  | gone n empty rest ih =>
    refine List.forall_mem_cons.2 ⟨clear_node.2 ⟨?_, nofun⟩,
      ih fun m hm => clear m (List.mem_cons_of_mem _ hm)⟩
    rcases empty with rfl | rfl <;> nofun
  | unwrap inner rest ih =>
    exact List.forall_mem_cons.2 ⟨(clear _ List.mem_cons_self).child
      List.mem_cons_self, ih fun m hm => clear m (List.mem_cons_of_mem _ hm)⟩
  | within wraps inside rest ih ih' =>
    obtain ⟨own, below⟩ := clear_node.1 (clear _ List.mem_cons_self)
    exact List.forall_mem_cons.2 ⟨clear_node.2 ⟨own, ih below⟩,
      ih' fun m hm => clear m (List.mem_cons_of_mem _ hm)⟩
  | trans _ _ ih ih' => exact ih' (ih clear)

theorem held (h : Trims ns ms) (held : ∀ n ∈ ns, Held t n) :
    ∀ n ∈ ms, Held t n := by
  induction h with
  | nil => exact held
  | keep n rest ih =>
    exact List.forall_mem_cons.2 ⟨held n List.mem_cons_self,
      ih fun m hm => held m (List.mem_cons_of_mem _ hm)⟩
  | drop n rest ih => exact ih fun m hm => held m (List.mem_cons_of_mem _ hm)
  | gone n empty rest ih =>
    refine List.forall_mem_cons.2 ⟨held_node ?_ nofun,
      ih fun m hm => held m (List.mem_cons_of_mem _ hm)⟩
    rcases empty with rfl | rfl <;> nofun
  | unwrap inner rest ih =>
    exact List.forall_mem_cons.2 ⟨held_of_paren (held _ List.mem_cons_self),
      ih fun m hm => held m (List.mem_cons_of_mem _ hm)⟩
  | @within k s ns ms ns' ms' wraps inside rest ih ih' =>
    have whole := held _ List.mem_cons_self
    have no : usesChild k = false := by rcases wraps with rfl | rfl <;> rfl
    exact List.forall_mem_cons.2 ⟨held_node (other_iff.1 whole.other)
      (ih fun n hn => whole.used.child no hn),
      ih' fun m hm => held m (List.mem_cons_of_mem _ hm)⟩
  | trans _ _ ih ih' => exact ih' (ih held)

/-- Where homes are nodes that are not tidied away, a name stays in its home. -/
theorem placed (h : Trims ns ms)
    (noHome : ∀ k s ns, bodyIndex k = none → ¬ Home (.node k s ns))
    (placed : Placed t Home ns) : Placed t Home ms := by
  induction h with
  | nil => exact placed
  | keep n rest ih =>
    rcases Placed.cons_iff.1 placed with ⟨housed, clear⟩ | ⟨clear, placed⟩
    · exact .here housed (rest.clear clear)
    · exact .behind clear (ih placed)
  | drop n rest ih =>
    rcases Placed.cons_iff.1 placed with ⟨-, clear⟩ | ⟨-, placed⟩
    · exact .nowhere (rest.clear clear)
    · exact ih placed
  | @gone n k ns ms empty rest ih =>
    have clear : Clear (named t) (.node k none []) := by
      rcases empty with rfl | rfl <;> exact clear_node.2 ⟨nofun, nofun⟩
    rcases Placed.cons_iff.1 placed with ⟨-, clear'⟩ | ⟨-, placed⟩
    · exact .behind clear (.nowhere (rest.clear clear'))
    · exact .behind clear (ih placed)
  | unwrap inner rest ih =>
    rcases Placed.cons_iff.1 placed with ⟨housed, clear⟩ | ⟨clear, placed⟩
    · have inside := Placed.children (.here housed nofun) (noHome _ _ _ rfl)
      rcases inside.single with housed | clear'
      · exact .here housed (rest.clear clear)
      · exact .behind clear' (.nowhere (rest.clear clear))
    · exact .behind (clear.child List.mem_cons_self) (ih placed)
  | @within k s ns ms ns' ms' wraps inside rest ih ih' =>
    have own : identifier? k ≠ some t := by
      rcases wraps with rfl | rfl <;> nofun
    rcases Placed.cons_iff.1 placed with ⟨housed, clear⟩ | ⟨clear, placed⟩
    · have no : bodyIndex k = none := by rcases wraps with rfl | rfl <;> rfl
      have within := ih (Placed.children (.here housed nofun) (noHome _ _ _ no))
      rcases (within.node (s := s) own).single with housed | clear'
      · exact .here housed (rest.clear clear)
      · exact .behind clear' (.nowhere (rest.clear clear))
    · exact .behind (clear_node.2 ⟨own, inside.clear (clear_node.1 clear).2⟩)
        (ih' placed)
  | trans _ _ ih ih' => exact ih' (ih placed)

end Trims

/-- The nodes that a step takes along. -/
def stepPieces : Step → List Node
  | .member property => [property]
  | .call arguments typeArguments => arguments ++ [typeArguments]

/-- The nodes that a chain takes along, save the base. -/
def pieces (steps : List Step) : List Node :=
  steps.flatMap stepPieces

/-- A name is only used in what a step takes along. -/
def StepHeld (t : String) : Step → Prop
  | .member property => OnlyUsed t property
  | .call arguments typeArguments =>
    (∀ n ∈ arguments, Held t n) ∧ OnlyUsed t typeArguments

/-- The nodes that a level takes along. -/
def levelPieces (l : Level) : List Node :=
  pieces l.steps

theorem pieces_append (front back : List Step) :
    pieces (front ++ back) = pieces front ++ pieces back :=
  List.flatMap_append

/-- Grouping steps into levels keeps the order of the pieces. -/
theorem flatMap_levels (steps : List Step) :
    (levels steps).flatMap levelPieces = pieces steps := by
  have grouped : (levels steps).flatMap levelPieces =
      pieces ((levels steps).flatMap Level.steps) :=
    List.flatMap_assoc.symm
  rw [grouped, flatMap_steps_levels]

section Chain

variable {t u : String} {Home : Node → Prop} {policy : ChainPolicy}
  {name : String} {body : Node} {steps : List Step}

/-- The pieces of a chain stand in the body that it was read off. -/
theorem occurs_of_spine (h : Spine policy name body steps) {n : Node}
    (hn : n ∈ pieces steps) : Occurs n body := by
  induction h with
  | leaf s ns => cases hn
  | paren s rest ih => exact .inside List.mem_cons_self (ih hn)
  | @member s object property steps clean rest ih =>
    rw [pieces_append] at hn
    rcases List.mem_append.1 hn with hn | hn
    · exact .inside List.mem_cons_self (ih hn)
    · cases List.mem_singleton.1 hn
      exact .inside (List.mem_cons_of_mem _ List.mem_cons_self) .here
  | @call s l callee typeArguments arguments steps permissive ordinary
      clean rest ih =>
    rw [pieces_append] at hn
    rcases List.mem_append.1 hn with hn | hn
    · exact .inside List.mem_cons_self (ih hn)
    · rw [pieces, List.flatMap_cons, List.flatMap_nil, List.append_nil,
        stepPieces] at hn
      rcases List.mem_append.1 hn with hn | hn
      · exact .inside (List.mem_cons_of_mem _ List.mem_cons_self)
          (.inside hn .here)
      · cases List.mem_singleton.1 hn
        exact .inside (List.mem_cons_of_mem _
          (List.mem_cons_of_mem _ List.mem_cons_self)) .here

/-- What is put into a list of arguments is held, if the body is. -/
theorem held_of_spine (h : Spine policy name body steps)
    (used : OnlyUsed t body) {step : Step} (hs : step ∈ steps) :
    StepHeld t step := by
  induction h with
  | leaf s ns => cases hs
  | paren s rest ih =>
    exact ih (used.of_occurs (.inside List.mem_cons_self .here)) hs
  | @member s object property steps clean rest ih =>
    rcases List.mem_append.1 hs with hs | hs
    · exact ih (used.of_occurs (.inside List.mem_cons_self .here)) hs
    · cases List.mem_singleton.1 hs
      exact used.of_occurs
        (.inside (List.mem_cons_of_mem _ List.mem_cons_self) .here)
  | @call s l callee typeArguments arguments steps permissive ordinary
      clean rest ih =>
    rcases List.mem_append.1 hs with hs | hs
    · exact ih (used.of_occurs (.inside List.mem_cons_self .here)) hs
    · cases List.mem_singleton.1 hs
      have list : OnlyUsed t (.node .list l arguments) :=
        used.of_occurs
          (.inside (List.mem_cons_of_mem _ List.mem_cons_self) .here)
      exact ⟨fun n hn => list.child rfl hn,
        used.of_occurs (.inside (List.mem_cons_of_mem _
        (List.mem_cons_of_mem _ List.mem_cons_self)) .here)⟩

/-- A name that is placed in a body is placed in the pieces of the chain. -/
theorem placed_of_spine (h : Spine policy name body steps)
    (noHome : ∀ k s ns, bodyIndex k = none → ¬ Home (.node k s ns))
    (placed : Placed t Home [body]) :
    Placed t Home (pieces steps) := by
  induction h with
  | leaf s ns => exact .nowhere nofun
  | paren s rest ih => exact ih (placed.children (noHome _ _ _ rfl)).head
  | @member s object property steps clean rest ih =>
    have parts := placed.children (noHome _ _ _ rfl)
    rw [pieces_append]
    rcases Placed.cons_iff.1 parts with ⟨housed, clear⟩ | ⟨clear, placed⟩
    · exact (ih (.here housed nofun)).append_clear clear
    · have away : AllClear t (pieces steps) := fun n hn p hp =>
        clear p ((occurs_of_spine rest hn).mentions hp)
      exact Placed.append_iff.2 (.inr ⟨away, placed⟩)
  | @call s l callee typeArguments arguments steps permissive ordinary
      clean rest ih =>
    have parts := placed.children (noHome _ _ _ rfl)
    rw [pieces_append, show pieces [.call arguments typeArguments] =
      arguments ++ [typeArguments] from List.append_nil _]
    rcases Placed.cons_iff.1 parts with ⟨housed, clear⟩ | ⟨clear, placed⟩
    · obtain ⟨list, types⟩ := List.forall_mem_cons.1 clear
      exact (ih (.here housed nofun)).append_clear
        (List.forall_mem_append.2 ⟨(clear_node.1 list).2, types⟩)
    · have away : AllClear t (pieces steps) := fun n hn p hp =>
        clear p ((occurs_of_spine rest hn).mentions hp)
      refine Placed.append_iff.2 (.inr ⟨away, ?_⟩)
      rcases Placed.cons_iff.1 placed with ⟨housed, clear'⟩ | ⟨clear', placed⟩
      · exact (Placed.children (.here housed nofun)
          (noHome _ _ _ rfl)).append_clear clear'
      · exact Placed.append_iff.2 (.inr ⟨(clear_node.1 clear').2, placed⟩)

/-- The steps of the levels of a chain are steps of the chain. -/
theorem mem_of_levels {l : Level} {step : Step} (hl : l ∈ levels steps)
    (hs : step ∈ l.steps) : step ∈ steps := by
  rw [← flatMap_steps_levels steps]
  exact List.mem_flatMap.2 ⟨l, hl, hs⟩

theorem mentions_apply {object : Node} {l : Level} {p : String × Option Span}
    (h : p ∈ mentions (l.apply object)) :
    p ∈ mentions object ∨ ∃ n ∈ levelPieces l, p ∈ mentions n := by
  cases l <;> simp only [Level.apply, made, Node.ofList, mentions,
    mentionsAmong, identifier?, Option.toList_none, List.map_nil,
    List.nil_append, List.append_nil, List.mem_append, mem_mentionsAmong]
    at h <;> simp only [levelPieces, Level.steps, pieces, List.flatMap_cons,
    List.flatMap_nil, stepPieces, List.append_nil, List.mem_append,
    List.mem_cons, or_and_right, exists_or, exists_eq_left] <;> grind

theorem mentions_guarded {span : Option Span} {value more : Node}
    {p : String × Option Span} (h : p ∈ mentions (guarded span u value more)) :
    p.1 = u ∨ p ∈ mentions value ∨ p ∈ mentions more := by
  simp only [guarded, made, temporary, parenthesized, mentions, mentionsAmong,
    identifier?, Option.toList_none, Option.toList_some, List.map_nil,
    List.map_cons, List.nil_append, List.append_nil, List.mem_append,
    List.cons_append, List.mem_cons] at h
  grind

theorem mentions_guardedLevels {ls : List Level} {p : String × Option Span}
    (h : p ∈ mentions (guardedLevels u ls)) :
    p.1 = u ∨ ∃ l ∈ ls, ∃ n ∈ levelPieces l, p ∈ mentions n := by
  have name : p ∈ mentions (temporary u) → p.1 = u := by
    intro h
    rcases mem_mentions.1 h with ⟨isName, -⟩ | ⟨_, hn, -⟩
    · cases isName
      rfl
    · cases hn
  fun_induction guardedLevels u ls with
  | case1 => exact .inl (name h)
  | case2 last =>
    rcases mentions_apply h with h | inside
    · exact .inl (name h)
    · exact .inr ⟨last, List.mem_cons_self, inside⟩
  | case3 level rest _ ih =>
    rcases mentions_guarded h with h | h | h
    · exact .inl h
    · rcases mentions_apply h with h | inside
      · exact .inl (name h)
      · exact .inr ⟨level, List.mem_cons_self, inside⟩
    · exact (ih h).imp_right fun ⟨l, hl, inside⟩ =>
        ⟨l, List.mem_cons_of_mem _ hl, inside⟩

/-- The expression of a chain mentions the temporary, if it needs one, and what
its pieces mention. -/
theorem mentions_expression {c : AccessChain} {p : String × Option Span}
    (h : p ∈ mentions (c.expression u)) :
    (p.1 = u ∧ c.needsTemporary = true) ∨ ∃ n ∈ c.base :: pieces c.steps,
      p ∈ mentions n := by
  have wrapped {inner : Node} (h : p ∈ mentions (parenthesized inner)) :
      p ∈ mentions inner := by
    simpa [parenthesized, made, mentions, mentionsAmong, identifier?] using h
  unfold AccessChain.expression at h
  split at h
  · exact .inr ⟨c.base, List.mem_cons_self, wrapped h⟩
  · rename_i someLevels
    have needed : c.needsTemporary = true := by
      rw [AccessChain.needsTemporary]
      cases steps : c.steps with
      | nil => exact absurd (by rw [steps]; rfl) someLevels
      | cons step rest => rfl
    rcases mentions_guarded (wrapped h) with h | h | h
    · exact .inl ⟨h, needed⟩
    · exact .inr ⟨c.base, List.mem_cons_self, h⟩
    · rcases mentions_guardedLevels h with h | ⟨l, hl, n, hn, h⟩
      · exact .inl ⟨h, needed⟩
      · refine .inr ⟨n, List.mem_cons_of_mem _ ?_, h⟩
        rw [← flatMap_levels]
        exact List.mem_flatMap.2 ⟨l, hl, hn⟩

/-- A name that is not in the pieces is not in the expression, unless it is the
temporary. -/
theorem clear_expression {c : AccessChain}
    (away : AllClear t (c.base :: pieces c.steps))
    (different : c.needsTemporary = true → u ≠ t) :
    Clear (named t) (c.expression u) := by
  intro p hp same
  rcases mentions_expression hp with ⟨isName, needed⟩ | ⟨n, hn, inside⟩
  · exact different needed (isName.symm.trans same)
  · exact away n hn p inside same

theorem onlyUsed_temporary (t u : String) : OnlyUsed t (temporary u) := by
  refine onlyUsed_node (fun isName => ?_) nofun nofun
  cases isName
  rfl

theorem onlyUsed_apply {object : Node} {l : Level} (ho : OnlyUsed t object)
    (hl : ∀ step ∈ l.steps, StepHeld t step) : OnlyUsed t (l.apply object) := by
  have member {property : Node} (h : OnlyUsed t property) :
      OnlyUsed t (made .member [object, property]) :=
    onlyUsed_node nofun (by simp [ho, h]) fun _ _ _ => rfl
  have call {callee typeArguments : Node} {arguments : List Node} (hc :
      OnlyUsed t callee) (h : StepHeld t (.call arguments typeArguments)) :
      OnlyUsed t (made .call [callee, .ofList arguments, typeArguments]) := by
    have list : OnlyUsed t (.ofList arguments) :=
      (held_node (k := .list) nofun h.1).used
    exact onlyUsed_node nofun (by simp [hc, list, h.2]) fun _ _ _ => rfl
  cases l with
  | member property => exact member (hl _ List.mem_cons_self)
  | call arguments typeArguments => exact call ho (hl _ List.mem_cons_self)
  | method property arguments typeArguments =>
    exact call (member (hl _ List.mem_cons_self))
      (hl _ (List.mem_cons_of_mem _ List.mem_cons_self))

theorem held_guarded {span : Option Span} {value more : Node}
    (hv : OnlyUsed t value) (hm : OnlyUsed t more) :
    Held t (guarded span u value more) := by
  have assignment : Held t (made (.assign .plain) [temporary u, value]) :=
    ⟨onlyUsed_node nofun (by simp [hv, onlyUsed_temporary]) fun _ _ _ => rfl,
      other_iff.2 nofun⟩
  have test : Held t (made (.binary .notEq) [parenthesized
      (made (.assign .plain) [temporary u, value]), made .null []]) := by
    refine held_node nofun (List.forall_mem_cons.2
      ⟨held_node nofun ?_, List.forall_mem_singleton.2 ?_⟩)
    · exact List.forall_mem_singleton.2 assignment
    · exact held_node nofun nofun
  refine ⟨onlyUsed_node nofun ?_ fun _ _ _ => rfl,
    other_iff.2 fun isName => by cases isName⟩
  simp [test.used, hm, onlyUsed_temporary]

theorem onlyUsed_guardedLevels {ls : List Level}
    (hl : ∀ l ∈ ls, ∀ step ∈ l.steps, StepHeld t step) :
    OnlyUsed t (guardedLevels u ls) := by
  fun_induction guardedLevels u ls with
  | case1 => exact onlyUsed_temporary t u
  | case2 last =>
    exact onlyUsed_apply (onlyUsed_temporary t u) (hl last List.mem_cons_self)
  | case3 level rest _ ih =>
    exact (held_guarded (onlyUsed_apply (onlyUsed_temporary t u) (hl level
      List.mem_cons_self)) (ih fun l h => hl l (List.mem_cons_of_mem _ h))).used

/-- **A name that is only used in the pieces is only used in the expression**,
the temporary as well. -/
theorem held_expression {c : AccessChain} (base : Held t c.base)
    (hs : ∀ step ∈ c.steps, StepHeld t step) : Held t (c.expression u) := by
  unfold AccessChain.expression
  split
  · exact held_node nofun (List.forall_mem_singleton.2 base)
  · have more : OnlyUsed t (guardedLevels u (levels c.steps)) :=
      onlyUsed_guardedLevels fun l hl step h => hs step (mem_of_levels hl h)
    exact held_node nofun
      (List.forall_mem_singleton.2 (held_guarded base.used more))

theorem clear_temporary (different : u ≠ t) : Clear (named t) (temporary u) :=
  clear_node.2 ⟨fun isName => different (Option.some.inj isName), nofun⟩

theorem clear_apply {object : Node} {l : Level} (ho : Clear (named t) object)
    (hl : AllClear t (levelPieces l)) : Clear (named t) (l.apply object) := by
  intro p hp
  rcases mentions_apply hp with h | ⟨n, hn, h⟩
  · exact ho p h
  · exact hl n hn p h

theorem placed_apply {object : Node} {l : Level} (ho : Clear (named t) object)
    (placed : Placed t Home (levelPieces l)) :
    Placed t Home [l.apply object] := by
  have member {property : Node} {rest : List Node}
      (h : Placed t Home (property :: rest)) :
      Placed t Home (made .member [object, property] :: rest) :=
    Placed.wrap [object, property] nofun (.behind ho h)
  cases l with
  | member property => exact member placed
  | call arguments typeArguments =>
    have parts : Placed t Home (arguments ++ [typeArguments]) := by
      simpa [levelPieces, Level.steps, pieces, stepPieces] using placed
    exact Placed.node nofun (.behind ho (Placed.wrap arguments nofun parts))
  | method property arguments typeArguments =>
    have parts : Placed t Home (property :: (arguments ++ [typeArguments])) :=
      by
      simpa [levelPieces, Level.steps, pieces, stepPieces] using placed
    refine Placed.node nofun ?_
    rcases Placed.cons_iff.1 parts with ⟨housed, clear⟩ | ⟨clear, placed⟩
    · obtain ⟨list, types⟩ := List.forall_mem_append.1 clear
      exact member (.here housed
        (List.forall_mem_cons.2 ⟨clear_node.2 ⟨nofun, list⟩, types⟩))
    · exact member (.behind clear (Placed.wrap arguments nofun placed))

theorem placed_guarded {span : Option Span} {value more : Node}
    (different : u ≠ t) (placed : Placed t Home [value, more]) :
    Placed t Home [guarded span u value more] := by
  have temp := clear_temporary different
  have nothing : Clear (named t) (made .null []) := clear_node.2 ⟨nofun, nofun⟩
  have test (rest : List Node) (h : Placed t Home (value :: rest)) :
      Placed t Home (made (.binary .notEq) [parenthesized (made (.assign .plain)
      [temporary u, value]), made .null []] :: rest) := by
    have assignment :
        Placed t Home (made (.assign .plain) [temporary u, value] :: rest) :=
      Placed.wrap [_, _] nofun (.behind temp h)
    have parens : Placed t Home
        (parenthesized (made (.assign .plain) [temporary u, value]) :: rest) :=
      Placed.wrap [_] nofun assignment
    refine Placed.wrap [_, _] nofun ?_
    rcases Placed.cons_iff.1 parens with ⟨housed, clear⟩ | ⟨clear, placed⟩
    · exact .here housed (List.forall_mem_cons.2 ⟨nothing, clear⟩)
    · exact .behind clear (.behind nothing placed)
  exact Placed.node nofun
    ((test _ placed).append_clear (List.forall_mem_singleton.2 temp))

theorem placed_guardedLevels {ls : List Level} (different : u ≠ t)
    (placed : Placed t Home (ls.flatMap levelPieces)) :
    Placed t Home [guardedLevels u ls] := by
  have temp := clear_temporary different
  fun_induction guardedLevels u ls with
  | case1 => exact .nowhere (List.forall_mem_singleton.2 temp)
  | case2 last =>
    rw [List.flatMap_cons, List.flatMap_nil, List.append_nil] at placed
    exact placed_apply temp placed
  | case3 level rest _ ih =>
    rw [List.flatMap_cons] at placed
    refine placed_guarded different
      (placed.both (placed_apply temp) ih (clear_apply temp) ?_)
    intro clear p hp same
    rcases mentions_guardedLevels hp with isName | ⟨l, hl, n, hn, h⟩
    · exact different (isName.symm.trans same)
    · exact clear n (List.mem_flatMap.2 ⟨l, hl, hn⟩) p h same

/-- **A name that is placed in the pieces is placed in the expression.** -/
theorem placed_expression {c : AccessChain}
    (placed : Placed t Home (c.base :: pieces c.steps))
    (different : c.needsTemporary = true → u ≠ t) :
    Placed t Home [c.expression u] := by
  unfold AccessChain.expression
  split
  · exact Placed.node nofun placed.head
  · rename_i someLevels
    have needed : c.needsTemporary = true := by
      rw [AccessChain.needsTemporary]
      cases steps : c.steps with
      | nil => exact absurd (by rw [steps]; rfl) someLevels
      | cons step rest => rfl
    rw [← flatMap_levels] at placed
    refine Placed.node nofun (placed_guarded (different needed) ?_)
    have parts : Placed t Home
        ([c.base] ++ (levels c.steps).flatMap levelPieces) := placed
    refine parts.both id (placed_guardedLevels (different needed))
      (fun clear => clear _ List.mem_cons_self) fun clear p hp same => ?_
    rcases mentions_guardedLevels hp with isName | ⟨l, hl, n, hn, h⟩
    · exact different needed (isName.symm.trans same)
    · exact clear n (List.mem_flatMap.2 ⟨l, hl, hn⟩) p h same

end Chain

end NullGuard.Transform
