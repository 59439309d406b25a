import NullGuard.Proofs.Walks

/-!
# The rewrite of calls as a relation

`Rewrites` says without any state what can become of a list of nodes that are
treated in some ways. Besides the nodes the relation says which calls were
rewritten on the way, each with its temporary, and which of the temporaries are
still to be declared by a holder further out. What is proved about rewritten
programs is proved by induction on this relation, unless it is about the order
in which things are done.

`rewrite_sound` says that every rewrite that succeeds is one of the relation,
and how it advances the state: the temporaries are new names, all different
(`Advances`).
-/

namespace NullGuard.Transform

open NullGuard.Text (Span)
open NullGuard.Tree NullGuard.Chain NullGuard.Scope

/-- A call that was rewritten: where its callee stood, and its temporary if it
needed one. -/
structure RewrittenCall where
  callee : Option Span
  temporary : Option String
deriving DecidableEq, Repr

/-- The temporaries of some rewritten calls. -/
def temporaries (a : List RewrittenCall) : List String :=
  a.filterMap RewrittenCall.temporary

/-- **What can become of nodes that are treated in some ways**, with the
temporaries that a holder further out has to declare, and all calls that were
rewritten. -/
inductive Rewrites (setting : Setting) :
    List Treatment → List Node → List Node → List String →
      List RewrittenCall → Prop where
  | nil : Rewrites setting [] [] [] [] []
  | cons {j : Treatment} {js : List Treatment} {n n' : Node}
      {ns ns' : List Node} {h g : List String} {a b : List RewrittenCall}
      (head : Rewrites setting [j] [n] [n'] h a)
      (tail : Rewrites setting js ns ns' g b) :
      Rewrites setting (j :: js) (n :: ns) (n' :: ns') (h ++ g) (a ++ b)
  | keep (n : Node) : Rewrites setting [.keep] [n] [n] [] []
  | node {k : Kind} {s : Option Span} {ns ns' : List Node} {h : List String}
      {a : List RewrittenCall} (notProgram : isProgram k = false)
      (unplanned : plannedArguments? setting.plan (.node k s ns) = none)
      (children : Rewrites setting (treatments k ns) ns ns' h a) :
      Rewrites setting [.place] [.node k s ns]
        [.node k s (finish setting.removals k ns')] h a
  | program {b : Bool} {i : Option String} {s : Option Span}
      {ns ns' : List Node} {names h : List String} {a : List RewrittenCall}
      (children : Rewrites setting (ns.map fun _ => .place) ns ns' h a)
      (all : names.Perm h) :
      Rewrites setting [.place] [.node (.program b i) s ns] [.node (.program b
        i) s (declareIn names (ns'.filter (staysIn setting.removals)))] [] a
  | items {k : Kind} {s : Option Span} {ns ns' : List Node} {h : List String}
      {a : List RewrittenCall}
      (children : Rewrites setting (ns.map fun _ => .place) ns ns' h a) :
      Rewrites setting [.items] [.node k s ns]
        [.node k s (ns'.filter (staysIn setting.removals))] h a
  | block {s : Option Span} {ns ns' : List Node} {names h : List String}
      {a : List RewrittenCall}
      (children : Rewrites setting (ns.map fun _ => .place) ns ns' h a)
      (all : names.Perm h) :
      Rewrites setting [.body] [.node .block s ns] [.node .block s
        (declareIn names (ns'.filter (staysIn setting.removals)))] [] a
  | noBlock {n n' : Node} {h : List String} {a : List RewrittenCall}
      (notBlock : n.kind ≠ .block)
      (inPlace : Rewrites setting [.place] [n] [n'] h a) :
      Rewrites setting [.body] [n] [n'] h a
  | function {k : Kind} {s : Option Span} {ns ns' : List Node} {h : List String}
      {a : List RewrittenCall}
      (parts : Rewrites setting (functionTreatments ns) ns ns' h a) :
      Rewrites setting [.function] [.node k s ns] [.node k s ns'] h a
  | arrowBody {n n' : Node} {names h : List String} {a : List RewrittenCall}
      (inPlace : Rewrites setting [.place] [n] [n'] h a) (all : names.Perm h) :
      Rewrites setting [.arrowBody] [n] [arrowBody names n'] [] a
  /-- A helper call whose chain has no steps. -/
  | base {n arguments : Node} {arguments' : List Node} {chain : AccessChain}
      {h : List String} {a : List RewrittenCall}
      (planned : plannedArguments? setting.plan n = some arguments)
      (children : Rewrites setting (argumentTreatments arguments.children)
        arguments.children arguments' h a)
      (taken : decompose setting.options.policy n.span
        (arguments'.map unwrapItem) = .ok chain)
      (bare : chain.needsTemporary = false) :
      Rewrites setting [.place] [n] [chain.expression ""] h
        (a ++ [⟨calleeSpan n, none⟩])
  /-- A helper call with a temporary. -/
  | guarded {n arguments : Node} {arguments' : List Node} {chain : AccessChain}
      {t : String} {h : List String} {a : List RewrittenCall}
      (planned : plannedArguments? setting.plan n = some arguments)
      (children : Rewrites setting (argumentTreatments arguments.children)
        arguments.children arguments' h a)
      (taken : decompose setting.options.policy n.span
        (arguments'.map unwrapItem) = .ok chain)
      (needed : chain.needsTemporary = true) :
      Rewrites setting [.place] [n] [chain.expression t] (h ++ [t])
        (a ++ [⟨calleeSpan n, some t⟩])
  | callbackArrow {b : Bool} {s : Option Span} {parameters body body' : Node}
      {types : List Node} {h : List String} {a : List RewrittenCall}
      (inner : Rewrites setting [.place] [body] [body'] h a) :
      Rewrites setting [.callback] [.node (.arrow b) s (parameters :: body ::
        types)] [.node (.arrow b) s (parameters :: body' :: types)] h a
  | callbackInside {k : Kind} {s : Option Span} {n n' : Node} {h : List String}
      {a : List RewrittenCall} (wraps : k = .paren ∨ k = .spread)
      (arrow : isArrow n = true)
      (inner : Rewrites setting [.callback] [n] [n'] h a) :
      Rewrites setting [.callback] [.node k s [n]] [.node k s [n']] h a
  | noCallback {n n' : Node} {h : List String} {a : List RewrittenCall}
      (notArrow : ∀ b s parameters body types, n ≠
        .node (.arrow b) s (parameters :: body :: types))
      (notInside : ∀ k s inner, n = .node k s [inner] → k = .paren ∨
        k = .spread → isArrow inner = false)
      (inPlace : Rewrites setting [.place] [n] [n'] h a) :
      Rewrites setting [.callback] [n] [n'] h a

/-- How a rewrite of the calls `a`, of whose temporaries `h` are still to be
declared, changes the state. -/
structure Advances (p p' : Progress) (h : List String)
    (a : List RewrittenCall) : Prop where
  isOpen : p'.holder.isSome = p.holder.isSome
  /-- Inside of a holder, all temporaries are noted and held. -/
  held : p.holder.isSome = true → p'.held.Perm (p.held ++ h)
  made : p.holder.isSome = true → (p'.temporaries.map Temporary.name).Perm
    (p.temporaries.map Temporary.name ++ temporaries a)
  fresh : ∀ t ∈ temporaries a, t ∉ p.supply.used
  distinct : (temporaries a).Nodup
  used : ∀ t, t ∈ p'.supply.used ↔ t ∈ p.supply.used ∨ t ∈ temporaries a
  calls : p'.calls = p.calls + a.length

@[simp] theorem temporaries_append (a b : List RewrittenCall) :
    temporaries (a ++ b) = temporaries a ++ temporaries b :=
  List.filterMap_append

namespace Advances

variable {p p' p'' : Progress} {h g : List String} {a b : List RewrittenCall}

theorem refl (p : Progress) : Advances p p [] [] where
  isOpen := rfl
  held _ := by rw [List.append_nil]
  made _ := by rw [temporaries, List.filterMap_nil, List.append_nil]
  fresh := nofun
  distinct := List.nodup_nil
  used t := by simp [temporaries]
  calls := rfl

theorem trans (first : Advances p p' h a) (second : Advances p' p'' g b) :
    Advances p p'' (h ++ g) (a ++ b) where
  isOpen := second.isOpen.trans first.isOpen
  held isOpen := by
    rw [← List.append_assoc]
    exact (second.held (first.isOpen.trans isOpen)).trans
      ((first.held isOpen).append_right g)
  made isOpen := by
    rw [temporaries_append, ← List.append_assoc]
    exact (second.made (first.isOpen.trans isOpen)).trans
      ((first.made isOpen).append_right _)
  fresh := by
    intro t ht
    rw [temporaries_append] at ht
    rcases List.mem_append.1 ht with ht | ht
    · exact first.fresh t ht
    · exact fun old => second.fresh t ht ((first.used t).2 (.inl old))
  distinct := by
    rw [temporaries_append]
    refine List.nodup_append.2 ⟨first.distinct, second.distinct, ?_⟩
    rintro t ht _ ht' rfl
    exact second.fresh t ht' ((first.used t).2 (.inr ht))
  used t := by
    rw [second.used, first.used, temporaries_append, List.mem_append, or_assoc]
  calls := by rw [second.calls, first.calls, List.length_append, Nat.add_assoc]

/-- The order in which the calls are listed does not matter. -/
theorem perm (adv : Advances p p' h a) (held : h.Perm g) (made : a.Perm b) :
    Advances p p' g b where
  isOpen := adv.isOpen
  held isOpen := (adv.held isOpen).trans (held.append_left _)
  made isOpen := (adv.made isOpen).trans ((made.filterMap _).append_left _)
  fresh t ht := adv.fresh t ((made.filterMap _).mem_iff.2 ht)
  distinct := (made.filterMap _).nodup_iff.1 adv.distinct
  used t := by
    rw [adv.used, temporaries, temporaries, (made.filterMap _).mem_iff]
  calls := by rw [adv.calls, made.length_eq]

/-- Nothing depends on comments. -/
theorem congr (adv : Advances p p' h a) (holder : p''.holder = p'.holder)
    (temporaries : p''.temporaries = p'.temporaries)
    (supply : p''.supply = p'.supply) (calls : p''.calls = p'.calls) :
    Advances p p'' h a where
  isOpen := by rw [holder]; exact adv.isOpen
  held := by rw [Progress.held, holder]; exact adv.held
  made := by rw [temporaries]; exact adv.made
  fresh := adv.fresh
  distinct := adv.distinct
  used t := by rw [supply]; exact adv.used t
  calls := by rw [calls]; exact adv.calls

/-- **A holder declares what was made in it**, and notes it whether or not a
holder is open around it. -/
theorem holding {priority : HoistPriority}
    (adv : Advances { p with holder := some ⟨priority, []⟩ } p' h a) :
    p'.held.Perm h ∧ Advances p { p' with holder := p.holder } [] a ∧
      (p'.temporaries.map Temporary.name).Perm
        (p.temporaries.map Temporary.name ++ temporaries a) :=
  ⟨adv.held rfl, ⟨rfl, fun _ => by rw [List.append_nil]; rfl,
    fun _ => adv.made rfl, adv.fresh, adv.distinct, adv.used, adv.calls⟩,
    adv.made rfl⟩

/-- A call that is counted but needs no temporary. -/
theorem counted (p : Progress) (chain : AccessChain) (callee : Option Span) :
    Advances p { p with chains := p.chains ++ [chain] } []
      [⟨callee, none⟩] where
  isOpen := rfl
  held _ := by rw [List.append_nil]; rfl
  made _ := by
    rw [temporaries, List.filterMap_cons, List.filterMap_nil, List.append_nil]
  fresh := nofun
  distinct := List.nodup_nil
  used t := by simp [temporaries]
  calls := List.length_append

/-- A call that is counted and needs a temporary. -/
theorem temporary (p : Progress) (chain : AccessChain) (callee : Option Span) :
    Advances p
      (Progress.addTemporary { p with chains := p.chains ++ [chain] }
        (p.supply.fresh "ref").1 (p.supply.fresh "ref").2)
      [(p.supply.fresh "ref").1] [⟨callee, some (p.supply.fresh "ref").1⟩] where
  isOpen := by
    unfold Progress.addTemporary
    split
    · next innermost => exact (congrArg Option.isSome innermost).symm
    · rfl
  held isOpen := by
    obtain ⟨holder, innermost⟩ := Option.isSome_iff_exists.1 isOpen
    simp only [Progress.addTemporary, Progress.held, innermost]
    exact .refl _
  made isOpen := by
    obtain ⟨holder, innermost⟩ := Option.isSome_iff_exists.1 isOpen
    simp [Progress.addTemporary, innermost, temporaries]
  fresh t ht := by
    rw [List.mem_singleton.1 ht]
    exact p.supply.fresh_not_mem "ref"
  distinct := List.nodup_singleton _
  used t := by
    have only : temporaries [⟨callee, some (p.supply.fresh "ref").1⟩] =
        [(p.supply.fresh "ref").1] := rfl
    rw [Progress.supply_addTemporary, p.supply.fresh_used, List.mem_cons, only,
      List.mem_singleton, or_comm]
  calls := by
    rw [Progress.calls, Progress.chains_addTemporary]
    exact List.length_append

end Advances

section Sound

variable {setting : Setting} {js : List Treatment} {ns ns' : List Node}
  {p p' : Progress} {q : HoistPriority}

/-- The first of several nodes is rewritten by itself. -/
theorem rewrites_cons {n' : Node} {h : List String} {a : List RewrittenCall}
    (rewritten : Rewrites setting js ns (n' :: ns') h a) :
    ∃ j js' n ms g b g' b', js = j :: js' ∧ ns = n :: ms ∧
      Rewrites setting [j] [n] [n'] g b ∧ Rewrites setting js' ms ns' g' b' ∧
      h = g ++ g' ∧ a = b ++ b' := by
  have whole := rewritten
  cases rewritten with
  | cons head tail =>
    exact ⟨_, _, _, _, _, _, _, _, rfl, rfl, head, tail, rfl, rfl⟩
  | _ =>
    exact ⟨_, _, _, _, _, _, _, _, rfl, rfl, whole, .nil,
      (List.append_nil _).symm, (List.append_nil _).symm⟩

theorem Rewrites.length_eq {h : List String} {a : List RewrittenCall}
    (rewritten : Rewrites setting js ns ns' h a) : ns'.length = ns.length := by
  induction rewritten with
  | cons head tail ih ih' => rw [List.length_cons, List.length_cons, ih']
  | _ => rfl

/-- The relation knows no turn: the parts of a function may be taken in the
order in which they stand. -/
theorem rewrites_inTurn {h : List String} {a : List RewrittenCall}
    (parts : Rewrites setting (functionTreatments ns) (inTurn ns)
      (inTurn ns') h a) :
    ∃ g b, Rewrites setting (functionTreatments ns) ns ns' g b ∧ h.Perm g ∧
      a.Perm b := by
  have same : ns'.length = ns.length := by
    rw [← length_inTurn ns', ← length_inTurn ns, parts.length_eq]
  by_cases few : ns.length < 3
  · rw [inTurn_of_length few, inTurn_of_length (same ▸ few)] at parts
    exact ⟨h, a, parts, .refl _, .refl _⟩
  · rcases ns with _ | ⟨n₁, _ | ⟨n₂, _ | ⟨n₃, ns⟩⟩⟩
    case cons.cons.cons =>
      rcases ns' with _ | ⟨m₁, _ | ⟨m₂, _ | ⟨m₃, ms⟩⟩⟩
      case cons.cons.cons =>
        obtain ⟨_, _, _, _, h₁, a₁, h', a', js, nodes, first, others, rfl,
            rfl⟩ := rewrites_cons parts
        cases js
        cases nodes
        obtain ⟨_, _, _, _, h₂, a₂, h', a', js, nodes, second, rest, rfl,
            rfl⟩ := rewrites_cons others
        cases js
        cases nodes
        refine ⟨_, _, .cons second (.cons first rest), ?_, ?_⟩
        · rw [← List.append_assoc, ← List.append_assoc]
          exact List.perm_append_comm.append_right _
        · rw [← List.append_assoc, ← List.append_assoc]
          exact List.perm_append_comm.append_right _
      all_goals exact absurd same (by simp)
    all_goals exact absurd (by simp) few

/-- **What a rewrite does step by step it does at all**, and the state advances
by it. -/
theorem Walks.rewrites (walk : Walks setting q js ns ns' p p') :
    ∃ h a, Rewrites setting js ns ns' h a ∧ Advances p p' h a := by
  induction walk with
  | nil => exact ⟨[], [], .nil, .refl _⟩
  | cons head tail ih ih' =>
    obtain ⟨h, a, one, adv⟩ := ih
    obtain ⟨g, b, others, adv'⟩ := ih'
    exact ⟨h ++ g, a ++ b, .cons one others, adv.trans adv'⟩
  | keep n => exact ⟨[], [], .keep n, .refl _⟩
  | node notProgram notFunction unplanned children comments ih =>
    obtain ⟨h, a, rewritten, adv⟩ := ih
    exact ⟨h, a, .node notProgram unplanned rewritten,
      adv.congr rfl rfl rfl rfl⟩
  | program children comments ih =>
    obtain ⟨h, a, rewritten, adv⟩ := ih
    obtain ⟨all, adv, -⟩ := adv.holding
    exact ⟨[], a, .program rewritten all, adv.congr rfl rfl rfl rfl⟩
  | items children comments ih =>
    obtain ⟨h, a, rewritten, adv⟩ := ih
    exact ⟨h, a, .items rewritten, adv.congr rfl rfl rfl rfl⟩
  | block children comments ih =>
    obtain ⟨h, a, rewritten, adv⟩ := ih
    obtain ⟨all, adv, -⟩ := adv.holding
    exact ⟨[], a, .block rewritten all, adv.congr rfl rfl rfl rfl⟩
  | noBlock notBlock inPlace ih =>
    obtain ⟨h, a, rewritten, adv⟩ := ih
    exact ⟨h, a, .noBlock notBlock rewritten, adv⟩
  | function parts ih =>
    obtain ⟨h, a, rewritten, adv⟩ := ih
    obtain ⟨g, b, rewritten, held, made⟩ := rewrites_inTurn rewritten
    exact ⟨g, b, .function rewritten, adv.perm held made⟩
  | functionPlace parts ih =>
    obtain ⟨h, a, rewritten, adv⟩ := ih
    obtain ⟨g, b, rewritten, held, made⟩ := rewrites_inTurn rewritten
    exact ⟨g, b, .node rfl rfl rewritten, adv.perm held made⟩
  | arrowBody inPlace ih =>
    obtain ⟨h, a, rewritten, adv⟩ := ih
    obtain ⟨all, adv, -⟩ := adv.holding
    exact ⟨[], a, .arrowBody rewritten all, adv⟩
  | base planned children taken bare ih =>
    obtain ⟨h, a, rewritten, adv⟩ := ih
    refine ⟨h, _, .base planned rewritten taken bare, ?_⟩
    rw [← List.append_nil h]
    exact adv.trans (.counted _ _ _)
  | guarded planned children taken needed ih =>
    obtain ⟨h, a, rewritten, adv⟩ := ih
    exact ⟨_, _, .guarded planned rewritten taken needed,
      adv.trans (.temporary _ _ _)⟩
  | callbackArrow inner ih =>
    obtain ⟨h, a, rewritten, adv⟩ := ih
    exact ⟨h, a, .callbackArrow rewritten, adv⟩
  | callbackInside wraps arrow inner ih =>
    obtain ⟨h, a, rewritten, adv⟩ := ih
    exact ⟨h, a, .callbackInside wraps arrow rewritten, adv⟩
  | noCallback notArrow notInside inPlace ih =>
    obtain ⟨h, a, rewritten, adv⟩ := ih
    exact ⟨h, a, .noCallback notArrow notInside rewritten, adv⟩

/-- **A program opens a holder before anything is rewritten in it**, so no
temporary is made outside of all holders, and all temporaries are noted. -/
theorem Walks.rewrites_program {n n' : Node} (program : isProgram n.kind = true)
    (walk : Walks setting q [.place] [n] [n'] p p') :
    ∃ h a, Rewrites setting [.place] [n] [n'] h a ∧ Advances p p' h a ∧
      (p'.temporaries.map Temporary.name).Perm
        (p.temporaries.map Temporary.name ++ temporaries a) := by
  obtain ⟨b, i, s, ns, ns', r, comments, rfl, rfl, children, rfl⟩ :=
    walks_program program walk
  obtain ⟨h, a, rewritten, adv⟩ := children.rewrites
  obtain ⟨all, adv, made⟩ := adv.holding
  exact ⟨[], a, .program rewritten all, adv.congr rfl rfl rfl rfl, made⟩

/-- **Every successful rewrite is one of the relation**, and advances the state
by what it made. All that the rewrite of a program makes is noted. -/
theorem rewrites_of_runs {n n' : Node}
    (run : Runs (toPending setting n).rewrite p n' p') :
    ∃ h a, Rewrites setting [.place] [n] [n'] h a ∧ Advances p p' h a ∧
      (isProgram n.kind = true → (p'.temporaries.map Temporary.name).Perm
        (p.temporaries.map Temporary.name ++ temporaries a)) := by
  have walk : Walks setting defaultPriority [.place] [n] [n'] p p' :=
    (rewrite_walks setting n).place run
  by_cases program : isProgram n.kind = true
  · obtain ⟨h, a, rewritten, adv, made⟩ := walk.rewrites_program program
    exact ⟨h, a, rewritten, adv, fun _ => made⟩
  · obtain ⟨h, a, rewritten, adv⟩ := walk.rewrites
    exact ⟨h, a, rewritten, adv, fun isProgram => absurd isProgram program⟩

end Sound

end NullGuard.Transform
