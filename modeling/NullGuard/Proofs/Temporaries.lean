import NullGuard.Proofs.Homes
import NullGuard.Proofs.Transformations

/-!
# Temporaries are new, declared once and visible

A transformation reports the temporaries it made. They are pairwise different
names that the program did not have. Each one that the result contains is
declared there by one `var` without a start value, which is the only thing
besides expressions that it names, and everything that the analysis of the
result records under the name means that declaration (`temporaries_declared`).

A temporary can be reported and not be there: the one of a call that stood in
the declaration of a helper, for instance in a further argument of `require`,
goes away with that declaration.

The tree tells where a name is (`rewrites_located`). The step from there to what
the analysis says is made once for the home of the name (`enclosed_home`) and
holds all the way out (`said_of_housed`).
-/

namespace NullGuard.Scope

open NullGuard.Text (Span)
open NullGuard.Tree

mutual

/-- The names that an outline declares, at any depth. -/
def declarations : Outline → List String
  | .scope _ inside => declarationsAll inside
  | .declaration x _ _ | .helper x _ _ _ => [x]
  | _ => []

/-- The names that several outlines declare, at any depth. -/
def declarationsAll : List Outline → List String
  | [] => []
  | o :: os => declarations o ++ declarationsAll os

end

section Undeclared

variable {x : String} {os os' : List Outline}

@[simp] theorem declarationsAll_append (os os' : List Outline) :
    declarationsAll (os ++ os') = declarationsAll os ++
      declarationsAll os' := by
  induction os with
  | nil => rfl
  | cons o os ih =>
    rw [List.cons_append, declarationsAll, ih, declarationsAll,
      List.append_assoc]

/-- What comes out of an outline is declared in it. -/
theorem mem_declarationsAll_of_reaching {r : Reach} {d : Declared}
    (h : d ∈ reachingAll r os) :
    d.name ∈ declarationsAll os := by
  induction os using outlines_induct generalizing r with
  | nil => cases h
  | leaf o os isLeaf ih =>
    rw [reachingAll] at h
    rw [declarationsAll]
    rcases List.mem_append.1 h with h | h
    · refine List.mem_append_left _ ?_
      cases o with
      | scope k inside => cases isLeaf
      | declaration y s k | helper y s k origin =>
        rw [reaching] at h
        split at h
        · rw [List.mem_singleton.1 h]
          exact List.mem_cons_self
        · cases h
      | _ => cases h
    · exact List.mem_append_right _ (ih h)
  | scope k inside os inner ih =>
    rw [reachingAll] at h
    rcases List.mem_append.1 h with h | h
    · exact List.mem_append_left _ (inner h)
    · exact List.mem_append_right _ (ih h)

/-- A frame without a name has no declaration of it. -/
theorem firstOf_eq_none {ds : List Declared} (h : ∀ d ∈ ds, d.name ≠ x) :
    firstOf x ds = none :=
  List.find?_eq_none.2 fun d hd same => h d hd (eq_of_beq same)

theorem firstOf_reaching_eq_none {r : Reach} (h : x ∉ declarationsAll os) :
    firstOf x (reachingAll r os) = none := by
  refine firstOf_eq_none fun d hd same => h ?_
  rw [← same]
  exact mem_declarationsAll_of_reaching hd

/-- **Where a name is not declared**, its uses mean what it means outside. -/
theorem means_of_undeclared (h : x ∉ declarationsAll os)
    {frames : List (List Declared)} {u : Resolved}
    (hu : u ∈ resolvedAll frames os) (named : u.name = x) :
    u.means = lookUp frames x := by
  induction os using outlines_induct generalizing frames with
  | nil => cases hu
  | leaf o os isLeaf ih =>
    rw [declarationsAll, List.mem_append, not_or] at h
    rcases List.mem_append.1 hu with hu | hu
    · cases o with
      | scope k inside => cases isLeaf
      | reference y s k =>
        rw [List.mem_singleton.1 hu] at named ⊢
        exact congrArg (lookUp frames) named
      | _ => cases hu
    · exact ih h.2 hu
  | scope k inside os inner ih =>
    rw [declarationsAll, List.mem_append, not_or] at h
    rcases List.mem_append.1 hu with hu | hu
    · rw [inner h.1 hu, lookUp_cons, firstOf_reaching_eq_none h.1,
        Option.none_or]
    · exact ih h.2 hu

end Undeclared

/-- An outline neither declares nor uses a name. -/
structure Silent (x : String) (os : List Outline) : Prop where
  undeclared : x ∉ declarationsAll os
  unused : ∀ frames, ∀ u ∈ resolvedAll frames os, u.name ≠ x

/-- All uses of a name in an outline mean one declaration, whatever is around,
and no declaration of the name comes out. -/
structure Enclosed (x : String) (d : Declared) (os : List Outline) : Prop where
  means : ∀ frames, ∀ u ∈ resolvedAll frames os, u.name = x → u.means = some d
  inside : ∀ r, ∀ e ∈ reachingAll r os, e.name ≠ x

section Enclosed

variable {x : String} {d : Declared}

theorem closed_silent (x : String) : Closed (Silent x) where
  nil := ⟨List.not_mem_nil, fun _ => List.forall_mem_nil _⟩
  append h h' := by
    refine ⟨?_, fun frames u hu => ?_⟩
    · rw [declarationsAll_append, List.mem_append, not_or]
      exact ⟨h.undeclared, h'.undeclared⟩
    · rw [resolvedAll_append] at hu
      exact (List.mem_append.1 hu).elim (h.unused frames u) (h'.unused frames u)
  scope k h := by
    refine ⟨?_, fun frames u hu => ?_⟩
    · rw [declarationsAll, declarationsAll, List.append_nil]
      exact h.undeclared
    · rw [resolvedAll, resolvedAll, List.append_nil] at hu
      exact h.unused _ u hu
  reference {y s} k h := by
    refine ⟨List.not_mem_nil, fun frames u hu => ?_⟩
    cases List.mem_singleton.1 hu
    exact h.unused frames ⟨y, s, .read, lookUp frames y⟩ List.mem_cons_self
  unrecognized s := ⟨List.not_mem_nil, fun _ => List.forall_mem_nil _⟩
  malformed e := ⟨List.not_mem_nil, fun _ => List.forall_mem_nil _⟩

theorem allowsOthers_silent (x : String) :
    AllowsOthers (fun p => p.1 = x) (Silent x) where
  toClosed := closed_silent x
  declaration other k := ⟨fun h => other (List.mem_singleton.1 h).symm,
    fun _ => List.forall_mem_nil _⟩
  helper other k origin := ⟨fun h => other (List.mem_singleton.1 h).symm,
    fun _ => List.forall_mem_nil _⟩
  use other := ⟨List.not_mem_nil, fun frames u hu => by
    cases List.mem_singleton.1 hu
    exact other⟩

theorem closed_enclosed (x : String) (d : Declared) :
    Closed (Enclosed x d) where
  nil := ⟨fun _ => List.forall_mem_nil _, fun _ => List.forall_mem_nil _⟩
  append h h' := by
    refine ⟨fun frames u hu => ?_, fun r e he => ?_⟩
    · rw [resolvedAll_append] at hu
      exact (List.mem_append.1 hu).elim (h.means frames u) (h'.means frames u)
    · rw [reachingAll_append] at he
      exact (List.mem_append.1 he).elim (h.inside r e) (h'.inside r e)
  scope k h := by
    refine ⟨fun frames u hu => ?_, fun r e he => ?_⟩
    · rw [resolvedAll, resolvedAll, List.append_nil] at hu
      exact h.means _ u hu
    · rw [reachingAll, reachingAll, List.append_nil] at he
      exact h.inside _ e he
  reference {y s} k h := by
    refine ⟨fun frames u hu => ?_, fun _ => List.forall_mem_nil _⟩
    cases List.mem_singleton.1 hu
    exact h.means frames ⟨y, s, .read, lookUp frames y⟩ List.mem_cons_self
  unrecognized s :=
    ⟨fun _ => List.forall_mem_nil _, fun _ => List.forall_mem_nil _⟩
  malformed e :=
    ⟨fun _ => List.forall_mem_nil _, fun _ => List.forall_mem_nil _⟩

theorem allowsOthers_enclosed (x : String) (d : Declared) :
    AllowsOthers (fun p => p.1 = x) (Enclosed x d) where
  toClosed := closed_enclosed x d
  declaration {y s} other k := by
    refine ⟨fun _ => List.forall_mem_nil _, fun r e he => ?_⟩
    rw [reachingAll, reachingAll, List.append_nil, reaching] at he
    split at he
    · rw [List.mem_singleton.1 he]
      exact other
    · cases he
  helper {y s} other k origin := by
    refine ⟨fun _ => List.forall_mem_nil _, fun r e he => ?_⟩
    rw [reachingAll, reachingAll, List.append_nil, reaching] at he
    split at he
    · rw [List.mem_singleton.1 he]
      exact other
    · cases he
  use other := ⟨fun frames u hu named => by
    cases List.mem_singleton.1 hu
    exact absurd named other, fun _ => List.forall_mem_nil _⟩

theorem Silent.enclosed {os : List Outline} (h : Silent x os) :
    Enclosed x d os where
  means frames u hu named := absurd named (h.unused frames u hu)
  inside _ _ he same := h.undeclared (same ▸ mem_declarationsAll_of_reaching he)

/-- Some outlines declare a variable, and whoever uses it there means that
declaration: the variable is declared by the outlines themselves, and nowhere
further in. -/
structure DeclaresVar (x : String) (d : Declared) (os : List Outline) :
    Prop where
  means : ∀ frames, lookUp frames x = some d → ∀ u ∈ resolvedAll frames os,
    u.name = x → u.means = some d
  first : ∀ r : Reach, r.vars = true → firstOf x (reachingAll r os) = some d
  inside : ∀ r : Reach, r.vars = false → ∀ e ∈ reachingAll r os, e.name ≠ x

/-- **A scope that holds variables keeps the ones that are declared in it to
itself.** -/
theorem enclosed_scope {k : ScopeKind} (holds : k.holdsVars = true)
    {front items : List Outline} (silent : Silent x front)
    (declares : DeclaresVar x d items) :
    Enclosed x d [.scope k (front ++ items)] := by
  have vars : (Reach.own k).vars = true := holds
  refine ⟨fun frames u hu named => ?_, fun r e he => ?_⟩
  · rw [resolvedAll, resolvedAll, List.append_nil, resolved, resolvedAll_append]
      at hu
    rcases List.mem_append.1 hu with hu | hu
    · exact absurd named (silent.unused _ u hu)
    · refine declares.means _ ?_ u hu named
      rw [lookUp_cons, reachingAll_append, firstOf_append,
        firstOf_reaching_eq_none silent.undeclared, declares.first _ vars]
      rfl
  · rw [reachingAll, reachingAll, List.append_nil, reaching, reachingAll_append]
      at he
    rcases List.mem_append.1 he with he | he
    · exact fun same => silent.undeclared
        (same ▸ mem_declarationsAll_of_reaching he)
    · exact declares.inside _ (by simp [Reach.through, holds]) e he

end Enclosed

end NullGuard.Scope

namespace NullGuard.Transform

open NullGuard.Text (Span)
open NullGuard.Tree NullGuard.Chain NullGuard.Scope

section Home

variable {t : String} {m : String} {c : Context}

/-- A variable without a start value, as the analysis sees it. -/
def newVar (t : String) : Declared :=
  ⟨t, none, .var⟩

/-- A closed property that does not look at uses holds of a node in which a name
is only used. -/
theorem undeclared_of_onlyUsed {n : Node} (isRegular : regular n = true)
    (used : OnlyUsed t n) (c : Context) :
    t ∉ declarationsAll (said m c n) := by
  have closed : Closed fun os => t ∉ declarationsAll os := by
    refine ⟨nofun, fun h h' => ?_, fun k h => ?_, fun _ _ => nofun,
      fun _ => nofun, fun _ => nofun⟩
    · rw [declarationsAll_append, List.mem_append, not_or]
      exact ⟨h, h'⟩
    · rw [declarationsAll, declarationsAll, List.append_nil]
      exact h
  have both : (∀ c, t ∉ declarationsAll (said m c n)) ∧
      ∀ n' ∈ n.children, ∀ c, t ∉ declarationsAll (said m c n') := by
    induction n using Node.induct with
    | step k s ns ih =>
      obtain ⟨here, below, -⟩ := regular_node.1 isRegular
      have each n hn := ih n hn (below n hn) (used.of_occurs (.inside hn .here))
      refine ⟨?_, fun n hn => (each n hn).1⟩
      by_cases isName : identifier? k = some t
      · cases (used _ .here).1 isName
        exact fun c => nofun
      · refine said_closed closed ⟨here, fun n hn => (each n hn).1,
          fun n hn _ => (each n hn).2, ?_, ?_⟩
        · intro n hn x isX kind
          have other : x ≠ t := by
            rintro rfl
            cases hn with
            | own => exact isName isX
            | child naming hc =>
              have uses := (used _ .here).2 _ hc isX
              revert naming uses
              cases k <;> nofun
            | @inner p _ hp isOpen _ hc =>
              have uses := (used p (.inside hp .here)).2 _ hc isX
              revert isOpen uses
              cases p.kind <;> nofun
            | @specifier p q _ hp isList hq isSpecifier hc =>
              obtain ⟨pk, ps, pns⟩ := p
              have uses := (used q (.inside hp (.inside hq .here))).2 _ hc isX
              unfold isImportSpecifier at isSpecifier
              revert isSpecifier uses
              cases q.kind <;> nofun
          have different : t ∉ [x] :=
            fun h => other (List.mem_singleton.1 h).symm
          exact ⟨different, fun origin => different⟩
        · intro n hn x isX
          nofun
  exact both.1 c

theorem undeclared_of_held {ns : List Node}
    (isRegular : ∀ n ∈ ns, regular n = true) (held : ∀ n ∈ ns, Held t n) :
    t ∉ declarationsAll (saidAmong m c ns) := by
  intro declared
  induction ns with
  | nil => cases declared
  | cons n ns ih =>
    rw [saidAmong, List.flatMap_cons, declarationsAll_append] at declared
    rcases List.mem_append.1 declared with declared | declared
    · exact undeclared_of_onlyUsed (isRegular n List.mem_cons_self)
        (held n List.mem_cons_self).used c declared
    · exact ih (fun n hn => isRegular n (List.mem_cons_of_mem _ hn))
        (fun n hn => held n (List.mem_cons_of_mem _ hn)) declared

/-- The statement that declares names does so, and says nothing else. -/
theorem said_varStatement (names : List String) :
    said m c (varStatement names) =
      names.map fun x => .declaration x none .var := by
  have one (x : String) (c : Context) (isVar : c.varKind = .var) : said m c
      (made (.declarator false) [made (.bindingIdent x false) [.none], .none]) =
      [.declaration x none .var] := by
    rw [← isVar]
    rfl
  rw [varStatement, made, said_node, outlineOf]
  rw [outlines_toParts, saidAmong, List.flatMap_map]
  induction names with
  | nil => rfl
  | cons x names ih =>
    rw [List.flatMap_cons, ih, one x _ rfl]
    rfl

theorem saidAmong_append (front back : List Node) :
    saidAmong m c (front ++ back) = saidAmong m c front ++ saidAmong m c back :=
  List.flatMap_append

/-- Declarations of variables only. -/
theorem reachingAll_variables (r : Reach) (names : List String) :
    reachingAll r (names.map fun x => .declaration x none .var) =
      if r.vars then names.map newVar else [] := by
  induction names with
  | nil => cases r.vars <;> rfl
  | cons x names ih =>
    rw [List.map_cons, reachingAll, ih, reaching, Reach.admits]
    cases r.vars <;> rfl

theorem firstOf_variables {names : List String} (among : t ∈ names) :
    firstOf t (names.map newVar) = some (newVar t) := by
  induction names with
  | nil => cases among
  | cons x names ih =>
    rw [List.map_cons, firstOf, List.find?_cons]
    by_cases same : x = t
    · simp [newVar, same]
    · have other : ((newVar x).name == t) = false := beq_eq_false_iff_ne.2 same
      rw [other]
      exact ih ((List.mem_cons.1 among).resolve_left fun h => same h.symm)

theorem resolvedAll_variables (frames : List (List Declared))
    (names : List String) :
    resolvedAll frames (names.map fun x => .declaration x none .var) = [] := by
  induction names with
  | nil => rfl
  | cons x names ih => exact ih

/-- **Statements that declare a temporary do so once for all uses in them.** -/
theorem declaresVar_of_hosts {items : List Node} (hosts : Hosts t items)
    (isRegular : ∀ n ∈ items, regular n = true) (c : Context) :
    DeclaresVar t (newVar t) (saidAmong m c items) := by
  cases hosts with
  | @intro names front back among distinct before behind =>
    obtain ⟨regularFront, rest⟩ := List.forall_mem_append.1 isRegular
    obtain ⟨-, regularBack⟩ := List.forall_mem_cons.1 rest
    have front' : t ∉ declarationsAll (saidAmong m c front) :=
      undeclared_of_held regularFront before
    have back' : t ∉ declarationsAll (saidAmong m c back) :=
      undeclared_of_held regularBack behind
    have split : saidAmong m c (front ++ varStatement names :: back) =
        saidAmong m c front ++ ((names.map fun x => .declaration x none .var) ++
        saidAmong m c back) := by
      rw [saidAmong_append, ← said_varStatement]
      rfl
    rw [split]
    refine ⟨fun frames found u hu named => ?_, fun r vars => ?_,
      fun r vars e he => ?_⟩
    · rw [resolvedAll_append, resolvedAll_append, resolvedAll_variables,
        List.nil_append] at hu
      rw [← found]
      rcases List.mem_append.1 hu with hu | hu
      · exact means_of_undeclared front' hu named
      · exact means_of_undeclared back' hu named
    · rw [reachingAll_append, reachingAll_append, reachingAll_variables, vars,
        firstOf_append, firstOf_append, firstOf_reaching_eq_none front',
        if_pos rfl, firstOf_variables among]
      rfl
    · rw [reachingAll_append, reachingAll_append, reachingAll_variables, vars,
        if_neg nofun, List.nil_append] at he
      rintro rfl
      rcases List.mem_append.1 he with he | he
      · exact front' (mem_declarationsAll_of_reaching he)
      · exact back' (mem_declarationsAll_of_reaching he)

theorem silent_of_clear {n : Node} (isRegular : regular n = true)
    (clear : Clear (named t) n) (c : Context) : Silent t (said m c n) :=
  said_of_clear (allowsOthers_silent t) isRegular clear c

/-- The children of a node without the name do not speak of it. -/
theorem silent_children {n : Node} (isRegular : regular n = true)
    (clear : Clear (named t) n) (c : Context) :
    Silent t (outlines (toPart m n).parts c) := by
  obtain ⟨k, s, ns⟩ := n
  rw [parts_toPart, outlines_toParts]
  exact (closed_silent t).saidAmong fun n hn => silent_of_clear
    (regular_child isRegular hn) (clear.child hn) c

theorem bodyOutline_block (s : Option Span) (items : List Node) :
    bodyOutline (toPart m (.node .block s items)) c = saidAmong m c items := by
  rw [← outlines_toParts]
  rfl

/-- **A home keeps its name to itself.** -/
theorem enclosed_home {n : Node} (home : Home t n)
    (isRegular : regular n = true) (c : Context) :
    Enclosed t (newVar t) (said m c n) := by
  cases home with
  | @intro k s before after body place declares clearBefore clearAfter =>
    cases declares with
    | @block s' items hosts =>
      obtain ⟨-, below, -⟩ := regular_node.1 isRegular
      have itemsRegular n (hn : n ∈ items) : regular n = true :=
        regular_child (below _ (List.mem_append_right _ List.mem_cons_self)) hn
      have front {p : Node} (hp : p ∈ before) : regular p = true :=
        below p (List.mem_append_left _ hp)
      have silent (p : Node) (hp : p ∈ before) (c : Context) :
          Silent t (said m c p) :=
        silent_of_clear (front hp) (clearBefore p hp) c
      have silentInside (p : Node) (hp : p ∈ before) (c : Context) :
          Silent t (outlines (toPart m p).parts c) :=
        silent_children (front hp) (clearBefore p hp) c
      have scope (k : ScopeKind) (holds : k.holdsVars = true)
          {os : List Outline} (quiet : Silent t os) (c : Context) :
          Enclosed t (newVar t) [.scope k (os ++ saidAmong m c items)] :=
        enclosed_scope holds quiet (declaresVar_of_hosts hosts itemsRegular c)
      have nothing := (closed_silent t).nil
      rw [said_node]
      cases k
      case staticBlock =>
        obtain rfl : before = [] :=
          List.eq_nil_of_length_eq_zero (Option.some.inj place).symm
        simp only [outlineOf, part_toParts, List.nil_append, child,
          List.getD_cons_zero, bodyOutline_block]
        exact scope .staticBlock rfl nothing _
      case arrow =>
        obtain ⟨parameters, rfl⟩ :=
          List.length_eq_one_iff.1 (Option.some.inj place).symm
        simp only [outlineOf, functionOutline, part_toParts, List.cons_append,
          List.nil_append, child, List.getD_cons_zero, List.getD_cons_succ,
          bodyOutline_block]
        exact scope .function rfl (silentInside _ (by simp) _) _
      case function =>
        obtain ⟨parameters, decorators, rfl⟩ :=
          List.length_eq_two.1 (Option.some.inj place).symm
        simp only [outlineOf, functionOutline, part_toParts, List.cons_append,
          List.nil_append, child, List.getD_cons_zero, List.getD_cons_succ,
          bodyOutline_block]
        rw [← List.append_assoc]
        exact scope .function rfl ((closed_silent t).append
          (silentInside _ (by simp) _) (silentInside _ (by simp) _)) _
      case constructor =>
        obtain ⟨key, parameters, rfl⟩ :=
          List.length_eq_two.1 (Option.some.inj place).symm
        simp only [outlineOf, functionOutline, part_toParts, List.cons_append,
          List.nil_append, child, List.getD_cons_zero, List.getD_cons_succ,
          bodyOutline_block, outline_toPart]
        exact (closed_enclosed t _).append (silent _ (by simp) _).enclosed
          (scope .function rfl (silentInside _ (by simp) _) _)
      case getterProp =>
        obtain ⟨key, type, rfl⟩ :=
          List.length_eq_two.1 (Option.some.inj place).symm
        simp only [outlineOf, functionOutline, part_toParts, List.cons_append,
          List.nil_append, child, List.getD_cons_zero, List.getD_cons_succ,
          bodyOutline_block, outline_toPart]
        exact (closed_enclosed t _).append (silent _ (by simp) _).enclosed
          (scope .function rfl nothing _)
      case setterProp =>
        obtain ⟨key, this, parameter, rfl⟩ :=
          List.length_eq_three.1 (Option.some.inj place).symm
        simp only [outlineOf, part_toParts, List.cons_append, List.nil_append,
          child, List.getD_cons_zero, List.getD_cons_succ, bodyOutline_block,
          outline_toPart]
        rw [← List.append_assoc]
        exact (closed_enclosed t _).append (silent _ (by simp) _).enclosed
          (scope .function rfl ((closed_silent t).append (silent _ (by simp) _)
          (silent _ (by simp) _)) _)
      all_goals cases place

end Home

/-- Whether a node is a declarator of a plain name. -/
def declaresName (t : String) : Node → Bool
  | .node (.declarator _) _ (.node (.bindingIdent x _) _ _ :: _) => x == t
  | _ => false

/-- A declarator of a name without a start value. -/
def bareDeclarator (t : String) : Node :=
  made (.declarator false) [made (.bindingIdent t false) [.none], .none]

/-- A tree declares a name once, by a declarator without a start value, and
everything else that it names so is an expression. -/
structure DeclaredOnce (t : String) (n : Node) : Prop where
  declarator : (subnodes n).filter (declaresName t) = [bareDeclarator t]
  elsewhere : ∀ m ∈ subnodes n, identifier? m.kind = some t →
    m.kind = .ident t ∨ m = made (.bindingIdent t false) [.none]

section Shown

variable {t : String} {n : Node} {ns ms : List Node}

/-- The identifiers of a node are the names it mentions. -/
theorem mem_identifiers {x : String} :
    x ∈ identifiers n ↔ ∃ p ∈ mentions n, p.1 = x := by
  have all : identifiers n = (mentions n).map Prod.fst := by
    have among (ns : List Node)
        (each : ∀ n ∈ ns, identifiers n = (mentions n).map Prod.fst) :
        identifiersAll ns = (mentionsAmong ns).map Prod.fst := by
      induction ns with
      | nil => rfl
      | cons n ns ih =>
        rw [identifiersAll, mentionsAmong, List.map_append, each n
          List.mem_cons_self, ih fun m hm => each m (List.mem_cons_of_mem _ hm)]
    induction n using Node.induct with
    | step k s ns ih =>
      rw [identifiers, mentions, List.map_append, among ns ih, List.map_map]
      congr 1
      cases identifier? k <;> rfl
  rw [all, List.mem_map]

theorem clear_iff : Clear (named t) n ↔ t ∉ identifiers n := by
  rw [mem_identifiers]
  exact ⟨fun h ⟨p, hp, same⟩ => h p hp same, fun h p hp same => h ⟨p, hp, same⟩⟩

/-- A node declares no name that none of its children is. -/
theorem declaresName_eq_false
    (h : ∀ c ∈ n.children, identifier? c.kind ≠ some t) :
    declaresName t n = false := by
  unfold declaresName
  split
  · rename_i x b s' ns' rest
    rw [beq_eq_false_iff_ne]
    rintro rfl
    exact h _ List.mem_cons_self rfl
  · rfl

/-- Where a name is only used, there is no declarator of it. -/
theorem shown_of_onlyUsed (h : OnlyUsed t n) :
    (subnodes n).filter (declaresName t) = [] ∧ ∀ m ∈ subnodes n,
      identifier? m.kind = some t → m.kind = .ident t := by
  refine ⟨List.filter_eq_nil_iff.2 fun m hm => ?_,
    fun m hm => (h m (mem_subnodes.1 hm)).1⟩
  have inside := (h m (mem_subnodes.1 hm)).2
  rw [Bool.not_eq_true]
  unfold declaresName
  split
  · rename_i d s x b s' ns' rest
    rw [beq_eq_false_iff_ne]
    rintro rfl
    cases inside _ List.mem_cons_self rfl
  · rfl

theorem shownAmong_of_onlyUsed (h : ∀ n ∈ ns, OnlyUsed t n) :
    (subnodesAmong ns).filter (declaresName t) = [] ∧
      ∀ m ∈ subnodesAmong ns, identifier? m.kind = some t →
        m.kind = .ident t := by
  refine ⟨List.filter_eq_nil_iff.2 fun m hm => ?_, fun m hm => ?_⟩
  · obtain ⟨n, hn, hm⟩ := mem_subnodesAmong.1 hm
    exact List.filter_eq_nil_iff.1 (shown_of_onlyUsed (h n hn)).1 m hm
  · obtain ⟨n, hn, hm⟩ := mem_subnodesAmong.1 hm
    exact (shown_of_onlyUsed (h n hn)).2 m hm

/-- The statement that declares several names declares each of them once. -/
theorem declaredOnce_varStatement {names : List String} (among : t ∈ names)
    (distinct : names.Nodup) :
    DeclaredOnce t (varStatement names) := by
  have inside (x : String) : subnodes (bareDeclarator x) = [bareDeclarator x,
      made (.bindingIdent x false) [.none], .none, .none] := rfl
  have all : subnodes (varStatement names) = varStatement names ::
      names.flatMap fun x => subnodes (bareDeclarator x) := by
    have each (xs : List String) : subnodesAmong (xs.map bareDeclarator) =
        xs.flatMap fun x => subnodes (bareDeclarator x) := by
      induction xs with
      | nil => rfl
      | cons x xs ih => rw [List.map_cons, subnodesAmong, ih, List.flatMap_cons]
    exact congrArg (varStatement names :: ·) (each names)
  refine ⟨?_, fun m hm isName => ?_⟩
  · have one : names.filter (· == t) = [t] := by
      rw [List.filter_beq, List.count_eq_one_of_mem distinct among]
      rfl
    have each (xs : List String) :
        (xs.flatMap fun x => subnodes (bareDeclarator x)).filter
        (declaresName t) = (xs.filter (· == t)).map bareDeclarator := by
      induction xs with
      | nil => rfl
      | cons x xs ih =>
        rw [List.flatMap_cons, List.filter_append, ih, inside]
        cases same : x == t <;>
          simp [declaresName, bareDeclarator, made, Node.none, same]
    rw [all, List.filter_cons,
      if_neg (by simp [declaresName, varStatement, made]), each, one]
    rfl
  · rw [all] at hm
    rcases List.mem_cons.1 hm with rfl | hm
    · cases isName
    · obtain ⟨x, -, hm⟩ := List.mem_flatMap.1 hm
      rw [inside] at hm
      rcases List.mem_cons.1 hm with rfl | hm
      · cases isName
      rcases List.mem_cons.1 hm with rfl | hm
      · cases isName
        exact .inr rfl
      · rcases List.mem_cons.1 hm with rfl | hm
        · cases isName
        · cases List.mem_singleton.1 hm
          cases isName

/-- A node over one that declares a name once, where the others do not. -/
theorem DeclaredOnce.node {k : Kind} {s : Option Span}
    {before after : List Node}
    (own : declaresName t (.node k s (before ++ n :: after)) = false)
    (other : identifier? k ≠ some t) (front : ∀ n ∈ before, OnlyUsed t n)
    (back : ∀ n ∈ after, OnlyUsed t n) (h : DeclaredOnce t n) :
    DeclaredOnce t (.node k s (before ++ n :: after)) := by
  obtain ⟨front, front'⟩ := shownAmong_of_onlyUsed front
  obtain ⟨back, back'⟩ := shownAmong_of_onlyUsed back
  refine ⟨?_, fun m hm isName => ?_⟩
  · rw [subnodes, subnodesAmong_append, subnodesAmong, List.filter_cons, own,
      if_neg Bool.false_ne_true, List.filter_append, List.filter_append, front,
      back, h.declarator]
    rfl
  · rw [subnodes, subnodesAmong_append, subnodesAmong] at hm
    rcases List.mem_cons.1 hm with rfl | hm
    · exact absurd isName other
    rcases List.mem_append.1 hm with hm | hm
    · exact .inl (front' m hm isName)
    rcases List.mem_append.1 hm with hm | hm
    · exact h.elsewhere m hm isName
    · exact .inl (back' m hm isName)

/-- Statements that declare a name declare it once, in whatever node that is no
declarator. -/
theorem declaredOnce_of_hosts {k : Kind} {s : Option Span} {items : List Node}
    (hosts : Hosts t items) (own : ∀ ns, declaresName t (.node k s ns) = false)
    (other : identifier? k ≠ some t) :
    DeclaredOnce t (.node k s items) := by
  cases hosts with
  | intro among distinct before behind =>
    exact (declaredOnce_varStatement among distinct).node (own _) other
      (fun n hn => (before n hn).used) fun n hn => (behind n hn).used

theorem declaredOnce_of_home (home : Home t n) : DeclaredOnce t n := by
  have others := home.others
  have unnamed := home.isHome.unnamed
  cases home with
  | @intro k s before after body place declares clearBefore clearAfter =>
    cases declares with
    | @block s' items hosts =>
      have inside : DeclaredOnce t (.node .block s' items) :=
        declaredOnce_of_hosts hosts (fun _ => rfl) nofun
      refine inside.node ?_ (fun isName => by cases unnamed.symm.trans isName)
        (fun n hn => onlyUsed_of_clear (clearBefore n hn)) fun n hn =>
        onlyUsed_of_clear (clearAfter n hn)
      exact declaresName_eq_false fun c hc => other_iff.1 (others c hc)

/-- **A name with a home is declared once.** -/
theorem declaredOnce_of_housed (housed : Housed (named t) (Home t) n) :
    DeclaredOnce t n := by
  induction housed with
  | home isHome home => exact declaredOnce_of_home home
  | @inside k s before after n other clearBefore clearAfter within ih =>
    refine ih.node (declaresName_eq_false fun c hc => ?_) (other_iff.1 other)
      (fun n hn => onlyUsed_of_clear (clearBefore n hn)) fun n hn =>
      onlyUsed_of_clear (clearAfter n hn)
    exact other_iff.1
      (Housed.other_child_inside hc clearBefore clearAfter within)

end Shown

section Program

variable {options : Options} {text : String} {tree : Node}
  {comments : CommentMap} {transformed : Transformed}

/-- In a result of the analysis, all uses of a name mean one variable without a
span. -/
def MeansOne (m : String) (t : String) (n : Node) : Prop :=
  ∀ r ∈ (Table.ofOutline (outline m n)).references, r.name = t →
    (Table.ofOutline (outline m n)).meaning r.scope r.name = some (newVar t)

/-- What the uses in an outline mean, the references of its table mean. -/
theorem meansOne_of_resolved {m t : String} {n : Node}
    (means : ∀ u ∈ resolvedAll [reachingAll .root (outline m n)]
      (outline m n), u.name = t → u.means = some (newVar t)) :
    MeansOne m t n := by
  intro r hr named
  have among : (Table.ofOutline (outline m n)).resolution r ∈
      resolvedAll [reachingAll .root (outline m n)] (outline m n) := by
    rw [← Table.resolve_ofOutline]
    exact List.mem_map_of_mem hr
  exact means _ among named

/-- **Where a rewrite of a program declares a temporary**, unless it lost it:
among its items, or in a home. -/
theorem hosted_of_rewrites {setting : Setting} {tree' : Node} {h : List String}
    {a : List RewrittenCall} (isProgram : Scope.isProgram tree.kind = true)
    (isRegular : regular tree = true)
    (rewritten : Rewrites setting [.place] [tree] [tree'] h a)
    (distinct : (temporaries a).Nodup) {t : String}
    (clear : t ∉ identifiers tree) (made : t ∈ temporaries a)
    (there : t ∈ identifiers tree') :
    ∃ b i s items, tree' = .node (.program b i) s items ∧ AllRegular items ∧
      (Hosts t items ∨ Housed (named t) (Home t) tree') := by
  obtain ⟨b, i, s, ns, ns', names, h', rfl, rfl, rfl, children, all⟩ :=
    rewrites_program isProgram rewritten
  obtain ⟨-, below, outer⟩ := regular_node.1 isRegular
  have each n (hn : n ∈ ns) := And.intro (below n hn) (outer n hn)
  have inside : AllClear t ns := (clear_node.1 (clear_iff.2 clear)).2
  have among := rewrites_sublist children
  have follows := (rewrites_located children (fit_place each) distinct
    inside).filter (plain_place ns) (staysIn setting.removals)
  have regularItems :
      AllRegular (declareIn names (ns'.filter (staysIn setting.removals))) :=
    allRegular_declareIn fun n hn => (rewrites_kept children
      (fit_place each)).regular n (List.mem_of_mem_filter hn)
  obtain ⟨-, still, elsewhere⟩ :=
    declares_or follows (plain_place ns) all (among.nodup distinct) among.subset
  refine ⟨b, i, s, _, rfl, regularItems, ?_⟩
  by_cases here : t ∈ h'
  · exact .inl (still here)
  · have placed := (elsewhere made here).node (k := .program b i) (s := s) nofun
    exact .inr
      (placed.single.resolve_right fun clear' => clear_iff.1 clear' there)

/-- **A rewrite of a program declares each temporary once**, unless it lost
it. -/
theorem declaredOnce_of_rewrites {setting : Setting} {tree' : Node}
    {h : List String} {a : List RewrittenCall}
    (isProgram : Scope.isProgram tree.kind = true)
    (isRegular : regular tree = true)
    (rewritten : Rewrites setting [.place] [tree] [tree'] h a)
    (distinct : (temporaries a).Nodup) {t : String}
    (clear : t ∉ identifiers tree) (made : t ∈ temporaries a)
    (there : t ∈ identifiers tree') (m : String) :
    DeclaredOnce t tree' ∧ MeansOne m t tree' := by
  obtain ⟨b, i, s, items, rfl, all, hosts | housed⟩ :=
    hosted_of_rewrites isProgram isRegular rewritten distinct clear made there
  · have declares :=
      declaresVar_of_hosts (m := m) hosts (fun n hn => (all n hn).1) {}
    refine ⟨declaredOnce_of_hosts hosts (fun _ => rfl) nofun,
      meansOne_of_resolved ?_⟩
    have said : outline m (.node (.program b i) s items) =
        saidAmong m {} items := outlines_toParts ..
    rw [said]
    refine declares.means _ ?_
    rw [lookUp_cons, declares.first .root rfl]
    rfl
  · refine ⟨declaredOnce_of_housed housed, meansOne_of_resolved ?_⟩
    have isRegular' : regular (.node (.program b i) s items) = true :=
      regular_node.2 ⟨rfl, fun n hn => (all n hn).1, fun n hn => (all n hn).2⟩
    have enclosed := said_of_housed (m := m)
      (allowsOthers_enclosed t (newVar t)) (fun n home isRegular c =>
      enclosed_home home isRegular c) isRegular' housed {}
    exact enclosed.means _

/-- **Temporaries are new, declared once and visible.** The names that a
transformation reports are pairwise different, and the program has no identifier
of that name. If the result has one, then exactly one declarator without a start
value declares it, all else that it names is an expression, and every use that
the analysis of the result records means the declared variable. -/
theorem temporaries_declared (isProgram : Scope.isProgram tree.kind = true)
    (isRegular : regular tree = true)
    (h : transformProgram options text tree comments = .ok transformed) :
    (transformed.report.temporaries.map Temporary.name).Nodup ∧
      ∀ t ∈ transformed.report.temporaries.map Temporary.name,
        t ∉ identifiers tree ∧
      (t ∈ identifiers transformed.tree → DeclaredOnce t transformed.tree ∧
        MeansOne options.importName t transformed.tree) := by
  rcases transformProgram_ok h with ⟨-, rfl⟩ | ⟨_, -, -, rfl⟩ | ⟨⟨performed⟩⟩
  · exact ⟨List.nodup_nil, nofun⟩
  · exact ⟨List.nodup_nil, nofun⟩
  · obtain ⟨h, a, rewritten, adv, made⟩ := performed.rewrites
    have made := made isProgram
    refine ⟨made.nodup_iff.2 adv.distinct, fun t ht => ?_⟩
    have ours := made.mem_iff.1 ht
    have clear : t ∉ identifiers tree := by
      have unused := adv.fresh t ours
      rwa [performed.used_eq, List.mem_eraseDups] at unused
    exact ⟨clear, fun there => declaredOnce_of_rewrites isProgram isRegular
      rewritten adv.distinct clear ours there options.importName⟩

end Program

/-- A program with a call in the declaration of the helper and one behind it. -/
def nestedRequireText : String :=
  "const idx = require('idx', () => idx(a, _ => _.b)); idx(c, _ => _.d);"

/-- The tree of `nestedRequireText`. -/
def nestedRequire : Node :=
  let thunk :=
    readAt (.arrow false) 27 49 [.ofList [], shortCall 33 "a" "b", .none, .none]
  let value := readAt .call 12 50 [readAt (.ident "require") 12 19 [],
    .ofList [readAt (.str "'idx'" (some "idx")) 20 25 [], thunk], .none]
  readAt (.program true none) 0 69 [readAt (.varDecl .const false) 0 51
    [readAt (.declarator false) 6 50 [readAt (.bindingIdent "idx" false) 6 9
    [.none], value]], readAt .exprStmt 52 69 [shortCall 52 "c" "d"]]

/-- Of the two temporaries that are made here the one of the call in the
declaration of the helper is lost with it, and the other one is declared. -/
theorem temporaries_declared_nestedRequire :
    ∃ transformed : Transformed, transformProgram
      {} nestedRequireText nestedRequire {} = .ok transformed ∧
      transformed.report.temporaries.map Temporary.name = ["_ref", "_ref2"] ∧
        "_ref" ∉ identifiers transformed.tree ∧ DeclaredOnce "_ref2"
        transformed.tree ∧ MeansOne "idx" "_ref2" transformed.tree := by
  obtain ⟨transformed, done⟩ : ∃ transformed, transformProgram
      {} nestedRequireText nestedRequire {} = .ok transformed := ⟨_, rfl⟩
  have declared := (temporaries_declared rfl (by decide +kernel) done).2 "_ref2"
  cases done
  exact ⟨_, rfl, by decide +kernel,
    by decide +kernel, (declared (by decide +kernel)).2 (by decide +kernel)⟩

end NullGuard.Transform
