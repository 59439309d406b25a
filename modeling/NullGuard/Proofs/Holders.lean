import NullGuard.Proofs.CallSites
import NullGuard.Proofs.Prologues
import NullGuard.Proofs.Temporaries

/-!
# Which temporary is whose

A rewrite replaces the planned calls of a program in the order of `sites`. Each
call with steps gets one temporary, which is recorded with the priority of the
body around the call, and no other call gets one (`Recorded`). In the result, a
body declares a new name only if it is the innermost body around the call that
the name was made for (`KeepsOwn`). Both together are the `Ledger` of the
rewrite.

`walks_ledger` proves both of every rewrite by an induction on its steps, with
one lemma for each step. The holder that is current at a step is the innermost
body around the place of the nodes in it, and a holder declares what was made in
it and is not declared further in. That the items of a body do not declare a new
name before the holder puts its declaration in front of them is taken from what
is known of the homes of names.

`temporaries_placed` says it of transformations.
-/

namespace NullGuard.Transform

open NullGuard.Text (Span)
open NullGuard.Tree NullGuard.Chain NullGuard.Scope

/-- A call that was replaced: where it stood, what it was taken apart to, and
its temporary. -/
structure Replaced where
  site : Site
  chain : AccessChain
  temporary : Option String

/-- The innermost body around a call that was replaced. -/
def Replaced.body (options : Options) (plan : Plan) (c : Replaced) : Body :=
  innermost options plan c.site.around

/-- How the temporary of a call is reported. -/
def Replaced.record (options : Options) (plan : Plan) (c : Replaced) :
    Option Temporary :=
  c.temporary.map fun t => ⟨t, (c.body options plan).priority⟩

/-- **What a rewrite does with some calls**, from one state to another: it
replaces them one by one, and leaves some temporaries to the body `outer`. -/
structure Recorded (setting : Setting) (outer : Body) (calls : List Site)
    (p p' : Progress) (done : List Replaced) : Prop where
  sites : done.map Replaced.site = calls
  chains : p'.chains = p.chains ++ done.map Replaced.chain
  temporary : ∀ c ∈ done, c.temporary.isSome = c.chain.needsTemporary
  temporaries : p'.temporaries = p.temporaries ++
    done.filterMap (Replaced.record setting.options setting.plan)
  priority : p'.holder.map Holder.priority = p.holder.map Holder.priority
  held : ∃ still : List Replaced, p'.held = p.held ++
    still.filterMap Replaced.temporary ∧
    ∀ c ∈ still, c ∈ done ∧ c.body setting.options setting.plan = outer

namespace Recorded

variable {setting : Setting} {outer : Body} {calls calls' : List Site}
  {p p' p'' : Progress} {done done' : List Replaced}

theorem refl (p : Progress) : Recorded setting outer [] p p [] where
  sites := rfl
  chains := (List.append_nil _).symm
  temporary := nofun
  temporaries := (List.append_nil _).symm
  priority := rfl
  held := ⟨[], (List.append_nil _).symm, nofun⟩

theorem trans (first : Recorded setting outer calls p p' done)
    (second : Recorded setting outer calls' p' p'' done') :
    Recorded setting outer (calls ++ calls') p p'' (done ++ done') where
  sites := by rw [List.map_append, first.sites, second.sites]
  chains := by
    rw [second.chains, first.chains, List.map_append, List.append_assoc]
  temporary := List.forall_mem_append.2 ⟨first.temporary, second.temporary⟩
  temporaries := by
    rw [second.temporaries, first.temporaries, List.filterMap_append,
      List.append_assoc]
  priority := second.priority.trans first.priority
  held := by
    obtain ⟨still, names, ours⟩ := first.held
    obtain ⟨still', names', ours'⟩ := second.held
    refine ⟨still ++ still', ?_, fun c hc => ?_⟩
    · rw [names', names, List.filterMap_append, List.append_assoc]
    rcases List.mem_append.1 hc with hc | hc
    · exact ⟨List.mem_append_left _ (ours c hc).1, (ours c hc).2⟩
    · exact ⟨List.mem_append_right _ (ours' c hc).1, (ours' c hc).2⟩

/-- Nothing depends on comments. -/
theorem withComments (rec : Recorded setting outer calls p p' done)
    (comments : CommentMap) :
    Recorded setting outer calls p { p' with comments := comments } done :=
  ⟨rec.sites, rec.chains, rec.temporary, rec.temporaries,
    rec.priority, rec.held⟩

/-- A holder leaves nothing to the bodies around it. -/
theorem holding {own : Body} {q : HoistPriority}
    (rec : Recorded setting own calls { p with holder := some ⟨q, []⟩ } p' done)
    (outer : Body) :
    Recorded setting outer calls p { p' with holder := p.holder } done where
  sites := rec.sites
  chains := rec.chains
  temporary := rec.temporary
  temporaries := rec.temporaries
  priority := rfl
  held := ⟨[], (List.append_nil _).symm, nofun⟩

/-- What a holder declares was made for calls that it is the innermost body
around of. -/
theorem of_holder {own : Body} {q : HoistPriority} {t : String}
    (rec : Recorded setting own calls { p with holder := some ⟨q, []⟩ } p' done)
    (ht : t ∈ p'.held) :
    ∃ c ∈ done, c.temporary = some t ∧
      c.body setting.options setting.plan = own := by
  obtain ⟨still, names, ours⟩ := rec.held
  have nothing : Progress.held { p with holder := some ⟨q, []⟩ } = [] := rfl
  rw [names, nothing, List.nil_append, List.mem_filterMap] at ht
  obtain ⟨c, hc, temporary⟩ := ht
  exact ⟨c, (ours c hc).1, temporary, (ours c hc).2⟩

/-- A call whose chain has no steps gets no temporary. -/
theorem base (rec : Recorded setting outer calls p p' done) (site : Site)
    {chain : AccessChain} (bare : chain.needsTemporary = false) :
    Recorded setting outer (calls ++ [site]) p { p' with chains := p'.chains ++
      [chain] } (done ++ [⟨site, chain, none⟩]) :=
  rec.trans
    { sites := rfl
      chains := rfl
      temporary := List.forall_mem_singleton.2 bare.symm
      temporaries := (List.append_nil _).symm
      priority := rfl
      held := ⟨[], (List.append_nil _).symm, nofun⟩ }

/-- A call whose chain has steps gets a temporary in the current holder. -/
theorem guarded (rec : Recorded setting outer calls p p' done) {site : Site}
    {chain : AccessChain} (needed : chain.needsTemporary = true)
    (within : innermost setting.options setting.plan site.around = outer)
    (priority : p.holder.map Holder.priority = some outer.priority) :
    Recorded setting outer (calls ++ [site]) p
      (Progress.addTemporary { p' with chains := p'.chains ++ [chain] }
      (p'.supply.fresh "ref").1 (p'.supply.fresh "ref").2)
      (done ++ [⟨site, chain, some (p'.supply.fresh "ref").1⟩]) := by
  -- A holder is open, and it has the priority of the body.
  obtain ⟨holder, innermost, same⟩ :=
    Option.map_eq_some_iff.1 (rec.priority.trans priority)
  refine rec.trans
    { sites := rfl
      chains := Progress.chains_addTemporary ..
      temporary := List.forall_mem_singleton.2 needed.symm
      temporaries := ?_
      priority := ?_
      held := ⟨[⟨site, chain, some (p'.supply.fresh "ref").1⟩], ?_,
        List.forall_mem_singleton.2 ⟨List.mem_cons_self, within⟩⟩ }
  · rw [List.filterMap_cons_some (by rfl), List.filterMap_nil, Replaced.body,
      within, ← same]
    simp only [Progress.addTemporary, innermost]
  · simp only [Progress.addTemporary, innermost, Option.map_some]
  · simp only [Progress.addTemporary, Progress.held, innermost, Option.map_some,
      Option.getD_some]
    rfl

end Recorded

/-- Some statements declare a name as temporaries are declared. -/
def DeclaredAmong (t : String) (items : List Node) : Prop :=
  ∃ names, varStatement names ∈ items ∧ t ∈ names

section Declared

variable {t : String} {items : List Node} {names : List String}

theorem declarator_mem (among : t ∈ names) :
    made (.declarator false) [made (.bindingIdent t false) [.none], .none] ∈
      (varStatement names).children :=
  List.mem_map_of_mem among

theorem not_declaredAmong_of_held (held : ∀ n ∈ items, Held t n) :
    ¬ DeclaredAmong t items := by
  rintro ⟨names, there, among⟩
  have declarator := (held _ there).used.child rfl (declarator_mem among)
  have name := declarator.used.child rfl List.mem_cons_self
  exact other_iff.1 name.other rfl

theorem not_declaredAmong_of_clear (clear : AllClear t items) :
    ¬ DeclaredAmong t items :=
  not_declaredAmong_of_held fun n hn => held_of_clear (clear n hn)

/-- In each of several nodes a name that is in its home is in it. -/
theorem Placed.of_mem {Home : Node → Prop} {n : Node} (h : Placed t Home items)
    (hn : n ∈ items) : Placed t Home [n] := by
  induction items with
  | nil => cases hn
  | cons m items ih =>
    rcases List.mem_cons.1 hn with rfl | hn
    · exact h.head
    · exact ih h.tail hn

/-- Statements that a name has its home inside of do not declare it
themselves. -/
theorem not_declaredAmong_of_placed (placed : Placed t (Home t) items) :
    ¬ DeclaredAmong t items := by
  rintro ⟨names, there, among⟩
  have declarators := (placed.of_mem there).children (noHome _ _ _ rfl)
  have name := ((declarators.of_mem (declarator_mem among)).children
    (noHome _ _ _ rfl)).of_mem List.mem_cons_self
  rcases name.single with housed | clear
  · exact other_iff.1 housed.other rfl
  · exact other_iff.1 clear.other rfl

variable {js : List Treatment} {ns' : List Node} {h ts : List String}

/-- Nodes that were rewritten do not declare a new name themselves. -/
theorem Follows.not_declaredAmong (follows : Follows t js ns' h ts)
    (plain : ∀ j ∈ js, isBody j = false) : ¬ DeclaredAmong t ns' := by
  by_cases made : t ∈ ts
  · by_cases still : t ∈ h
    · exact not_declaredAmong_of_held (follows.held still)
    · exact not_declaredAmong_of_placed
        ((follows.located made still).toPlaced plain)
  · exact not_declaredAmong_of_clear (follows.clear made)

/-- Nor do the statements of a block that was rewritten in its place. -/
theorem Follows.block_not_declaredAmong {s : Option Span}
    (follows : Follows t js [.node .block s items] h ts)
    (plain : ∀ j ∈ js, isBody j = false) : ¬ DeclaredAmong t items := by
  by_cases made : t ∈ ts
  · by_cases still : t ∈ h
    · have block := follows.held still _ List.mem_cons_self
      exact not_declaredAmong_of_held fun n hn => block.used.child rfl hn
    · exact not_declaredAmong_of_placed (((follows.located made still).toPlaced
        plain).children (noHome _ _ _ rfl))
  · exact not_declaredAmong_of_clear
      (clear_node.1 (follows.clear made _ List.mem_cons_self)).2

theorem varStatement_injective {names' : List String}
    (same : varStatement names = varStatement names') : names = names' := by
  have each : Function.Injective fun name =>
      made (.declarator false) [made (.bindingIdent name false) [.none],
        .none] := by
    intro x y same
    cases same
    rfl
  exact List.map_injective_iff.2 each (congrArg Node.children same)

/-- What a body declares is put in front of its items, or they declare it. -/
theorem declaredAmong_declareIn (h : DeclaredAmong t (declareIn names items)) :
    t ∈ names ∨ DeclaredAmong t items := by
  obtain ⟨names', there, among⟩ := h
  rcases declareIn_eq names items with ⟨same, -⟩ | ⟨front, back, same, rfl⟩
  · rw [same] at there
    exact .inr ⟨names', there, among⟩
  · rw [same] at there
    rcases List.mem_append.1 there with there | there
    · exact .inr ⟨names', List.mem_append_left _ there, among⟩
    · rcases List.mem_cons.1 there with new | there
      · exact .inl (varStatement_injective new ▸ among)
      · exact .inr ⟨names', List.mem_append_right _ there, among⟩

end Declared

/-- Where the body of a node declares a name, it was made for a call that this
is the innermost body around of. -/
def DeclaresOwn (options : Options) (plan : Plan) (done : List Replaced)
    (t : String) (n : Node) : Prop :=
  ∀ items, bodyItems? n = some items → DeclaredAmong t items → ∃ c ∈ done,
    c.temporary = some t ∧
    (c.body options plan).kind = n.kind ∧ (c.body options plan).span = n.span

/-- **What the bodies in rewritten nodes declare**, of the names that were new:
what was made for the calls they are innermost around. A node that is about to
become the body of another one declares what was made for the calls at its
place. -/
structure KeepsOwn (setting : Setting) (place : Nat → Path)
    (js : List Treatment) (ns ns' : List Node) (done : List Replaced) :
    Prop where
  inside : ∀ t, AllClear t ns →
    Everywhere (DeclaresOwn setting.options setting.plan done t) ns'
  top : ∀ (i : Nat) (j : Treatment) (n' : Node), js[i]? = some j → isBody j =
    true → ns'[i]? = some n' → ∀ t, AllClear t ns → ∀ items, blockItems? n' =
    some items → DeclaredAmong t items → ∃ c ∈ done, c.temporary = some t ∧
    c.body setting.options setting.plan =
      innermost setting.options setting.plan (place i)

section Own

variable {options : Options} {plan : Plan} {setting : Setting}
  {place : Nat → Path} {js : List Treatment} {n n' : Node}
  {ns ns' ms : List Node} {done done' : List Replaced} {t : String} {k : Kind}
  {s : Option Span} {items : List Node}

theorem DeclaresOwn.mono (h : DeclaresOwn options plan done t n)
    (sub : done ⊆ done') :
    DeclaresOwn options plan done' t n := by
  intro items has declares
  obtain ⟨c, hc, rest⟩ := h items has declares
  exact ⟨c, sub hc, rest⟩

/-- A node that has no body. -/
theorem declaresOwn_of_none (none : bodyItems? n = none) :
    DeclaresOwn options plan done t n := by
  intro items has
  cases none.symm.trans has

theorem declaresOwn_frames (k : Kind) (s : Option Span) (ms : List Node)
    (frame : isFrame k = true) :
    DeclaresOwn options plan done t (.node k s ms) :=
  declaresOwn_of_none (bodyItems?_of_frame frame)

theorem declaresOwn_declarator (x : String) : DeclaresOwn options plan done t
    (made (.declarator false) [made (.bindingIdent x false) [.none], .none]) :=
  declaresOwn_of_none rfl

theorem chaining_declaresOwn :
    Chaining (Everywhere (DeclaresOwn options plan done t)) where
  nil := everywhere_nil
  append := everywhere_append
  node _ _ chained h :=
    everywhere_node.2 ⟨declaresOwn_of_none (bodyItems?_of_chained chained), h⟩

/-- The items of a body are parts of parts of its node, or parts of the node. -/
theorem clear_bodyItems (clear : Clear (named t) n)
    (has : bodyItems? n = some items) : AllClear t items := by
  unfold bodyItems? at has
  split at has
  · cases has
    exact fun m hm => clear.child hm
  · obtain ⟨i, -, has⟩ := Option.bind_eq_some_iff.1 has
    obtain ⟨body, there, isBlock⟩ := Option.bind_eq_some_iff.1 has
    obtain ⟨s, rfl⟩ := eq_of_blockItems? isBlock
    exact fun m hm => (clear.child (List.mem_of_getElem? there)).child hm

/-- Where a name does not occur no body declares it. -/
theorem declaresOwn_of_clear (clear : AllClear t ns) :
    Everywhere (DeclaresOwn options plan done t) ns := by
  intro m hm items has declares
  obtain ⟨n, hn, inside⟩ := mem_subnodesAmong.1 hm
  have clearNode : Clear (named t) m :=
    fun p hp => clear n hn p ((mem_subnodes.1 inside).mentions hp)
  exact absurd declares
    (not_declaredAmong_of_clear (clear_bodyItems clearNode has))

theorem KeepsOwn.nil : KeepsOwn setting place [] [] [] [] :=
  ⟨fun _ _ => everywhere_nil, fun i j _ treated => by cases treated⟩

/-- Nodes side by side. -/
theorem KeepsOwn.cons {j : Treatment}
    (head : KeepsOwn setting place [j] [n] [n'] done)
    (tail : KeepsOwn setting (fun i => place (i + 1)) js ns ns' done') :
    KeepsOwn setting place (j :: js) (n :: ns) (n' :: ns') (done ++ done') where
  inside t clear := by
    obtain ⟨first, others⟩ := List.forall_mem_cons.1 clear
    exact everywhere_cons.2
      ⟨(head.inside t (List.forall_mem_singleton.2 first)).imp fun m h => h.mono
      (List.subset_append_left _ _), (tail.inside t others).imp fun m h =>
      h.mono (List.subset_append_right _ _)⟩
  top i j n' treated body there t clear items isBlock declares := by
    obtain ⟨first, others⟩ := List.forall_mem_cons.1 clear
    cases i with
    | zero =>
      obtain ⟨c, hc, rest⟩ := head.top 0 j n' treated body there t
        (List.forall_mem_singleton.2 first) items isBlock declares
      exact ⟨c, List.mem_append_left _ hc, rest⟩
    | succ i =>
      obtain ⟨c, hc, rest⟩ :=
        tail.top i j n' treated body there t others items isBlock declares
      exact ⟨c, List.mem_append_right _ hc, rest⟩

/-- A node that is not a body of another one. -/
theorem KeepsOwn.single {j : Treatment} (notBody : isBody j = false)
    (inside : ∀ t, Clear (named t) n →
      Everywhere (DeclaresOwn setting.options setting.plan done t) [n']) :
    KeepsOwn setting place [j] [n] [n'] done where
  inside t clear := inside t (clear n List.mem_cons_self)
  top i j' n' treated body := by
    cases i with
    | zero =>
      cases treated
      cases notBody.symm.trans body
    | succ i => cases treated

/-- A node that is a body of another one. -/
theorem KeepsOwn.body {j : Treatment}
    (inside : ∀ t, Clear (named t) n →
      Everywhere (DeclaresOwn setting.options setting.plan done t) [n'])
    (top : ∀ t, Clear (named t) n → ∀ items, blockItems? n' = some items →
      DeclaredAmong t items → ∃ c ∈ done, c.temporary = some t ∧
      c.body setting.options setting.plan =
        innermost setting.options setting.plan (place 0)) :
    KeepsOwn setting place [j] [n] [n'] done where
  inside t clear := inside t (clear n List.mem_cons_self)
  top i j' m treated body there t clear := by
    cases i with
    | zero =>
      cases there
      exact top t (clear n List.mem_cons_self)
    | succ i => cases treated

end Own

/-- A node has the parts that nodes of its kind have. -/
def Formed (n : Node) : Prop :=
  wellShaped n = true ∧ isComplete n = true

/-- **The ledger of a rewrite of some nodes**, each at a place of its own: the
calls in them are replaced in their order, and bodies declare their own names
only. -/
structure Ledger (setting : Setting) (outer : Body) (place : Nat → Path)
    (js : List Treatment) (ns ns' : List Node) (p p' : Progress)
    (done : List Replaced) : Prop where
  recorded : Recorded setting outer (sitesOf setting.plan place js ns) p p' done
  keeps : KeepsOwn setting place js ns ns' done

section Steps

variable {setting : Setting} {q : HoistPriority} {outer : Body}
  {place : Nat → Path} {around : Path} {js : List Treatment} {n n' : Node}
  {ns ns' : List Node} {p p' : Progress} {done : List Replaced} {t : String}
  {k : Kind} {s : Option Span}

/-- Where a new name is after a rewrite. -/
theorem Walks.follows (walk : Walks setting q js ns ns' p p')
    (fit : AllFit js ns) (clear : AllClear t ns) :
    ∃ h ts, Follows t js ns' h ts := by
  obtain ⟨h, a, rewritten, adv⟩ := walk.rewrites
  exact ⟨h, temporaries a, rewrites_located rewritten fit adv.distinct clear⟩

/-- **What rewritten items declare** is what their holder put in front of
them. -/
theorem mem_of_declaredAmong_held {names : List String} {stays : Node → Bool}
    (walk : Walks setting q (ns.map fun _ => .place) ns ns' p p')
    (all : AllRegular ns) (clear : AllClear t ns)
    (declared : DeclaredAmong t (declareIn names (ns'.filter stays))) :
    t ∈ names := by
  obtain ⟨h, ts, follows⟩ := walk.follows (fit_place all) clear
  refine (declaredAmong_declareIn declared).resolve_right ?_
  exact (follows.filter (plain_place ns) stays).not_declaredAmong
    (plain_place ns)

/-- What the body of an arrow function declares was put in front of its items,
if it was not a block that declared it. -/
theorem declaredAmong_arrowBody {names : List String} {items : List Node}
    (isBlock : blockItems? (arrowBody names n) = some items)
    (declared : DeclaredAmong t items) :
    t ∈ names ∨ ∃ s items', n = .node .block s items' ∧
      DeclaredAmong t items' := by
  unfold arrowBody at isBlock
  split at isBlock
  · cases isBlock
    exact (declaredAmong_declareIn declared).imp_right fun before =>
      ⟨_, _, rfl, before⟩
  · rename_i notBlock
    split at isBlock
    · obtain ⟨s, same⟩ := eq_of_blockItems? isBlock
      unfold unwrapConditional at same
      split at same
      · cases same
      · exact (notBlock _ _ same).elim
    · cases isBlock
      obtain ⟨names', there, among⟩ := declared
      rcases List.mem_cons.1 there with same | there
      · exact .inl (varStatement_injective same ▸ among)
      · cases List.mem_singleton.1 there

/-- Nodes that are no bodies and were rewritten in place are no blocks that
declare a new name. -/
theorem not_declaredAmong_of_place {items : List Node}
    (walk : Walks setting q [.place] [n] [n'] p p') (fit : Fit .place n)
    (clear : Clear (named t) n) (isBlock : blockItems? n' = some items) :
    ¬ DeclaredAmong t items := by
  obtain ⟨h, ts, follows⟩ :=
    walk.follows (.single fit) (List.forall_mem_singleton.2 clear)
  obtain ⟨s, rfl⟩ := eq_of_blockItems? isBlock
  exact follows.block_not_declaredAmong (List.forall_mem_singleton.2 rfl)

/-- Rewritten arrow functions declare what their holder has for them. -/
theorem mem_of_declaredAmong_arrowBody {names : List String} {items : List Node}
    (walk : Walks setting q [.place] [n] [n'] p p') (fit : Fit .place n)
    (clear : Clear (named t) n)
    (isBlock : blockItems? (arrowBody names n') = some items)
    (declared : DeclaredAmong t items) : t ∈ names := by
  refine (declaredAmong_arrowBody isBlock declared).resolve_right ?_
  rintro ⟨s, items', rfl, before⟩
  exact not_declaredAmong_of_place walk fit clear rfl before

/-- **The body of a node declares what was made for the calls in it.** -/
theorem KeepsOwn.node
    (keeps : KeepsOwn setting (fun i => (.node k s ns, i) :: around)
      (treatments k ns) ns ns' done) (same : ns'.length = ns.length)
    (inner : isProgram k = false) (complete : isComplete (.node k s ns) = true)
    (stays : movesOut setting.plan around (.node k s ns) = false)
    (clear : AllClear t ns) :
    Everywhere (DeclaresOwn setting.options setting.plan done t)
      [.node k s (finish setting.removals k ns')] := by
  refine everywhere_node.2 ⟨?_,
    (trims_finish _ k ns').everywhere declaresOwn_frames (keeps.inside t clear)⟩
  cases here : bodyIndex k with
  | none => exact declaresOwn_of_none (bodyItems?_of_kind inner here)
  | some i =>
    rw [finish_of_bodyIndex here]
    intro items has declared
    rw [bodyItems?, Node.kind_node, inner, if_neg Bool.false_ne_true, here,
      Option.bind_some] at has
    obtain ⟨body', there, isBlock⟩ := Option.bind_eq_some_iff.1 has
    have inside : i < ns'.length := (List.getElem?_eq_some_iff.1 there).1
    obtain ⟨j, treated⟩ : ∃ j, (treatments k ns)[i]? = some j :=
      ⟨_, List.getElem?_eq_getElem (by rwa [length_treatments, ← same])⟩
    obtain ⟨body, before⟩ : ∃ body, ns[i]? = some body :=
      ⟨_, List.getElem?_eq_getElem (by rwa [← same])⟩
    have isBody : isBody j = true := by
      rcases body_of_complete complete here treated before
        with ⟨rfl, -⟩ | ⟨rfl, -⟩ <;> rfl
    obtain ⟨c, hc, temporary, own⟩ :=
      keeps.top i j body' treated isBody there t clear items isBlock declared
    have isBodyAt : isBodyAt (.node k s ns) i = true := by
      rw [Transform.isBodyAt, Node.kind_node, here, beq_self_eq_true,
        Bool.or_true]
    rw [innermost_body isBodyAt stays] at own
    exact ⟨c, hc, temporary, congrArg Body.kind own, congrArg Body.span own⟩

/-- **The body of a function declares what was made for the calls in it.** -/
theorem KeepsOwn.function {b g : Bool}
    (keeps : KeepsOwn setting (fun i => (.node (.function b g) s ns, turn i) ::
      around) (functionTreatments ns) (inTurn ns) (inTurn ns') done)
    (same : ns'.length = ns.length)
    (complete : isComplete (.node (.function b g) s ns) = true)
    (stays : movesOut setting.plan around (.node (.function b g) s ns) = false)
    (clear : AllClear t ns) :
    Everywhere (DeclaresOwn setting.options setting.plan done t)
      [.node (.function b g) s ns'] := by
  have clearTurn : AllClear t (inTurn ns) :=
    fun n hn => clear n ((perm_inTurn ns).mem_iff.1 hn)
  have inside := keeps.inside t clearTurn
  refine everywhere_node.2 ⟨fun items has declared => ?_,
    everywhere_of_forall fun n hn => ?_⟩
  · obtain ⟨parameters, decorators, body, types, rfl, -⟩ :=
      parts_of_function complete
    obtain ⟨body', there, isBlock⟩ := Option.bind_eq_some_iff.1 has
    have third : (inTurn ns')[2]? = some body' := by
      rcases ns' with _ | ⟨_, _ | ⟨_, _ | ⟨_, _⟩⟩⟩ <;> exact there
    obtain ⟨c, hc, temporary, own⟩ :=
      keeps.top 2 .body body' rfl rfl third t clearTurn items isBlock declared
    rw [innermost_body (by rfl) stays] at own
    exact ⟨c, hc, temporary, congrArg Body.kind own, congrArg Body.span own⟩
  · exact inside.of_occurs ((perm_inTurn ns').mem_iff.2 hn) .here

theorem fit_inTurn {b g : Bool}
    (isRegular : regular (.node (.function b g) s ns) = true) :
    AllFit (functionTreatments ns) (inTurn ns) := by
  obtain ⟨-, below, outer⟩ := regular_node.1 isRegular
  intro i j n treated there
  have mem := (perm_inTurn ns).mem_iff.1 (List.mem_of_getElem? there)
  have notElsewhere : j ≠ .function ∧ j ≠ .items := by
    cases treated_of_treatments
      (show (treatments (.function b g) ns)[i]? = some j from treated) with
    | keep | place => exact ⟨nofun, nofun⟩
    | body isBody =>
      constructor <;> rintro rfl <;> cases isBody
    | function isMethod => cases isMethod
    | items isCase => cases isCase
  exact fit_plain (below n mem) (outer n mem) notElsewhere.1 notElsewhere.2

theorem Ledger.nil (p : Progress) :
    Ledger setting outer place [] [] [] p p [] :=
  ⟨.refl p, .nil⟩

theorem Ledger.cons {j : Treatment} {p'' : Progress} {done' : List Replaced}
    (head : Ledger setting outer place [j] [n] [n'] p p' done)
    (tail : Ledger setting outer
      (fun i => place (i + 1)) js ns ns' p' p'' done') :
    Ledger setting outer place (j :: js) (n :: ns) (n' :: ns') p p''
      (done ++ done') := by
  refine ⟨?_, head.keeps.cons tail.keeps⟩
  have calls : sitesOf setting.plan place (j :: js) (n :: ns) =
      sitesOf setting.plan place [j] [n] ++
      sitesOf setting.plan (fun i => place (i + 1)) js ns := by
    simp only [sitesOf, List.append_nil]
  rw [calls]
  exact head.recorded.trans tail.recorded

theorem Ledger.keep (p : Progress) (n : Node) :
    Ledger setting outer place [.keep] [n] [n] p p [] :=
  ⟨.refl p, .single rfl fun _ clear => declaresOwn_of_clear
    (List.forall_mem_singleton.2 clear)⟩

/-- **The ledger of a node** is that of its parts. -/
theorem Ledger.node
    (parts : Ledger setting outer (fun i => (.node k s ns, i) :: place 0)
      (treatments k ns) ns ns' p p' done) (same : ns'.length = ns.length)
    (inner : isProgram k = false)
    (notFunction : isFunction (.node k s ns) = false)
    (unplanned : plannedArguments? setting.plan (.node k s ns) = none)
    (complete : isComplete (.node k s ns) = true)
    (stays : movesOut setting.plan (place 0) (.node k s ns) = false)
    (comments : CommentMap) :
    Ledger setting outer place [.place] [.node k s ns]
      [.node k s (finish setting.removals k ns')] p
      { p' with comments := comments } done where
  recorded := by
    rw [sitesOf_single (by nofun),
      sites_node unplanned stays notFunction complete]
    exact parts.recorded.withComments comments
  keeps := .single rfl fun _ clear => parts.keeps.node same inner complete stays
    (clear_node.1 clear).2

/-- Items of which some are dropped. -/
theorem Ledger.items
    (parts : Ledger setting outer (fun i => (.node .list s ns, i) :: place 0)
      (ns.map fun _ => .place) ns ns' p p' done)
    (stays : movesOut setting.plan (place 0) (.node .list s ns) = false)
    (comments : CommentMap) :
    Ledger setting outer place [.items] [.node .list s ns]
      [.node .list s (ns'.filter (staysIn setting.removals))] p
      { p' with comments := comments } done where
  recorded := by
    rw [sitesOf_single (by nofun), sites_node (by rfl) stays rfl rfl]
    exact parts.recorded.withComments comments
  keeps := by
    refine .single rfl fun t clear => everywhere_node.2
      ⟨declaresOwn_frames _ _ _ rfl, ?_⟩
    exact (Trims.filter _ _).everywhere declaresOwn_frames
      (parts.keeps.inside t (clear_node.1 clear).2)

/-- **The ledger of a holder** is that of its items, and leaves nothing to the
bodies around. -/
theorem Ledger.block {r : HoistPriority}
    (walk : Walks setting r (ns.map fun _ => .place) ns ns'
      { p with holder := some ⟨q, []⟩ } p') (all : AllRegular ns)
    (items : Ledger setting (innermost setting.options setting.plan (place 0))
      (fun i => (.node .block s ns, i) :: place 0)
      (ns.map fun _ => .place) ns ns' { p with holder := some ⟨q, []⟩ } p' done)
    (stays : movesOut setting.plan (place 0) (.node .block s ns) = false)
    (outer : Body) (comments : CommentMap) :
    Ledger setting outer place [.body] [.node .block s ns] [.node .block s
      (declareIn p'.held (ns'.filter (staysIn setting.removals)))] p
      { p' with holder := p.holder, comments := comments } done where
  recorded := by
    rw [sitesOf_single (by nofun), sites_node (by rfl) stays rfl rfl]
    exact (items.recorded.holding outer).withComments comments
  keeps := by
    refine .body (fun t clear => everywhere_node.2
      ⟨declaresOwn_frames _ _ _ rfl, ?_⟩) fun t clear ms isBlock declared => ?_
    · have inside := items.keeps.inside t (clear_node.1 clear).2
      exact everywhere_declareIn declaresOwn_frames declaresOwn_declarator _
        ((Trims.filter _ _).everywhere declaresOwn_frames inside)
    · cases isBlock
      exact items.recorded.of_holder
        (mem_of_declaredAmong_held walk all (clear_node.1 clear).2 declared)

/-- **The ledger of the body of an arrow function**, which is a holder in any
case. -/
theorem Ledger.arrowBody {r : HoistPriority}
    (walk : Walks setting r [.place] [n] [n']
      { p with holder := some ⟨q, []⟩ } p') (fit : Fit .place n)
    (body : Ledger setting (innermost setting.options setting.plan (place 0))
      place [.place] [n] [n'] { p with holder := some ⟨q, []⟩ } p' done)
    (outer : Body) :
    Ledger setting outer place [.arrowBody] [n] [Transform.arrowBody p'.held n']
      p { p' with holder := p.holder } done where
  recorded := by
    have calls := body.recorded.holding outer
    rwa [sitesOf_single (by nofun)] at calls ⊢
  keeps := by
    refine .body (fun t clear => ?_) fun t clear items isBlock declared => ?_
    · have inside := body.keeps.inside t (List.forall_mem_singleton.2 clear)
      exact everywhere_arrowBody declaresOwn_frames
        declaresOwn_declarator _ inside
    · exact body.recorded.of_holder
        (mem_of_declaredAmong_arrowBody walk fit clear isBlock declared)

/-- A body that is missing. -/
theorem Ledger.noBlock {r : HoistPriority}
    (walk : Walks setting r [.place] [n] [n'] p p') (fit : Fit .place n)
    (inPlace : Ledger setting outer place [.place] [n] [n'] p p' done) :
    Ledger setting outer place [.body] [n] [n'] p p' done where
  recorded := by
    have calls := inPlace.recorded
    rwa [sitesOf_single (by nofun)] at calls ⊢
  keeps := by
    refine .body (fun t clear =>
      inPlace.keeps.inside t (List.forall_mem_singleton.2 clear))
      fun t clear items isBlock declared => ?_
    exact absurd declared (not_declaredAmong_of_place walk fit clear isBlock)

/-- **The ledger of a function** is that of its parts, which have a turn of
their own. -/
theorem Ledger.function {b g : Bool} {j : Treatment}
    (parts : Ledger setting outer
      (fun i => (.node (.function b g) s ns, turn i) :: place 0)
      (functionTreatments ns) (inTurn ns) (inTurn ns') p p' done)
    (same : (inTurn ns').length = (inTurn ns).length)
    (complete : isComplete (.node (.function b g) s ns) = true)
    (stays : movesOut setting.plan (place 0) (.node (.function b g) s ns) =
      false) (looked : j ≠ .keep) (notBody : isBody j = false) :
    Ledger setting outer place [j] [.node (.function b g) s ns]
      [.node (.function b g) s ns'] p p' done where
  recorded := by
    rw [sitesOf_single looked, sites_function complete]
    exact parts.recorded
  keeps := .single notBody fun _ clear =>
    parts.keeps.function (by rwa [length_inTurn, length_inTurn] at same)
      complete stays (clear_node.1 clear).2

/-- **The ledger of a planned call** is that of its arguments, with the call
behind them. No body is left of the call but those of its arguments. -/
theorem Ledger.call {l : Option Span} {items items' : List Node}
    {chain : AccessChain} {x : String} {c : Replaced} {p'' : Progress}
    (planned : plannedArguments? setting.plan n = some (.node .list l items))
    (arguments : Ledger setting outer (fun i => (.node .list l items, i) ::
      (n, 1) :: place 0) (argumentTreatments items) items items' p p' done)
    (taken : decompose setting.options.policy n.span (items'.map unwrapItem) =
      .ok chain)
    (replaced : Recorded setting outer (sitesOf setting.plan
      (fun i => (.node .list l items, i) :: (n, 1) :: place 0)
      (argumentTreatments items) items ++ [⟨calleeSpan n, place 0⟩]) p p''
      (done ++ [c])) :
    Ledger setting outer place [.place] [n] [chain.expression x] p p''
      (done ++ [c]) where
  recorded := by rwa [sitesOf_single (by nofun), sites_call planned]
  keeps := by
    refine .single rfl fun t clear => chaining_declaresOwn.expression
      (everywhere_decompose declaresOwn_frames taken ?_)
    have inside : AllClear t items :=
      fun m hm => (clear.child (occurs_of_planned planned)).child hm
    exact (arguments.keeps.inside t inside).imp fun m h =>
      h.mono (List.subset_append_left _ _)

/-- The ledger of a callback is that of its body, which moves out of it. -/
theorem Ledger.callbackArrow {b : Bool} {r : HoistPriority}
    {parameters body body' : Node} {types : List Node}
    (walk : Walks setting r [.place] [body] [body'] p p')
    (fit : Fit .place body)
    (inner : Ledger setting outer (fun _ => (.node (.arrow b) s (parameters ::
      body :: types), 1) :: place 0) [.place] [body] [body'] p p' done)
    (isCallback : isCallback setting.plan (place 0) = true) :
    Ledger setting outer place [.callback]
      [.node (.arrow b) s (parameters :: body :: types)]
      [.node (.arrow b) s (parameters :: body' :: types)] p p' done where
  recorded := by
    have calls := inner.recorded
    rw [sitesOf_single (by nofun)] at calls
    rwa [sitesOf_single (by nofun), sites_callback isCallback]
  keeps := by
    refine .single rfl fun t clear => everywhere_node.2
      ⟨fun items has declared => ?_, ?_⟩
    · have second :=
        (clear_node.1 clear).2 body (List.mem_cons_of_mem _ List.mem_cons_self)
      exact absurd declared (not_declaredAmong_of_place walk fit second has)
    · obtain ⟨first, rest⟩ := List.forall_mem_cons.1 (clear_node.1 clear).2
      obtain ⟨second, others⟩ := List.forall_mem_cons.1 rest
      refine everywhere_cons.2 ⟨declaresOwn_of_clear
        (List.forall_mem_singleton.2 first), everywhere_cons.2 ⟨?_, ?_⟩⟩
      · exact inner.keeps.inside t (List.forall_mem_singleton.2 second)
      · exact declaresOwn_of_clear others

/-- A callback in parentheses. -/
theorem Ledger.callbackInside (wraps : k = .paren ∨ k = .spread)
    (inner : Ledger setting outer (fun _ => (.node k s [n], 0) :: place 0)
      [.callback] [n] [n'] p p' done) :
    Ledger setting outer place [.callback] [.node k s [n]]
      [.node k s [n']] p p' done where
  recorded := by
    have calls := inner.recorded
    rw [sitesOf_single (by nofun)] at calls
    rwa [sitesOf_single (by nofun), sites_wrapped wraps]
  keeps := by
    refine .single rfl fun t clear => everywhere_node.2
      ⟨?_, inner.keeps.inside t (clear_node.1 clear).2⟩
    rcases wraps with rfl | rfl <;> exact declaresOwn_of_none rfl

/-- What stands in the place of a callback and is none. -/
theorem Ledger.noCallback
    (inPlace : Ledger setting outer place [.place] [n] [n'] p p' done) :
    Ledger setting outer place [.callback] [n] [n'] p p' done where
  recorded := by
    have calls := inPlace.recorded
    rwa [sitesOf_single (by nofun)] at calls ⊢
  keeps := .single rfl fun t clear => inPlace.keeps.inside t
    (List.forall_mem_singleton.2 clear)

/-- Everything that is asked of the arguments of a planned call in its place. -/
theorem arguments_of_planned {arguments : Node}
    (planned : plannedArguments? setting.plan n = some arguments)
    (isRegular : regular n = true) (formed : Everywhere Formed [n])
    (suits : Suits setting q outer around n .place) :
    ∃ l items, arguments = .node .list l items ∧
      innermost setting.options setting.plan around = outer ∧
      AllFit (argumentTreatments items) items ∧ Everywhere Formed items ∧
      AllSuit setting defaultPriority outer (fun i => (.node .list l items,
        i) :: (n, 1) :: around) (argumentTreatments items) items := by
  obtain ⟨l, items, rfl⟩ := list_of_planned planned
    (formed n (mem_subnodesAmong_single.2 (mem_subnodes.2 .here))).1
  have fits := fit_arguments (regular_plannedArguments planned isRegular)
  cases suits with
  | place usual within function =>
    have here :=
      within.resolve_left (List.ne_nil_of_mem (occurs_of_planned planned))
    obtain ⟨s, callee, rest, rfl, -⟩ := planned_cases planned
    obtain ⟨-, parts⟩ := everywhere_node.1 formed
    have list :=
      parts.of_occurs (List.mem_cons_of_mem _ List.mem_cons_self) .here
    exact ⟨l, items, rfl, here, fits, (everywhere_node.1 list).2,
      suits_arguments planned here⟩

theorem everywhere_inTurn {property : Node → Prop}
    (all : Everywhere property ns) :
    Everywhere property (inTurn ns) :=
  everywhere_of_forall fun _ hn => all.of_occurs
    ((perm_inTurn ns).mem_iff.1 hn) .here

/-- A function with all its parts has some. -/
theorem notFunction_of_empty (complete : isComplete n = true)
    (empty : n.children = []) : isFunction n = false := by
  obtain ⟨k, s, ns⟩ := n
  cases empty
  cases k
  case function => cases complete
  all_goals rfl

/-- **Every rewrite has a ledger**, wherever the nodes stand that it is
about. -/
theorem walks_ledger (walk : Walks setting q js ns ns' p p')
    (fit : AllFit js ns) (formed : Everywhere Formed ns)
    (suits : AllSuit setting q outer place js ns)
    (priority : p.holder.map Holder.priority = some outer.priority) :
    ∃ done, Ledger setting outer place js ns ns' p p' done := by
  induction walk generalizing outer place with
  | nil => exact ⟨[], .nil _⟩
  | cons head tail ih ih' =>
    obtain ⟨first, others⟩ := everywhere_cons.1 formed
    obtain ⟨done, ledger⟩ :=
      ih (.single fit.head) first (.single suits.head) priority
    obtain ⟨done', ledger'⟩ :=
      ih' fit.tail others suits.tail (ledger.recorded.priority.trans priority)
    exact ⟨done ++ done', ledger.cons ledger'⟩
  | keep n => exact ⟨[], .keep _ n⟩
  | @node q k s ns ns' p p' notProgram notFunction unplanned children
      comments ih =>
    obtain ⟨whole, below⟩ := everywhere_node.1 formed
    cases suits.head with
    | place usual within function =>
      have parts := suits_children usual notProgram notFunction unplanned
        whole.2 fit.head.regular within
      obtain ⟨done, ledger⟩ :=
        ih (fit_treatments fit.head.regular) below parts priority
      exact ⟨done, ledger.node children.length_eq notProgram notFunction
        unplanned whole.2 usual.stays comments⟩
  | program => cases fit.head.inner
  | @items q k s ns ns' p p' children comments ih =>
    obtain ⟨whole, below⟩ := everywhere_node.1 formed
    cases suits.head with
    | items usual isList within =>
      obtain rfl : k = .list := isList
      have parts :=
        suits_children usual rfl rfl rfl rfl fit.head.regular (.inr within)
      obtain ⟨done, ledger⟩ :=
        ih (fit_treatments fit.head.regular) below parts priority
      exact ⟨done, ledger.items usual.stays comments⟩
  | @block q s ns ns' p p' children comments ih =>
    obtain ⟨whole, below⟩ := everywhere_node.1 formed
    obtain ⟨-, regular, inner⟩ := regular_node.1 fit.head.regular
    cases suits.head with
    | body usual block own =>
      have all : AllRegular ns := fun n hn => ⟨regular n hn, inner n hn⟩
      have parts :=
        suits_children usual rfl rfl rfl rfl fit.head.regular (.inr rfl)
      obtain ⟨done, ledger⟩ :=
        ih (fit_place all) below parts (congrArg some own.symm)
      exact ⟨done, ledger.block children all usual.stays outer comments⟩
  | @noBlock q n n' p p' notBlock inPlace ih =>
    have fits : Fit .place n :=
      fit_plain fit.head.regular fit.head.inner nofun nofun
    cases suits.head with
    | body usual block own =>
      have empty : n.children = [] := by
        unfold isBlockOrEmpty at block
        rw [beq_false_of_ne notBlock, Bool.false_or] at block
        exact List.isEmpty_iff.1 block
      have whole :=
        (formed n (mem_subnodesAmong_single.2 (mem_subnodes.2 .here))).2
      have place : Suits setting q outer (place 0) n .place :=
        .place usual (.inl empty) fun isFunction => by
          cases (notFunction_of_empty whole empty).symm.trans isFunction
      obtain ⟨done, ledger⟩ := ih (.single fits) formed (.single place) priority
      exact ⟨done, ledger.noBlock inPlace fits⟩
  | @function q k s ns ns' p p' parts ih =>
    obtain ⟨whole, below⟩ := everywhere_node.1 formed
    cases suits.head with
    | function usual isFunction within own =>
      cases k with
      | function b g =>
        obtain ⟨done, ledger⟩ :=
          ih (fit_inTurn fit.head.regular) (everywhere_inTurn below)
          (suits_function usual whole.2 within own) priority
        exact ⟨done,
          ledger.function parts.length_eq whole.2 usual.stays nofun rfl⟩
      | _ => cases isFunction
  | @functionPlace q b g s ns ns' p p' parts ih =>
    obtain ⟨whole, below⟩ := everywhere_node.1 formed
    cases suits.head with
    | place usual within function =>
      have here := within.resolve_left fun empty => by
        obtain ⟨parameters, decorators, body, types, rfl, -⟩ :=
          parts_of_function whole.2
        cases empty
      obtain ⟨done, ledger⟩ :=
        ih (fit_inTurn fit.head.regular) (everywhere_inTurn below)
        (suits_function usual whole.2 here (function rfl)) priority
      exact ⟨done,
        ledger.function parts.length_eq whole.2 usual.stays nofun rfl⟩
  | @arrowBody q n n' p p' inPlace ih =>
    have fits : Fit .place n :=
      fit_plain fit.head.regular fit.head.inner nofun nofun
    cases suits.head with
    | arrowBody usual function own =>
      obtain ⟨done, ledger⟩ := ih (.single fits) formed
        (.single (.place usual (.inr rfl) function)) (congrArg some own.symm)
      exact ⟨done, ledger.arrowBody inPlace fits outer⟩
  | @base q n arguments arguments' chain p p' planned children taken bare ih =>
    obtain ⟨l, items, rfl, -, fits, below, suit⟩ :=
      arguments_of_planned planned fit.head.regular formed suits.head
    obtain ⟨done, ledger⟩ := ih fits below suit priority
    exact ⟨_, ledger.call planned taken
      (ledger.recorded.base ⟨calleeSpan n, place 0⟩ bare)⟩
  | @guarded q n arguments arguments' chain p p' planned children taken
      needed ih =>
    obtain ⟨l, items, rfl, here, fits, below, suit⟩ :=
      arguments_of_planned planned fit.head.regular formed suits.head
    obtain ⟨done, ledger⟩ := ih fits below suit priority
    exact ⟨_,
      ledger.call planned taken (ledger.recorded.guarded needed here priority)⟩
  | @callbackArrow q b s parameters body body' types p p' inner ih =>
    obtain ⟨-, below⟩ := everywhere_node.1 formed
    obtain ⟨-, regular, outer'⟩ := regular_node.1 fit.head.regular
    have there : body ∈ parameters :: body :: types :=
      List.mem_cons_of_mem _ List.mem_cons_self
    have fits : Fit .place body :=
      fit_plain (regular _ there) (outer' _ there) nofun nofun
    cases suits.head with
    | callback notArguments isCallback within function =>
      have suit : AllSuit setting defaultPriority outer
          (fun _ => (.node (.arrow b) s (parameters :: body :: types), 1) ::
          place 0) [.place] [body] :=
        .single (suits_callbackBody notArguments isCallback within)
      obtain ⟨done, ledger⟩ :=
        ih (.single fits) (below.of_occurs there .here) suit priority
      exact ⟨done, ledger.callbackArrow inner fits isCallback⟩
  | @callbackInside q k s n n' p p' wraps arrow inner ih =>
    obtain ⟨-, below⟩ := everywhere_node.1 formed
    obtain ⟨-, regular, outer'⟩ := regular_node.1 fit.head.regular
    cases suits.head with
    | callback notArguments isCallback within function =>
      have suit : AllSuit setting defaultPriority outer
          (fun _ => (.node k s [n], 0) :: place 0) [.callback] [n] :=
        .single (suits_callbackInside wraps arrow isCallback within)
      obtain ⟨done, ledger⟩ :=
        ih (.single (fit_plain (regular _ List.mem_cons_self)
        (outer' _ List.mem_cons_self) nofun nofun)) below suit priority
      exact ⟨done, ledger.callbackInside wraps⟩
  | @noCallback q n n' p p' notArrow notInside inPlace ih =>
    cases suits.head with
    | callback notArguments isCallback within function =>
      have whole :=
        (formed n (mem_subnodesAmong_single.2 (mem_subnodes.2 .here))).2
      obtain ⟨done, ledger⟩ :=
        ih (.single (fit_plain fit.head.regular fit.head.inner nofun nofun))
        formed (.single (suits_noCallback notArguments within whole function
        notArrow notInside)) priority
      exact ⟨done, ledger.noCallback⟩

end Steps

section Program

variable {setting : Setting} {q : HoistPriority} {tree tree' : Node}
  {p p' : Progress} {t : String}

/-- Statements that are the home of a name declare it. -/
theorem Hosts.declaredAmong {items : List Node} (hosts : Hosts t items) :
    DeclaredAmong t items := by
  cases hosts with
  | intro among => exact ⟨_, List.mem_append_right _ List.mem_cons_self, among⟩

/-- A home has a body that declares its name. -/
theorem Home.declares {n : Node} (home : Home t n) :
    ∃ items, bodyItems? n = some items ∧ DeclaredAmong t items := by
  cases home with
  | @intro k s before after body place declares _ _ =>
    cases declares with
    | @block s' items hosts =>
      refine ⟨items, ?_, hosts.declaredAmong⟩
      have inner : Scope.isProgram k = false := by
        cases k <;> first | rfl | cases place
      rw [bodyItems?, Node.kind_node, inner, if_neg Bool.false_ne_true,
        place, Option.bind_some, Node.children_node,
        List.getElem?_append_right (Nat.le_refl _), Nat.sub_self]
      rfl

/-- Where a name has its home, the home is. -/
theorem exists_home {Home : Node → Prop} {names : String × Option Span → Prop}
    {n : Node} (housed : Housed names Home n) : ∃ m ∈ subnodes n, Home m := by
  induction housed with
  | home _ home => exact ⟨_, mem_subnodes.2 .here, home⟩
  | inside other clearBefore clearAfter within ih =>
    obtain ⟨m, hm, home⟩ := ih
    exact ⟨m, mem_subnodes.2 (.inside
      (List.mem_append_right _ List.mem_cons_self) (mem_subnodes.1 hm)), home⟩

/-- **What a rewrite of a program does with the calls in it.** -/
theorem program_ledger (isProgram : Scope.isProgram tree.kind = true)
    (isRegular : regular tree = true) (formed : Everywhere Formed [tree])
    (walk : Walks setting q [.place] [tree] [tree'] p p') :
    ∃ done, Recorded setting ⟨tree.kind, tree.span, defaultPriority⟩
      (sites setting.plan [] tree) p p' done ∧
      ∀ t, Clear (named t) tree → Everywhere
        (DeclaresOwn setting.options setting.plan done t) [tree'] := by
  obtain ⟨b, i, s, ns, ns', r, comments, rfl, rfl, children, rfl⟩ :=
    walks_program isProgram walk
  obtain ⟨-, below, outer⟩ := regular_node.1 isRegular
  have all : AllRegular ns := fun n hn => ⟨below n hn, outer n hn⟩
  obtain ⟨done, ledger⟩ := walks_ledger children (fit_place all)
    (everywhere_node.1 formed).2 suits_program rfl
  refine ⟨done, ?_,
    fun t clear => everywhere_node.2 ⟨fun items has declared => ?_, ?_⟩⟩
  · rw [sites_node (by rfl) (by rfl) rfl rfl]
    exact (ledger.recorded.holding _).withComments comments
  · cases has
    have held :=
      mem_of_declaredAmong_held children all (clear_node.1 clear).2 declared
    obtain ⟨c, hc, temporary, own⟩ := ledger.recorded.of_holder held
    exact ⟨c, hc, temporary, congrArg Body.kind own, congrArg Body.span own⟩
  · have inside := ledger.keeps.inside t (clear_node.1 clear).2
    exact everywhere_declareIn declaresOwn_frames declaresOwn_declarator _
      ((Trims.filter _ _).everywhere declaresOwn_frames inside)

variable {options : Options} {text : String} {comments : CommentMap}
  {transformed : Transformed}

/-- **What a transformation did with the calls of a program** it carried out a
plan for. -/
structure TemporariesPlaced
    (performed : Performed options tree comments transformed)
    (done : List Replaced) : Prop where
  /-- The planned calls were replaced, each once, those in the arguments of a
  call before the call. -/
  sites : done.map Replaced.site = sites performed.plan [] tree
  chains : done.map Replaced.chain = performed.progress.chains
  counted : transformed.report.callsRewritten = done.length
  /-- A call has a temporary just if its chain has a step. -/
  temporary : ∀ c ∈ done, c.temporary.isSome = !c.chain.steps.isEmpty
  distinct : (done.filterMap Replaced.temporary).Nodup
  /-- The report lists the temporaries in the order of the calls, each with the
  priority of the body around its call. -/
  reported : transformed.report.temporaries =
    done.filterMap (Replaced.record options performed.plan)
  /-- If the result has a temporary at all, a body declares it. -/
  declared : ∀ c ∈ done, ∀ t, c.temporary = some t →
    t ∈ identifiers transformed.tree → ∃ n ∈ subnodes transformed.tree,
    ∃ items, bodyItems? n = some items ∧
    DeclaredAmong t items
  /-- A body that declares a temporary is the innermost one around its call. -/
  held : ∀ c ∈ done, ∀ t, c.temporary = some t →
    ∀ n ∈ subnodes transformed.tree, ∀ items, bodyItems? n = some items →
    DeclaredAmong t items → n.kind = (c.body options performed.plan).kind ∧
    n.span = (c.body options performed.plan).span

/-- Where no two elements give the same, an element is known by what it
gives. -/
theorem eq_of_nodup_filterMap {α β : Type} {f : α → Option β} {l : List α}
    (distinct : (l.filterMap f).Nodup) {x y : α} {b : β} (hx : x ∈ l)
    (hy : y ∈ l) (ofX : f x = some b) (ofY : f y = some b) : x = y := by
  induction l with
  | nil => cases hx
  | cons a l ih =>
    have later {z : α} (hz : z ∈ l) (ofZ : f z = some b) (ofA : f a = some b) :
        False := by
      rw [List.filterMap_cons_some ofA] at distinct
      exact (List.nodup_cons.1 distinct).1 (List.mem_filterMap.2 ⟨z, hz, ofZ⟩)
    rcases List.mem_cons.1 hx with rfl | hx' <;> rcases List.mem_cons.1 hy
      with rfl | hy'
    · rfl
    · exact (later hy' ofY ofX).elim
    · exact (later hx' ofX ofY).elim
    · refine ih ?_ hx' hy'
      cases gives : f a with
      | none => rwa [List.filterMap_cons_none gives] at distinct
      | some c =>
        exact (List.nodup_cons.1 (List.filterMap_cons_some gives ▸ distinct)).2

/-- The names of the temporaries that are reported. -/
theorem map_name_record (options : Options) (plan : Plan)
    (done : List Replaced) :
    (done.filterMap (Replaced.record options plan)).map Temporary.name =
      done.filterMap Replaced.temporary := by
  rw [List.map_filterMap]
  refine List.filterMap_congr fun c _ => ?_
  rw [Replaced.record]
  cases c.temporary <;> rfl

/-- **Temporaries go to the innermost body around their calls.** A
transformation replaces the planned calls of a program in their order. A call
gets one temporary if its chain has a step, and else none. The temporaries are
reported in the order of the calls, with the option for asynchronous methods as
the priority in such a method and with the usual one elsewhere. Each that the
result contains is declared by the innermost body around its call and by no
other body. -/
theorem temporaries_placed (wellRead : WellRead tree)
    (complete : ∀ m ∈ subnodes tree, isComplete m = true)
    (h : transformProgram options text tree comments = .ok transformed) :
    transformed.report.callsRewritten = 0 ∧
      transformed.report.temporaries = [] ∨
        ∃ (performed : Performed options tree comments transformed)
        (done : List Replaced), TemporariesPlaced performed done := by
  rcases transformProgram_ok h with ⟨-, rfl⟩ | ⟨_, -, -, rfl⟩ | ⟨⟨performed⟩⟩
  · exact .inl ⟨rfl, rfl⟩
  · exact .inl ⟨rfl, rfl⟩
  · refine .inr ⟨performed, ?_⟩
    have walk : Walks performed.setting defaultPriority
        [.place] [tree] [transformed.tree]
        { supply := performed.analysis.names, comments := comments }
        performed.progress :=
      (rewrite_walks performed.setting tree).place performed.rewritten
    have formed : Everywhere Formed [tree] := fun m hm =>
      have inside := mem_subnodesAmong_single.1 hm
      ⟨wellRead.shaped m inside, complete m inside⟩
    obtain ⟨done, recorded, keeps⟩ :=
      program_ledger wellRead.isProgram wellRead.regular formed walk
    obtain ⟨g, a, rewritten, adv, all⟩ := performed.rewrites
    have reported : transformed.report.temporaries =
        done.filterMap (Replaced.record options performed.plan) := by
      rw [performed.report]
      exact recorded.temporaries
    have chains : performed.progress.chains = done.map Replaced.chain :=
      recorded.chains
    have made : (done.filterMap Replaced.temporary).Perm (temporaries a) := by
      rw [← map_name_record options performed.plan, ← reported]
      exact all wellRead.isProgram
    have distinct := made.nodup_iff.2 adv.distinct
    have ours {c : Replaced} {t : String} (hc : c ∈ done)
        (temporary : c.temporary = some t) : t ∈ temporaries a :=
      made.mem_iff.1 (List.mem_filterMap.2 ⟨c, hc, temporary⟩)
    have new {t : String} (among : t ∈ temporaries a) :
        t ∉ identifiers tree := by
      have unused := adv.fresh t among
      rwa [performed.used_eq, List.mem_eraseDups] at unused
    refine ⟨done, recorded.sites, chains.symm, ?_, recorded.temporary, distinct,
      reported, ?_, ?_⟩
    · rw [performed.report]
      exact (congrArg List.length chains).trans (List.length_map _)
    · intro c hc t temporary there
      have among := ours hc temporary
      obtain ⟨b, i, s, items, same, -, hosts | housed⟩ :=
        hosted_of_rewrites wellRead.isProgram wellRead.regular rewritten
          adv.distinct (new among) among there
      · rw [same]
        exact ⟨_, mem_subnodes.2 .here, items, rfl, hosts.declaredAmong⟩
      · obtain ⟨n, hn, home⟩ := exists_home housed
        exact ⟨n, hn, home.declares⟩
    · intro c hc t temporary n hn items has declared
      obtain ⟨c', hc', temporary', kind, span⟩ :=
        keeps t (clear_iff.2 (new (ours hc temporary))) n
        (mem_subnodesAmong_single.2 hn) items has declared
      rw [eq_of_nodup_filterMap distinct hc hc' temporary temporary']
      exact ⟨kind.symm, span.symm⟩

end Program

/-- An asynchronous method with a call in its parameter and one in its body. -/
def asyncMethodText : String :=
  "import idx from 'idx'; " ++
    "class A { async m(x = idx(a, _ => _.b)) { idx(c, _ => _.d); } }"

/-- The tree of `asyncMethodText`. -/
def asyncMethod : Node :=
  let parameter := readAt .param 41 61 [.ofList [], readAt .assignPat 41 61
    [readAt (.bindingIdent "x" false) 41 42 [.none], shortCall 45 "a" "b"]]
  let body :=
    readAt .block 63 84 [readAt .exprStmt 65 82 [shortCall 65 "c" "d"]]
  let function := readAt (.function true false) 33 84
    [.ofList [parameter], .ofList [], body, .none, .none]
  let method := readAt (.method .method {}) 33 84
    [readAt (.propName "m") 39 40 [], function]
  readAt (.program true none) 0 86 [shortImport, readAt (.classDecl false) 23 86
    [readAt (.name "A") 29 30 [], readAt (.classBody false) 23 86
    [.ofList [], .ofList [method], .none, .none, .none, .ofList []]]]

/-- The temporary of the parameter is one of the program, and the one of the
body is one of the method. -/
theorem temporaries_placed_asyncMethod :
    ∃ transformed : Transformed, transformProgram {} asyncMethodText asyncMethod
      {} = .ok transformed ∧
      transformed.report.temporaries = [⟨"_ref", 2⟩, ⟨"_ref2", 3⟩] ∧
      ∃ (performed : Performed {} asyncMethod {} transformed)
        (done : List Replaced), TemporariesPlaced performed done ∧
      done.map (Replaced.body {} performed.plan) = [⟨.program true none,
        some ⟨0, 86⟩, 2⟩, ⟨.function true false, some ⟨33, 84⟩, 3⟩] := by
  obtain ⟨transformed, ok, reported⟩ : ∃ transformed,
      transformProgram {} asyncMethodText asyncMethod {} = .ok transformed ∧
      transformed.report.temporaries = [⟨"_ref", 2⟩, ⟨"_ref2", 3⟩] :=
    exists_of_check (by decide +kernel)
  rcases temporaries_placed ⟨rfl,
    by decide +kernel, by decide +kernel, by decide +kernel, by decide +kernel⟩
    (by decide +kernel) ok with ⟨-, none⟩ | ⟨performed, done, placed⟩
  · cases none.symm.trans reported
  · refine ⟨transformed, ok, reported, performed, done, placed, ?_⟩
    have bodies : done.map (Replaced.body {} performed.plan) =
        (sites performed.plan [] asyncMethod).map fun c =>
        innermost {} performed.plan c.around := by
      rw [← placed.sites, List.map_map]
      rfl
    rw [bodies]
    obtain ⟨analysis, plan, progress, analyzed, planned, -⟩ := performed
    cases analyzed
    cases planned
    dsimp only
    decide +kernel

end NullGuard.Transform
