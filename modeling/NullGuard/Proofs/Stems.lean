import NullGuard.Proofs.Callees
import NullGuard.Proofs.Frame
import NullGuard.Proofs.Hygiene
import NullGuard.Proofs.Subtrees

/-!
# Where the calls and declarations of a result come from

A rewrite makes new calls and declarations: the levels of a chain are calls, and
temporaries are declared. All other calls, imports and declarators of the result
*stem* from one of the program: they are what became of it in its own place
(`rewrites_stem`).

What a name does is decided close to it. So if every call that was rewritten
needed a temporary, and became a conditional that way, what is called in the
result was called in the program (`called_of_stemming`), and what declares the
helper in the result declared it in the program (`introduces_of_stemming`).
-/

namespace NullGuard.Transform

open NullGuard.Text (Span)
open NullGuard.Tree NullGuard.Chain NullGuard.Scope

section Rewrites

variable {setting : Setting} {js : List Treatment} {n n' : Node} {k : Kind}
  {s : Option Span} {ns ns' ms ls : List Node} {h : List String}
  {a : List RewrittenCall}

/-- What is taken out of made parentheses is a conditional. -/
theorem unwrap_of_rewrites (rewritten : Rewrites setting [.place] [n] [n'] h a)
    (inner : isProgram n.kind = false) (guarded : AllGuarded a)
    (written : Written n) :
    unwrap n' = n' ∨ (unwrap n').kind = .cond := by
  rcases rewrites_single rewritten inner guarded
    with ⟨-, ns', h', rfl, -⟩ | ⟨-, s, ns, rfl⟩
  · refine .inl ?_
    obtain ⟨k, s, ns⟩ := n
    unfold unwrap
    split
    · rename_i whole
      simp only [Node.node.injEq, Node.kind_node, Node.span_node] at whole
      obtain ⟨rfl, rfl, -⟩ := whole
      cases written.self
    · rfl
  · exact .inr rfl

/-- A node that says what the names close to it do: a call, an import or a
declarator. -/
def IsSource (n : Node) : Prop :=
  n.kind = .call ∨ isDeclaration n.kind = true

/-- A call or declarator that a rewrite makes, with its temporaries. -/
inductive Fresh (ts : List String) : Node → Prop where
  | call {object : Node} {rest : List Node}
      (callee : (∃ t ∈ ts, object = temporary t) ∨ object.kind = .member) :
      Fresh ts (made .call (object :: rest))
  | declarator (x : String) :
      Fresh ts
        (made (.declarator false) [made (.bindingIdent x false) [.none], .none])

/-- A node is one of several nodes or stands in one, or is what became of such a
node in its place. -/
def Stems (setting : Setting) (ns : List Node) (m' : Node) : Prop :=
  ∃ m ∈ subnodesAmong ns, m' = m ∨
    ∃ h a, Rewrites setting [.place] [m] [m'] h a ∧
    AllGuarded a

/-- All calls and declarations in some nodes are made with certain temporaries
or stem from other nodes. -/
def Stemming (setting : Setting) (ts : List String) (ns ms : List Node) :
    Prop :=
  Everywhere (fun m' => IsSource m' → Fresh ts m' ∨ Stems setting ns m') ms

section Stemming

variable {ts ts' : List String}

theorem not_isSource (notCall : k ≠ .call)
    (noDeclaration : isDeclaration k = false) :
    ¬ IsSource (.node k s ns) :=
  fun isSource => isSource.elim notCall fun declares => by
    cases declares.symm.trans noDeclaration

theorem Fresh.mono (more : ts ⊆ ts') (h : Fresh ts n) : Fresh ts' n := by
  cases h with
  | call callee =>
    refine .call (callee.imp_left fun isTemporary => ?_)
    obtain ⟨t, ht, same⟩ := isTemporary
    exact ⟨t, more ht, same⟩
  | declarator x => exact .declarator x

theorem Stemming.mono (h : Stemming setting ts ns ls) (more : ts ⊆ ts')
    (sub : ∀ m ∈ subnodesAmong ns, m ∈ subnodesAmong ms) :
    Stemming setting ts' ms ls := by
  intro m' hm' isSource
  rcases h m' hm' isSource with fresh | ⟨m, hm, became⟩
  · exact .inl (fresh.mono more)
  · exact .inr ⟨m, sub m hm, became⟩

theorem Stemming.refl (ns : List Node) : Stemming setting ts ns ns :=
  fun m' hm' _ => .inr ⟨m', hm', .inl rfl⟩

theorem Stemming.cons (head : Stemming setting ts ns [n])
    (tail : Stemming setting ts ns ms) :
    Stemming setting ts ns (n :: ms) :=
  everywhere_cons.2 ⟨head, tail⟩

theorem Stemming.of_cons (h : Stemming setting ts ns (n :: ms)) :
    Stemming setting ts ns [n] ∧ Stemming setting ts ns ms :=
  everywhere_cons.1 h

theorem stemming_nil : Stemming setting ts ns [] :=
  everywhere_nil

/-- A node that is neither a call nor a declaration. -/
theorem Stemming.around (notCall : k ≠ .call)
    (noDeclaration : isDeclaration k = false)
    (inside : Stemming setting ts ns ms) :
    Stemming setting ts ns [.node k s ms] :=
  everywhere_node.2 ⟨fun isSource => absurd isSource
    (not_isSource notCall noDeclaration), inside⟩

/-- What stands in some nodes stands in a node around them. -/
theorem subnodes_around (k : Kind) (s : Option Span) :
    ∀ m ∈ subnodesAmong ns, m ∈ subnodesAmong [Node.node k s ns] :=
  fun _ hm => mem_subnodesAmong_single.2 (mem_subnodes_node.2 (.inr hm))

/-- Nodes that are put around others are neither calls nor declarations. -/
theorem stemming_frames (k : Kind) (s : Option Span) (ms : List Node)
    (frame : isFrame k = true) :
    IsSource (.node k s ms) → Fresh ts (.node k s ms) ∨
      Stems setting ns (.node k s ms) := by
  refine fun isSource => absurd isSource (not_isSource ?_ ?_)
  · rintro rfl
    cases frame
  · cases k <;> first | rfl | cases frame

theorem stemming_declarator (x : String) :
    IsSource (made (.declarator false) [made (.bindingIdent x false) [.none],
      .none]) → Fresh ts (made (.declarator false)
      [made (.bindingIdent x false) [.none], .none]) ∨ Stems setting ns (made
      (.declarator false) [made (.bindingIdent x false) [.none], .none]) :=
  fun _ => .inl (.declarator x)

theorem Trims.stemming (trims : Trims ms ls) (h : Stemming setting ts ns ms) :
    Stemming setting ts ns ls :=
  trims.everywhere stemming_frames h

theorem stemming_temporary (t : String) :
    Stemming setting ts ns [temporary t] :=
  .around (by simp) rfl stemming_nil

/-- A level makes calls of the temporary and of its members. -/
theorem stemming_apply {t : String} (ht : t ∈ ts) {l : Level}
    (h : Stemming setting ts ns (levelPieces l)) :
    Stemming setting ts ns [l.apply (temporary t)] := by
  have member {property : Node} (key : Stemming setting ts ns [property]) :
      Stemming setting ts ns [made .member [temporary t, property]] :=
    .around (by simp) rfl (.cons (stemming_temporary t) key)
  have call {callee types : Node} {arguments : List Node}
      (called : (∃ t ∈ ts, callee = temporary t) ∨ callee.kind = .member)
      (front : Stemming setting ts ns [callee]) (behind : Stemming setting ts ns
      ((arguments ++ [types]) ++ [])) : Stemming setting ts ns
      [made .call [callee, .ofList arguments, types]] := by
    obtain ⟨given, last⟩ := everywhere_append.1 (everywhere_append.1 behind).1
    have list : Stemming setting ts ns [.ofList arguments] :=
      .around (by simp) rfl given
    exact everywhere_node.2 ⟨fun _ => .inl (.call called),
      Stemming.cons front (.cons list last)⟩
  cases l with
  | member property => exact member h
  | call arguments types =>
    exact call (.inl ⟨t, ht, rfl⟩) (stemming_temporary t) h
  | method property arguments types =>
    obtain ⟨key, behind⟩ := h.of_cons
    exact call (.inr rfl) (member key) behind

theorem stemming_guarded {t : String} {value more : Node}
    (hv : Stemming setting ts ns [value]) (hm : Stemming setting ts ns [more]) :
    Stemming setting ts ns [guarded s t value more] := by
  have assignment :
      Stemming setting ts ns [made (.assign .plain) [temporary t, value]] :=
    .around (by simp) rfl (.cons (stemming_temporary t) hv)
  have test : Stemming setting ts ns [made (.binary .notEq) [parenthesized
      (made (.assign .plain) [temporary t, value]), made .null []]] :=
    .around (by simp) rfl (.cons (.around (by simp) rfl assignment)
      (.around (by simp) rfl stemming_nil))
  exact .around (by simp) rfl (.cons test (.cons hm (stemming_temporary t)))

theorem stemming_guardedLevels {t : String} (ht : t ∈ ts) {levels : List Level}
    (h : Stemming setting ts ns (levels.flatMap levelPieces)) :
    Stemming setting ts ns [guardedLevels t levels] := by
  fun_induction guardedLevels t levels with
  | case1 => exact stemming_temporary t
  | case2 last =>
    rw [List.flatMap_cons, List.flatMap_nil, List.append_nil] at h
    exact stemming_apply ht h
  | case3 level rest _ ih =>
    rw [List.flatMap_cons] at h
    obtain ⟨first, others⟩ := everywhere_append.1 h
    exact stemming_guarded (stemming_apply ht first) (ih others)

theorem stemming_expression {t : String} (ht : t ∈ ts) {c : AccessChain}
    (h : Stemming setting ts ns (c.base :: pieces c.steps)) :
    Stemming setting ts ns [c.expression t] := by
  obtain ⟨base, steps⟩ := h.of_cons
  rw [← flatMap_levels] at steps
  have inParens {n : Node} (inside : Stemming setting ts ns [n]) :
      Stemming setting ts ns [parenthesized n] :=
    .around (by simp) rfl inside
  unfold AccessChain.expression
  split
  · exact inParens base
  · exact inParens (stemming_guarded base (stemming_guardedLevels ht steps))

/-- **All calls and declarations of a result stem from the program**, or are
made with temporaries. -/
theorem rewrites_stem (rewritten : Rewrites setting js ns ns' h a)
    (fit : AllFit js ns) (guarded : AllGuarded a) :
    Stemming setting (temporaries a) ns ns' := by
  induction rewritten with
  | nil => exact stemming_nil
  | @cons j js n n' ns ns' h g a b head tail ih ih' =>
    obtain ⟨first, others⟩ := guarded.of_append
    rw [temporaries_append]
    exact .cons ((ih (.single fit.head) first).mono
      (List.subset_append_left _ _) fun m hm =>
        mem_subnodesAmong_cons.2 (.inl (mem_subnodesAmong_single.1 hm)))
      ((ih' fit.tail others).mono (List.subset_append_right _ _) fun m hm =>
        mem_subnodesAmong_cons.2 (.inr hm))
  | keep n => exact .refl [n]
  | @node k s ns ns' h a notProgram unplanned children ih =>
    have below := (ih (fit_treatments fit.head.regular) guarded).mono
      (List.Subset.refl _) (subnodes_around k s)
    refine everywhere_node.2 ⟨fun _ => .inr ⟨.node k s ns,
      mem_subnodesAmong_single.2 (mem_subnodes.2 .here), .inr ?_⟩,
      (trims_finish setting.removals k ns').stemming below⟩
    exact ⟨h, a, .node notProgram unplanned children, guarded⟩
  | program children all ih => cases fit.head.inner
  | @items k s ns ns' h a children ih =>
    have isList : k = .list := eq_of_beq (fit.head.items rfl)
    subst isList
    obtain ⟨-, below, outer⟩ := regular_node.1 fit.head.regular
    have inside := (ih (fit_place fun n hn => ⟨below n hn, outer n hn⟩)
      guarded).mono (List.Subset.refl _) (subnodes_around .list s)
    exact .around (by simp) rfl
      ((Trims.filter (staysIn setting.removals) ns').stemming inside)
  | @block s ns ns' names h a children all ih =>
    obtain ⟨-, below, outer⟩ := regular_node.1 fit.head.regular
    have inside := (ih (fit_place fun n hn => ⟨below n hn, outer n hn⟩)
      guarded).mono (List.Subset.refl _) (subnodes_around .block s)
    exact .around (by simp) rfl
      (everywhere_declareIn stemming_frames stemming_declarator names
      ((Trims.filter (staysIn setting.removals) ns').stemming inside))
  | noBlock notBlock inPlace ih =>
    exact ih (.single (fit_plain fit.head.regular fit.head.inner (by decide)
      (by decide))) guarded
  | @function k s ns ns' h a parts ih =>
    have fits := fit.head.function rfl
    cases k with
    | function b g =>
      have inside := (ih (fit_treatments (k := .function b g) fit.head.regular)
        guarded).mono (List.Subset.refl _) (subnodes_around (.function b g) s)
      exact .around (by simp) rfl inside
    | _ => cases fits
  | arrowBody inPlace all ih =>
    exact everywhere_arrowBody stemming_frames stemming_declarator _
      (ih (.single (fit_plain fit.head.regular fit.head.inner (by decide)
      (by decide))) guarded)
  | base => cases guarded _ (List.mem_append_right _ List.mem_cons_self)
  | @guarded n arguments arguments' chain t h a planned children taken
      needed ih =>
    have inside := ih (fit_arguments
      (regular_plannedArguments planned fit.head.regular)) guarded.of_append.1
    rw [temporaries_append]
    have given : Stemming setting (temporaries a ++
        temporaries [⟨calleeSpan n, some t⟩]) arguments.children arguments' :=
      inside.mono (List.subset_append_left _ _) fun _ hm => hm
    have taken := everywhere_decompose stemming_frames taken given
    refine (stemming_expression (List.mem_append_right _ List.mem_cons_self)
      taken).mono (List.Subset.refl _) fun m hm => ?_
    obtain ⟨k, s, ns⟩ := n
    obtain ⟨k', s', ms⟩ := arguments
    refine mem_subnodesAmong_single.2 (mem_subnodes_node.2 (.inr ?_))
    exact mem_subnodesAmong.2 ⟨_, occurs_of_planned planned,
      mem_subnodes_node.2 (.inr hm)⟩
  | @callbackArrow b s parameters body body' types h a inner ih =>
    obtain ⟨-, below, outer⟩ := regular_node.1 fit.head.regular
    have second : body ∈ parameters :: body :: types :=
      List.mem_cons_of_mem _ List.mem_cons_self
    have inside := ih (.single (fit_plain (below _ second) (outer _ second)
      (by decide) (by decide))) guarded
    have whole : Stemming setting (temporaries a) [.node (.arrow b) s
        (parameters :: body :: types)] (parameters :: body :: types) :=
      .mono (.refl _) (List.Subset.refl _) (subnodes_around _ _)
    refine .around (by simp) rfl ?_
    obtain ⟨first, others⟩ := whole.of_cons
    obtain ⟨-, last⟩ := others.of_cons
    refine .cons
      first (.cons (inside.mono (List.Subset.refl _) fun m hm => ?_) last)
    refine subnodes_around _ _ m
      (mem_subnodesAmong.2 ⟨body, second, mem_subnodesAmong_single.1 hm⟩)
  | @callbackInside k s n n' h a wraps isArrow inner ih =>
    obtain ⟨-, below, outer⟩ := regular_node.1 fit.head.regular
    have inside := ih (.single (fit_plain (below _ List.mem_cons_self)
      (outer _ List.mem_cons_self) (by decide) (by decide))) guarded
    have around := inside.mono (List.Subset.refl _) (subnodes_around k s)
    rcases wraps with rfl | rfl <;> exact .around (by simp) rfl around
  | noCallback notArrow notInside inPlace ih =>
    exact ih (.single (fit_plain fit.head.regular fit.head.inner (by decide)
      (by decide))) guarded

end Stemming

/-- **What is called in the result was called in the program**, unless it is a
temporary. -/
theorem called_of_stemming {ts : List String}
    (stemming : Stemming setting ts ns ms) (all : AllRegular ns) {x : String}
    {m' : Node} (hm' : m' ∈ subnodesAmong ms) (calls : Calls x s m') :
    (s = none ∧ x ∈ ts) ∨ ∃ m ∈ subnodesAmong ns, Calls x s m := by
  obtain ⟨t, callee, rest, i, rfl, isBare, isName, there⟩ := calls
  rcases stemming _ hm' (.inl rfl)
    with fresh | ⟨m, hm, rfl | ⟨h', b, alone, guarded'⟩⟩
  · cases fresh with
    | call called =>
      rcases called with ⟨u, hu, rfl⟩ | isMember
      · cases isBare
        cases isName
        exact .inl ⟨there.symm, hu⟩
      · obtain ⟨k, s', ms⟩ := callee
        obtain ⟨⟨y, rfl⟩, -⟩ :=
          bareIdentifier?_of_kind (by rintro rfl; cases isMember) isBare
        cases isMember
  · exact .inr ⟨_, hm, _, _, _, _, rfl, isBare, isName, there⟩
  · obtain ⟨n, hn, inside⟩ := mem_subnodesAmong.1 hm
    obtain ⟨isRegular, inner⟩ :=
      inner_of_occurs (mem_subnodes.1 inside) (all n hn).1 (all n hn).2
    obtain ⟨isCall, -, ns₀', h₀, items, children⟩ :=
      rewrites_kind alone inner guarded' (by simp)
    obtain ⟨k, t₀, ns₀⟩ := m
    rw [Node.kind_node] at isCall
    subst isCall
    have first : ns₀'[0]? = some callee := by
      have same : (ns₀'.modify 1 (mapItems unwrapItem))[0]? = some callee :=
        congrArg (·[0]?) items.symm
      rwa [List.getElem?_modify_ne _ _ (by decide)] at same
    obtain ⟨callee₀, g, b', there₀, alone', guarded''⟩ :=
      rewrites_placed children guarded' first
    obtain ⟨-, below, outer⟩ := regular_node.1 isRegular
    have mem := List.mem_of_getElem? there₀
    obtain ⟨i₀, isBare₀, kind, span⟩ :=
      bare_of_rewrites alone' (below _ mem) (outer _ mem) guarded'' isBare
    obtain ⟨rest₀, rfl⟩ : ∃ rest, ns₀ = callee₀ :: rest := by
      cases ns₀ with
      | nil => cases there₀
      | cons n rest =>
        cases there₀
        exact ⟨rest, rfl⟩
    exact .inr ⟨_, hm, t₀, callee₀, rest₀, i₀, rfl, isBare₀, kind.trans isName,
      span.trans there⟩

/-- The children at a position are both missing, or one became the other. -/
theorem rewrites_childAt
    (rewritten : Rewrites setting (ns.map fun _ => .place) ns ns' h a)
    (guarded : AllGuarded a) (i : Nat) :
    (child ns i = .none ∧ child ns' i = .none) ∨ child ns i ∈ ns ∧
      ∃ g b, Rewrites setting [.place] [child ns i] [child ns' i] g b ∧
      AllGuarded b := by
  simp only [child, List.getD_eq_getElem?_getD]
  cases there : ns'[i]? with
  | none =>
    have beyond : ns[i]? = none := by
      rw [List.getElem?_eq_none_iff, (rewrites_paired rewritten).length_eq,
        ← List.getElem?_eq_none_iff, there]
    rw [beyond]
    exact .inl ⟨rfl, rfl⟩
  | some n' =>
    obtain ⟨n, g, b, here, alone, guarded'⟩ :=
      rewrites_placed rewritten guarded there
    rw [here]
    exact .inr ⟨List.mem_of_getElem? here, g, b, alone, guarded'⟩

theorem child_modify_ne {f : Node → Node} {i j : Nat} (other : i ≠ j)
    (ns : List Node) :
    child (ns.modify i f) j = child ns j := by
  rw [child, child, List.getD_eq_getElem?_getD, List.getD_eq_getElem?_getD,
    List.getElem?_modify_ne _ _ other]

theorem child_modify_eq {f : Node → Node} (missing : f .none = .none) (i : Nat)
    (ns : List Node) :
    child (ns.modify i f) i = f (child ns i) := by
  rw [child, child, List.getD_eq_getElem?_getD, List.getD_eq_getElem?_getD,
    List.getElem?_modify_eq]
  cases ns[i]? with
  | none => exact missing.symm
  | some n => rfl

/-- Specifiers of imports and words in them stay as they are. -/
theorem rewrites_inert (rewritten : Rewrites setting [.place] [n] [n'] h a)
    (inert : isInert n = true) (written : Written n) : n' = n := by
  have plain : ∀ m ∈ subnodes n, isSpecifierPart m.kind = true :=
    List.all_eq_true.1 inert
  have none : a = [] := by
    refine rewrites_unplanned rewritten fun n₀ hn₀ m hm => ?_
    cases List.mem_singleton.1 hn₀
    obtain ⟨k, s, ns⟩ := m
    refine unplanned_of_kind ?_
    rintro rfl
    cases plain _ hm
  have settled : Settled setting.removals n := written.settled fun m hm => by
    obtain ⟨k, s, ns⟩ := m
    refine isGone_of_kind ?_
    have isPart : isSpecifierPart k = true := plain _ hm
    cases k <;> first | rfl | cases isPart
  obtain ⟨same, -⟩ := rewrites_settled rewritten (List.forall_mem_singleton.2
    settled) (fun _ _ _ treated _ => leftAlone_one treated trivial) none
  exact List.singleton_inj.1 same

/-- A call with arguments that was not rewritten had its callee and arguments
before. -/
theorem call_of_rewrites {t l : Option Span} {callee : Node}
    {items rest : List Node}
    (rewritten : Rewrites setting [.place] [n]
      [.node .call t (callee :: .node .list l items :: rest)] h a)
    (isRegular : regular n = true) (inner : isProgram n.kind = false)
    (guarded : AllGuarded a) :
    ∃ callee₀ l₀ items₀ rest₀ items', n =
      .node .call t (callee₀ :: .node .list l₀ items₀ :: rest₀) ∧
      items = items'.map unwrapItem ∧
        (∃ g b, Rewrites setting [.place] [callee₀] [callee] g b ∧
          AllGuarded b) ∧
        ∃ g b, Rewrites setting (items₀.map fun _ => .place) items₀ items' g b ∧
          AllGuarded b := by
  obtain ⟨isCall, there, ns', h', parts, children⟩ :=
    rewrites_kind rewritten inner guarded (by simp)
  obtain ⟨k, t₀, ns⟩ := n
  rw [Node.kind_node, Node.kind_node] at isCall
  rw [Node.span_node, Node.span_node] at there
  subst isCall there
  replace parts : callee :: .node .list l items :: rest =
    ns'.modify 1 (mapItems unwrapItem) := parts
  rcases ns' with _ | ⟨callee', _ | ⟨list', rest'⟩⟩
  · cases parts
  · cases parts
  · simp only [List.modify_succ_cons, List.modify_zero_cons, List.cons.injEq]
      at parts
    obtain ⟨rfl, list, -⟩ := parts
    obtain ⟨items', rfl, same⟩ : ∃ items', list' = .node .list l items' ∧
        items = items'.map unwrapItem := by
      unfold mapItems at list
      split at list
      · simp only [Node.node.injEq, true_and] at list
        exact ⟨_, list.1 ▸ rfl, list.2⟩
      · rename_i other
        exact absurd list.symm (other l items)
    have placed : List.Forall₂ (fun _ _ => True) ns
        (callee :: .node .list l items' :: rest') := rewrites_paired children
    cases placed with | @cons callee₀ _ ns₀ _ _ tail => ?_
    cases tail with | @cons list₀ _ rest₀ _ _ tail => ?_
    obtain ⟨-, -, outer⟩ := regular_node.1 isRegular
    obtain ⟨_, g, b, there, alone, guarded'⟩ :=
      rewrites_placed (i := 0) children guarded rfl
    cases there
    obtain ⟨_, g', b', there', alone', guarded''⟩ :=
      rewrites_placed (i := 1) children guarded rfl
    cases there'
    have second : list₀ ∈ callee₀ :: list₀ :: rest₀ :=
      List.mem_cons_of_mem _ List.mem_cons_self
    obtain ⟨isList, -, ns'', h'', all, inside⟩ :=
      rewrites_kind alone' (outer _ second) guarded'' (by simp)
    obtain ⟨k', l', items₀⟩ := list₀
    rw [Node.kind_node, Node.kind_node] at isList
    subst isList
    replace all : items' = ns'' := all
    subst all
    exact ⟨callee₀, l', items₀, rest₀, items', rfl, same,
      ⟨g, b, alone, guarded'⟩, h'', b', inside, guarded''⟩

/-- An item that is a string now was that string. -/
theorem string_of_rewrites (rewritten : Rewrites setting [.place] [n] [n'] h a)
    (inner : isProgram n.kind = false) (guarded : AllGuarded a)
    (written : Written n) {raw : String} {value : Option String}
    (isText : (unwrapItem n').kind = .str raw value) :
    n.kind = .str raw value := by
  have taken : (unwrap n').kind = .str raw value := by
    unfold unwrapItem at isText
    split at isText
    · cases isText
    · exact isText
  have same : n'.kind = .str raw value := by
    rcases unwrap_of_rewrites rewritten inner guarded written with same | isCond
    · rwa [same] at taken
    · cases taken.symm.trans isCond
  exact (rewrites_kind rewritten inner guarded (by rw [same]; simp)).1.trans
    same

/-- What requires the helper's module now did so. -/
theorem require_of_rewrites {m : String}
    (rewritten : Rewrites setting [.place] [n] [n'] h a)
    (isRegular : regular n = true) (inner : isProgram n.kind = false)
    (guarded : AllGuarded a) (written : Written n)
    (requires : isHelperRequire m n' = true) :
    isHelperRequire m n = true := by
  unfold isHelperRequire at requires
  split at requires
  · rename_i t callee l argument more rest
    rw [Bool.and_eq_true, beq_iff_eq] at requires
    obtain ⟨isRequire, isString⟩ := requires
    obtain ⟨callee₀, l₀, items₀, rest₀, items', rfl, given,
        ⟨g, b, alone, guarded'⟩, g', b', inside, guarded''⟩ :=
      call_of_rewrites rewritten isRegular inner guarded
    obtain ⟨-, below, outer⟩ := regular_node.1 isRegular
    obtain ⟨sameCallee, -⟩ := rewrites_kind alone
      (outer _ List.mem_cons_self) guarded' (by rw [isRequire]; simp)
    rcases items' with _ | ⟨argument', more'⟩
    · cases given
    · obtain ⟨rfl, -⟩ := List.cons.inj given
      rcases items₀ with _ | ⟨argument₀, more₀⟩
      · cases rewrites_paired inside
      · obtain ⟨_, g₁, b₁, there, alone', guarded₁⟩ :=
          rewrites_placed (i := 0) inside guarded'' rfl
        cases there
        have second : Node.node .list l₀ (argument₀ :: more₀) ∈ callee₀ ::
            .node .list l₀ (argument₀ :: more₀) :: rest₀ :=
          List.mem_cons_of_mem _ List.mem_cons_self
        obtain ⟨-, -, outer'⟩ := regular_node.1 (below _ second)
        have inList : Written argument₀ :=
          (written.child second).child List.mem_cons_self
        unfold isHelperRequire
        rw [Bool.and_eq_true, beq_iff_eq]
        refine ⟨sameCallee.trans isRequire, ?_⟩
        split at isString
        · rename_i raw value isText
          rw [string_of_rewrites alone'
            (outer' _ List.mem_cons_self) guarded₁ inList isText]
          exact isString
        · cases isString
  · cases requires

/-- The specifiers of an import and its module are no expressions. -/
theorem inert_import {b : Bool}
    (plain : isPlain (.node (.importDecl b) s ns) = true) (i : Nat)
    (first : i < 2) :
    isInert (child ns i) = true := by
  obtain ⟨here, -⟩ := isPlain_node.1 plain
  rw [plainAt, Bool.and_eq_true, Bool.and_eq_true] at here
  have sorts : (ns.take 2).all isInert = true := here.1.1
  rw [child, List.getD_eq_getElem?_getD]
  cases there : ns[i]? with
  | none => rfl
  | some n =>
    have among : n ∈ ns.take 2 := List.mem_of_getElem? (i := i)
      (by rw [List.getElem?_take_of_lt first, there])
    exact List.all_eq_true.1 sorts n among

/-- **What introduces the helper in the result introduced it in the
program.** -/
theorem introduces_of_stemming {ts : List String}
    (stemming : Stemming setting ts ns ms) (all : AllRegular ns)
    (plain : ∀ n ∈ ns, isPlain n = true) (written : ∀ n ∈ ns, Written n)
    {m x : String} {place : Option Span} {m' : Node}
    (hm' : m' ∈ subnodesAmong ms) (introduces : Introduces m x place m') :
    ∃ n ∈ subnodesAmong ns, Introduces m x place n := by
  have isSource : IsSource m' := by cases introduces <;> exact .inr rfl
  rcases stemming _ hm' isSource
    with fresh | ⟨n₀, hn₀, rfl | ⟨h', b, alone, guarded'⟩⟩
  · cases fresh with
    | call => cases introduces
    | declarator x =>
      cases introduces with
      | required isHelper => cases isHelper
  · exact ⟨_, hn₀, introduces⟩
  · refine ⟨n₀, hn₀, ?_⟩
    obtain ⟨n, hn, inside⟩ := mem_subnodesAmong.1 hn₀
    obtain ⟨isRegular, inner⟩ :=
      inner_of_occurs (mem_subnodes.1 inside) (all n hn).1 (all n hn).2
    obtain ⟨k, s, ms⟩ := n₀
    obtain ⟨-, below, outer⟩ := regular_node.1 isRegular
    have writtenHere : Written (.node k s ms) := fun l hl =>
      written n hn l
        (mem_subnodes.2 ((mem_subnodes.1 hl).trans (mem_subnodes.1 inside)))
    have plainHere := isPlain_of_occurs (mem_subnodes.1 inside) (plain n hn)
    cases introduces with
    | @imported b s' ns'' here isHelper checked isName there =>
      obtain ⟨isImport, sameSpan, ms', h'', parts, children⟩ :=
        rewrites_kind alone inner guarded' (by simp)
      rw [Node.kind_node, Node.kind_node] at isImport
      rw [Node.span_node, Node.span_node] at sameSpan
      subst isImport sameSpan
      replace parts : ns'' = ms' := parts
      subst parts
      have same (i : Nat) (first : i < 2) : child ns'' i = child ms i := by
        rcases rewrites_childAt children guarded' i
          with ⟨missing, missing'⟩ | ⟨mem, g, c, became, -⟩
        · exact missing'.trans missing.symm
        · exact rewrites_inert became (inert_import plainHere i first)
            (writtenHere.child mem)
      rw [same 1 (by decide)] at isHelper
      rw [same 0 (by decide)] at checked
      exact .imported isHelper checked isName there
    | @required b s' ns'' o isHelper isName there =>
      obtain ⟨isDeclarator, sameSpan, ms', h'', parts, children⟩ :=
        rewrites_kind alone inner guarded' (by simp)
      rw [Node.kind_node, Node.kind_node] at isDeclarator
      rw [Node.span_node, Node.span_node] at sameSpan
      subst isDeclarator sameSpan
      replace parts : ns'' = ms'.modify 1 unwrap := parts
      subst parts
      rw [child_modify_ne (by decide)] at isName there
      rw [child_modify_eq rfl] at isHelper
      have named : (child ms 0).kind = .bindingIdent x o ∧
          (child ms 0).span = place := by
        rcases rewrites_childAt children guarded' 0
          with ⟨-, missing⟩ | ⟨mem, g, c, became, guarded''⟩
        · rw [missing] at isName
          cases isName
        · obtain ⟨kind, span, -⟩ :=
            rewrites_kind became (outer _ mem) guarded'' (by rw [isName]; simp)
          exact ⟨kind.trans isName, span.trans there⟩
      refine .required ?_ named.1 named.2
      rcases rewrites_childAt children guarded' 1
        with ⟨-, missing⟩ | ⟨mem, g, c, became, guarded''⟩
      · rw [missing] at isHelper
        cases isHelper
      · have value := writtenHere.child mem
        rcases unwrap_of_rewrites became (outer _ mem) guarded'' value
          with same | isCond
        · rw [same] at isHelper
          exact require_of_rewrites became (below _ mem)
            (outer _ mem) guarded'' value isHelper
        · unfold isHelperRequire at isHelper
          split at isHelper
          · rename_i isCall
            rw [isCall] at isCond
            cases isCond
          · cases isHelper

end Rewrites

namespace Performed

variable {options : Options} {tree : Node} {comments : CommentMap}
  {transformed : Transformed}

/-- **All calls and declarations of the result of a transformation stem from the
program**, or are made with temporaries. -/
theorem stemming (p : Performed options tree comments transformed)
    (wellRead : WellRead tree) {h : List String} {a : List RewrittenCall}
    (rewritten : Rewrites p.setting [.place] [tree] [transformed.tree] h a)
    (guarded : AllGuarded a) :
    Stemming p.setting (temporaries a) tree.children [transformed.tree] := by
  obtain ⟨b, i, s, ns, ns', names, h', rfl, result, rfl, children, -⟩ :=
    rewrites_program wellRead.isProgram rewritten
  obtain ⟨-, below, outer⟩ := regular_node.1 wellRead.regular
  have inside := rewrites_stem children
    (fit_place fun n hn => ⟨below n hn, outer n hn⟩) guarded
  rw [result]
  exact .around (by simp) rfl
    (everywhere_declareIn stemming_frames stemming_declarator names
    ((Trims.filter (staysIn p.setting.removals) ns').stemming inside))

/-- The result of a transformation is regular. -/
theorem regular_result (p : Performed options tree comments transformed)
    (wellRead : WellRead tree) :
    regular transformed.tree = true := by
  obtain ⟨_, _, rewritten, -⟩ := p.rewrites
  obtain ⟨b, i, s, ns, ns', names, h', rfl, result, rfl, children, -⟩ :=
    rewrites_program wellRead.isProgram rewritten
  obtain ⟨-, below, outer⟩ := regular_node.1 wellRead.regular
  have kept :=
    rewrites_kept children (fit_place fun n hn => ⟨below n hn, outer n hn⟩)
  have items :
      AllRegular (declareIn names (ns'.filter (staysIn p.setting.removals))) :=
    allRegular_declareIn fun n hn => kept.regular n (List.mem_of_mem_filter hn)
  rw [result]
  exact regular_node.2 ⟨rfl, fun n hn => (items n hn).1,
    fun n hn => (items n hn).2⟩

/-- **What introduces the helper in the result introduced it in the program**,
where every call that was rewritten needed a temporary. -/
theorem introduced_before (p : Performed options tree comments transformed)
    (wellRead : WellRead tree) (written : Written tree)
    (plain : isPlain tree = true) {ts : List String}
    (stemming : Stemming p.setting ts tree.children [transformed.tree])
    {m x : String} {place : Option Span} {n' : Node}
    (hn' : n' ∈ subnodes transformed.tree)
    (introduces : Introduces m x place n') :
    ∃ n ∈ subnodes tree, Introduces m x place n := by
  obtain ⟨k, s, ns⟩ := tree
  obtain ⟨-, below, outer⟩ := regular_node.1 wellRead.regular
  obtain ⟨n, hn, introduced⟩ := introduces_of_stemming stemming
    (fun n hn => ⟨below n hn, outer n hn⟩) (isPlain_node.1 plain).2
    (fun n hn => written.child hn) (mem_subnodesAmong_single.2 hn') introduces
  exact ⟨n, mem_subnodes_node.2 (.inr hn), introduced⟩

/-- **What is called in the result was called in the program**, unless it is a
temporary. -/
theorem called_before (p : Performed options tree comments transformed)
    (wellRead : WellRead tree) {ts : List String}
    (stemming : Stemming p.setting ts tree.children [transformed.tree])
    {x : String} {s : Option Span} {n' : Node}
    (hn' : n' ∈ subnodes transformed.tree) (calls : Calls x s n') :
    (s = none ∧ x ∈ ts) ∨ ∃ n ∈ subnodes tree, Calls x s n := by
  obtain ⟨k, t, ns⟩ := tree
  obtain ⟨-, below, outer⟩ := regular_node.1 wellRead.regular
  rcases called_of_stemming stemming (fun n hn => ⟨below n hn, outer n hn⟩)
    (mem_subnodesAmong_single.2 hn') calls with
    made | ⟨n, hn, called⟩
  · exact .inl made
  · exact .inr ⟨n, mem_subnodes_node.2 (.inr hn), called⟩

end Performed

end NullGuard.Transform
