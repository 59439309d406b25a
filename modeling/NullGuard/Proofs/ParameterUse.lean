import NullGuard.Proofs.Decomposition
import NullGuard.Proofs.Confinement

/-!
# Where the parameter of a callback is used

Once the body of a callback has been moved out of it, the parameter is gone. So
`decompose` refuses a body in which the parameter is used anywhere but at its
base: it looks for uses in the computed keys and the arguments of the chain.

The analysis of a program is another walk with its own view of what a use is.
Here the two are compared. `uses` sees every identifier that is read or called
and every shorthand property, through nested functions that do not bind the name
again. It does not see a name that is assigned to, a name in a pattern, in
markup or in a type (`overlooked`), and the walk looks into no types of the
chain's own calls (`unchecked`). `parameter_stays_iff` says that these places
are the only ways out: the uses that the analysis resolves to the parameter are
the base of the body alone, if and only if none of them stands in an unchecked
place.

The proof is about `Confined` outlines, where every use of a declaration further
out stands in one of some places. Inside the callback they are confined by what
the walk has seen; around it, because the declaration is the only one with its
span.
-/

namespace NullGuard.Scope

open NullGuard.Text (Span)
open NullGuard.Tree NullGuard.Chain

mutual

/-- Where a name stands without being a use in the eyes of `uses`: in a pattern,
in markup, in a type, and as the target of an assignment. -/
def overlooked (name : String) : Node → List (Option Span)
  | .node (.ident _) _ _ => []
  | .node (.shorthand _) _ _ => []
  | .node (.assign _) _ (.node (.ident n) s _ :: rest) =>
    (if n = name then [s] else []) ++ overlookedAmong name rest
  | .node k s ns =>
    (if identifier? k = some name then [s] else []) ++ overlookedAmong name ns

/-- Where a name stands in several nodes without being a use in the eyes of
`uses`. -/
def overlookedAmong (name : String) : List Node → List (Option Span)
  | [] => []
  | n :: ns => overlooked name n ++ overlookedAmong name ns

end

/-- Where a name stands, whatever it is there. -/
def everywhere (name : String) (n : Node) : List (Option Span) :=
  ((mentions n).filter fun p => p.1 == name).map Prod.snd

/-- Where a name stands in the body of a callback without being looked at. A
property that is no computed key is a word, so no name stands in it. -/
def unchecked (name : String) : Node → List (Option Span)
  | .node .member _ [object, .node .computed _ [key]] =>
    unchecked name object ++ overlooked name key
  | .node .member _ [object, property] =>
    unchecked name object ++ everywhere name property
  | .node .call _ [callee, .node .list _ arguments, typeArguments] =>
    unchecked name callee ++
      (overlookedAmong name arguments ++ everywhere name typeArguments)
  | .node .paren _ [inner] => unchecked name inner
  | _ => []

/-- The identifier that a body is based on. -/
def leaf : Node → Option Span
  | .node .member _ (object :: _) => leaf object
  | .node .call _ (callee :: _) => leaf callee
  | .node .paren _ [inner] => leaf inner
  | .node _ s _ => s

/-- A place where a name is used in the eyes of `uses`, or overlooked by it. -/
def Seen (name : String) (n : Node) (s : Option Span) : Prop :=
  s ∈ uses name n ∨ s ∈ overlooked name n

/-- Whether a node keeps `uses` from looking at its children: an identifier, or
a function that binds the name again. -/
def cuts (name : String) : Node → Bool
  | .node (.ident _) _ _ | .node (.shorthand _) _ _ => true
  | .node (.arrow _) _ ns | .node (.function _ _) _ ns => bindsParameter name ns
  | _ => false

theorem mem_usesAmong {name : String} {s : Option Span} {ns : List Node} :
    s ∈ usesAmong name ns ↔ ∃ n ∈ ns, s ∈ uses name n := by
  induction ns with
  | nil => exact iff_of_false nofun nofun
  | cons n ns ih =>
    simp only [usesAmong, List.mem_append, ih, List.mem_cons, exists_eq_or_imp]

theorem mem_overlookedAmong {name : String} {s : Option Span} {ns : List Node} :
    s ∈ overlookedAmong name ns ↔ ∃ n ∈ ns, s ∈ overlooked name n := by
  induction ns with
  | nil => exact iff_of_false nofun nofun
  | cons n ns ih =>
    simp only [overlookedAmong, List.mem_append, ih, List.mem_cons,
      exists_eq_or_imp]

/-- What is seen of a child is seen of the node, unless the node keeps its
children from view. -/
theorem Seen.of_child {name : String} {n c : Node} {s : Option Span}
    (h : Seen name c s) (hc : c ∈ n.children) (open? : cuts name n = false) :
    Seen name n s := by
  obtain ⟨k, t, ns⟩ := n
  have used (h : s ∈ uses name c) : s ∈ usesAmong name ns :=
    mem_usesAmong.2 ⟨c, hc, h⟩
  have missed (h : s ∈ overlooked name c) : s ∈ overlookedAmong name ns :=
    mem_overlookedAmong.2 ⟨c, hc, h⟩
  unfold Seen uses overlooked
  cases k
  case ident | shorthand => cases open?
  case arrow | function =>
    simp only [cuts] at open?
    simp only [open?]
    exact h.imp used fun h => List.mem_append_right _ (missed h)
  case assign =>
    split
    case h_5 x t' _ rest direct =>
      cases direct
      rcases List.mem_cons.1 hc with rfl | hc
      · rcases h with h | h
        · rw [uses] at h
          exact .inr (List.mem_append_left _ (by simpa using h))
        · cases h
      · exact h.imp (fun h => mem_usesAmong.2 ⟨c, hc, h⟩) fun h =>
          List.mem_append_right _ (mem_overlookedAmong.2 ⟨c, hc, h⟩)
    case h_6 notDirect same =>
      cases same
      split
      case h_3 direct =>
        cases direct
        exact (notDirect _ _ _ _ _ rfl rfl).elim
      case h_4 same =>
        cases same
        exact h.imp used fun h => List.mem_append_right _ (missed h)
      all_goals
        rename_i same
        cases same
    all_goals
      rename_i same
      cases same
  all_goals exact h.imp used fun h => List.mem_append_right _ (missed h)

/-- A name that stands in a node is seen, whatever it is there. -/
theorem Seen.self {name : String} {n : Node}
    (isName : identifier? n.kind = some name) : Seen name n n.span := by
  obtain ⟨k, s, ns⟩ := n
  cases k
  case ident x | shorthand x =>
    cases isName
    exact .inl (by simp [uses])
  case name x | bindingIdent x _ | shorthandInit x =>
    cases isName
    exact .inr (by simp [overlooked, identifier?])
  case markup form =>
    cases form <;> cases isName
    exact .inr (by simp [overlooked, identifier?])
  all_goals cases isName

/-- The first name of a dotted name is seen. -/
theorem Seen.root {name : String} {n c : Node} (isRoot : entityRoot n = some c)
    (isName : identifier? c.kind = some name) : Seen name n c.span := by
  fun_induction entityRoot n with
  | case1 s left rest ih => exact (ih isRoot).of_child List.mem_cons_self rfl
  | case2 x s ns =>
    cases isRoot
    exact .self isName
  | case3 => cases isRoot

/-- A name means a declaration at a certain span. -/
def Means (sp : Option Span) (d : Option Declared) : Prop :=
  ∃ d', d = some d' ∧ d'.span = sp

/-- **An outline in which the uses of a declaration are confined.** The
declaration, of `name` at `sp`, stands further out; what is used here and means
it stands in one of the places `T`, and it could mean it only because nothing
between here and there declares the name again. -/
structure Confined (name : String) (sp : Option Span) (T : Option Span → Prop)
    (os : List Outline) : Prop where
  undeclared : ∀ r, ∀ d ∈ reachingAll r os, d.span ≠ sp
  used : ∀ frames : List (List Declared), (∀ f ∈ frames, ∀ d ∈ f,
    d.span = sp → d.name = name) → ∀ u ∈ resolvedAll frames os,
    Means sp u.means → Means sp (lookUp frames name) ∧
    T u.span

/-- What a name means is declared in one of the frames. -/
theorem mem_of_lookUp {frames : List (List Declared)} {name : String}
    {d : Declared} (h : lookUp frames name = some d) :
    d.name = name ∧ ∃ f ∈ frames, d ∈ f := by
  obtain ⟨f, hf, found⟩ := List.exists_of_findSome?_eq_some h
  have isNamed := List.find?_some found
  exact ⟨eq_of_beq isNamed, f, hf, List.mem_of_find?_eq_some found⟩

/-- A declaration somewhere else is not the one at a span. -/
theorem undeclared_declaration {r : Reach} {x : String} {s sp : Option Span}
    (other : s ≠ sp) (k : BindingKind) :
    ∀ d ∈ reachingAll r [.declaration x s k], d.span ≠ sp := by
  intro d hd
  rw [reachingAll, reaching, reachingAll, List.append_nil] at hd
  split at hd
  · cases List.mem_singleton.1 hd
    exact other
  · cases hd

namespace Confined

variable {name : String} {sp : Option Span} {T T' : Option Span → Prop}
  {os os' : List Outline}

theorem mono (h : Confined name sp T os) (le : ∀ s, T s → T' s) :
    Confined name sp T' os :=
  ⟨h.undeclared, fun frames named u hu means =>
    ⟨(h.used frames named u hu means).1,
      le _ (h.used frames named u hu means).2⟩⟩

/-- Inside a scope, the frame of the scope has no such declaration. -/
theorem named_frame (h : Confined name sp T os) (k : ScopeKind)
    {frames : List (List Declared)}
    (named : ∀ f ∈ frames, ∀ d ∈ f, d.span = sp → d.name = name) :
    ∀ f ∈ reachingAll (.own k) os :: frames, ∀ d ∈ f, d.span = sp →
      d.name = name := by
  intro f hf d hd same
  rcases List.mem_cons.1 hf with rfl | hf
  · exact absurd same (h.undeclared _ d hd)
  · exact named f hf d hd same

/-- A use of the name stands in one of the places; uses of other names mean
something else. -/
theorem reference {x : String} {s : Option Span} (k : ReferenceKind)
    (place : x = name → T s) :
    Confined name sp T [.reference x s k] := by
  refine ⟨fun r d hd => (by cases hd), fun frames named u hu means => ?_⟩
  cases List.mem_singleton.1 hu
  obtain ⟨d, found, same⟩ := means
  obtain ⟨isNamed, f, hf, hd⟩ := mem_of_lookUp found
  have same' := isNamed.symm.trans (named f hf d hd same)
  cases same'
  exact ⟨⟨d, found, same⟩, place rfl⟩

theorem declaration {x : String} {s : Option Span} (other : s ≠ sp)
    (k : BindingKind) :
    Confined name sp T [.declaration x s k] :=
  ⟨fun _ => undeclared_declaration other k, fun _ _ u hu => by cases hu⟩

theorem helper {x : String} {s : Option Span} (other : s ≠ sp) (k : BindingKind)
    (origin : Origin) :
    Confined name sp T [.helper x s k origin] :=
  ⟨fun _ => undeclared_declaration (x := x) other k,
    fun _ _ u hu => by cases hu⟩

theorem closed : Closed (Confined name sp T) where
  nil := ⟨fun _ _ h => (by cases h), fun _ _ _ h => by cases h⟩
  append := by
    intro os os' h h'
    refine ⟨fun r d hd => ?_, fun frames named u hu => ?_⟩
    · rw [reachingAll_append] at hd
      exact (List.mem_append.1 hd).elim (h.undeclared r d) (h'.undeclared r d)
    · rw [resolvedAll_append] at hu
      exact (List.mem_append.1 hu).elim (h.used frames named u)
        (h'.used frames named u)
  scope := by
    intro os k h
    refine ⟨fun r d hd => ?_, fun frames named u hu means => ?_⟩
    · rw [reachingAll, reaching, reachingAll, List.append_nil] at hd
      exact h.undeclared _ d hd
    · rw [resolvedAll, resolved, resolvedAll, List.append_nil] at hu
      obtain ⟨⟨d, found, same⟩, place⟩ :=
        h.used _ (h.named_frame k named) u hu means
      refine ⟨⟨d, ?_, same⟩, place⟩
      rw [lookUp_cons] at found
      cases own : firstOf name (reachingAll (.own k) os) with
      | none => rwa [own, Option.none_or] at found
      | some e =>
        rw [own, Option.some_or] at found
        cases found
        exact absurd same (h.undeclared _ _ (List.mem_of_find?_eq_some own))
  reference := by
    intro x s k h
    refine ⟨fun r d hd => (by cases hd), fun frames named u hu means => ?_⟩
    cases List.mem_singleton.1 hu
    exact h.used frames named
      ⟨x, s, .read, lookUp frames x⟩ List.mem_cons_self means
  unrecognized _ := ⟨fun _ _ h => (by cases h), fun _ _ _ h => by cases h⟩
  malformed _ := ⟨fun _ _ h => (by cases h), fun _ _ _ h => by cases h⟩

/-- A scope that declares the name again hides the declaration further out. -/
theorem shadowed (h : Confined name sp (fun _ => True) os) {k : ScopeKind}
    {d : Declared} (hd : d ∈ reachingAll (.own k) os) (named : d.name = name) :
    Confined name sp T [.scope k os] := by
  refine ⟨(closed.scope k h).undeclared, fun frames allNamed u hu means => ?_⟩
  rw [resolvedAll, resolved, resolvedAll, List.append_nil] at hu
  obtain ⟨⟨e, found, same⟩, -⟩ := h.used _ (h.named_frame k allNamed) u hu means
  rw [lookUp_cons] at found
  cases own : firstOf name (reachingAll (.own k) os) with
  | none => exact absurd (beq_iff_eq.2 named) (List.find?_eq_none.1 own d hd)
  | some e' =>
    rw [own, Option.some_or] at found
    cases found
    exact absurd same (h.undeclared _ _ (List.mem_of_find?_eq_some own))

end Confined

/-- Where the declaration itself does not stand, everything is about other
declarations. -/
theorem confined_allowsOthers (name : String) (sp : Option Span) :
    AllowsOthers (fun p => p.2 = sp) (Confined name sp fun _ => True) where
  toClosed := Confined.closed
  declaration other k := .declaration other k
  helper other k origin := .helper other k origin
  use _ := .reference _ fun _ => trivial

section Inside

variable {name m : String} {sp : Option Span}

/-- A parameter that is a plain name declares it. -/
theorem said_of_isParameter {p : Node} (h : isParameter name p = true)
    (c : Context) :
    ∃ s, Outline.declaration name s .param ∈ said m (c.declaring .param) p := by
  unfold isParameter at h
  split at h
  · rename_i n _ s ns
    cases eq_of_beq h
    exact ⟨s, List.mem_cons_self⟩
  · rename_i s first n _ t ns
    cases eq_of_beq h
    refine ⟨t, ?_⟩
    exact List.mem_append_right
      (said m (c.declaring .param) first) List.mem_cons_self
  · cases h

/-- What is declared in an outline comes out of it, if it is let out. -/
theorem mem_reachingAll {r : Reach} {os : List Outline} {x : String}
    {s : Option Span} {k : BindingKind} (h : Outline.declaration x s k ∈ os)
    (admitted : r.admits k = true) :
    (⟨x, s, k⟩ : Declared) ∈ reachingAll r os := by
  obtain ⟨before, after, rfl⟩ := List.append_of_mem h
  rw [reachingAll_append, reachingAll, reaching, if_pos admitted]
  exact List.mem_append_right _ List.mem_cons_self

/-- A function that binds the name again has no use of the declaration further
out. -/
theorem confined_of_bindsParameter {k : Kind} {s : Option Span} {ns : List Node}
    (isRegular : regular (.node k s ns) = true)
    (clear : Clear (fun p => p.2 = sp) (.node k s ns))
    (isFunction : (∃ a, k = .arrow a) ∨ ∃ a g, k = .function a g)
    (binds : bindsParameter name ns = true) (T : Option Span → Prop)
    (c : Context) :
    Confined name sp T (said m c (.node k s ns)) := by
  have allows := confined_allowsOthers name sp
  have ready : Prepared (Confined name sp fun _ => True) m k s ns :=
    prepared_of_clear allows isRegular clear
  have closed := allows.toClosed
  unfold bindsParameter at binds
  split at binds
  case h_2 => cases binds
  rename_i l parameters rest
  obtain ⟨p, hp, isParameter⟩ := List.any_eq_true.1 binds
  obtain ⟨t, declared⟩ := said_of_isParameter (m := m) isParameter c.inScope
  have among : Outline.declaration name t .param ∈
      saidAmong m (c.inScope.declaring .param) parameters :=
    List.mem_flatMap.2 ⟨p, hp, declared⟩
  have front := ready.sequence closed (i := 0) (fun n hn => by cases hn; rfl)
    (c.inScope.declaring .param)
  rcases isFunction with ⟨a, rfl⟩ | ⟨a, g, rfl⟩
  · rw [said_node]
    simp only [outlineOf, part_toParts, functionOutline]
    refine Confined.shadowed (d := ⟨name, t, .param⟩) (closed.append closed.nil
      (closed.append ?_ (ready.body closed 1 _))) ?_ rfl
    · rw [parts_toPart, outlines_toParts]
      exact front
    · simp only [parts_toPart, outlines_toParts]
      exact mem_reachingAll
        (List.mem_append_right _ (List.mem_append_left _ among)) rfl
  · rw [said_node]
    simp only [outlineOf, part_toParts, functionOutline]
    refine Confined.shadowed (d := ⟨name, t, .param⟩)
      (closed.append ?_ (closed.append ?_ (ready.body closed 2 _))) ?_ rfl
    · rw [parts_toPart, outlines_toParts]
      exact ready.front closed (n := 2) (i := 1) (by omega) ready.regular _
    · rw [parts_toPart, outlines_toParts]
      exact front
    · simp only [parts_toPart, outlines_toParts]
      exact mem_reachingAll
        (List.mem_append_right _ (List.mem_append_left _ among)) rfl

/-- An open node lets its children be seen. -/
theorem cuts_of_isOpen {n : Node} (h : isOpen n.kind = true) :
    cuts name n = false := by
  obtain ⟨k, s, ns⟩ := n
  cases k <;> first | rfl | cases h

/-- **Within a node that does not hold the declaration, its uses are confined to
what is seen.** -/
theorem confined_said {n : Node} (isRegular : regular n = true)
    (clear : Clear (fun p => p.2 = sp) n) (c : Context) :
    Confined name sp (Seen name n) (said m c n) := by
  have both : (∀ c, Confined name sp (Seen name n) (said m c n)) ∧
      (isOpen n.kind = true → ∀ n' ∈ n.children,
      ∀ c, Confined name sp (Seen name n) (said m c n')) := by
    induction n using Node.induct with
    | step k s ns ih =>
      obtain ⟨here, below, -⟩ := regular_node.1 isRegular
      have each n hn := ih n hn (below n hn) (clear.child hn)
      cases cut : cuts name (.node k s ns) with
      | true =>
        refine ⟨fun c => ?_,
          fun isOpen => by cases (cuts_of_isOpen isOpen).symm.trans cut⟩
        cases k
        case ident x | shorthand x =>
          refine .reference _ fun same => ?_
          subst same
          exact Seen.self (n := .node _ s ns) rfl
        case arrow a =>
          exact confined_of_bindsParameter isRegular
            clear (.inl ⟨a, rfl⟩) cut _ c
        case function a g =>
          exact confined_of_bindsParameter isRegular
            clear (.inr ⟨a, g, rfl⟩) cut _ c
        all_goals cases cut
      | false =>
        have up {n' : Node} (hn : n' ∈ ns) {s' : Option Span} (h :
            Seen name n' s') : Seen name (.node k s ns) s' := h.of_child hn cut
        have whole n (hn : n ∈ ns) c :
            Confined name sp (Seen name (.node k s ns)) (said m c n) :=
          ((each n hn).1 c).mono fun _ => up hn
        refine ⟨said_closed Confined.closed
          ⟨here, whole, fun n hn isOpen n' hn' c =>
          ((each n hn).2 isOpen n' hn' c).mono fun _ => up hn,
            fun n hn x isName k => ?_,
          fun n hn x isName => ?_⟩, fun _ => whole⟩
        · have other := (hn.clear clear).other x isName
          exact ⟨.declaration other k, .helper other k⟩
        · refine .reference _ fun same => ?_
          subst same
          cases hn with
          | own => exact .self isName
          | element hc _ => exact up hc (.self isName)
          | @specifier p q _ b _ hp isList hq isSpecifier hc =>
            have inSpecifier : Seen x q n.span :=
              (Seen.self isName).of_child hc (by
              obtain ⟨qk, qs, qns⟩ := q
              cases isSpecifier
              rfl)
            exact up hp
              (inSpecifier.of_child hq (cuts_of_isOpen (by rw [isList]; rfl)))
          | root hp isRoot => exact up hp (.root isRoot isName)
  exact both.1 c

theorem mem_everywhere {n : Node} {s : Option Span} :
    s ∈ everywhere name n ↔ (name, s) ∈ mentions n := by
  simp [everywhere]

/-- What is seen of a name is one of its places. -/
theorem Seen.mentioned {n : Node} {s : Option Span} (h : Seen name n s) :
    (name, s) ∈ mentions n := by
  have used : ∀ n : Node, s ∈ uses name n → (name, s) ∈ mentions n := by
    intro n
    induction n using Node.induct with
    | step k t ns ih =>
      have below {rest : List Node} (sub : ∀ n ∈ rest, n ∈ ns) (h :
          s ∈ usesAmong name rest) : (name, s) ∈ mentions (.node k t ns) := by
        obtain ⟨n, hn, h⟩ := mem_usesAmong.1 h
        exact mem_mentions_of_child (sub n hn) (ih n (sub n hn) h)
      intro h
      unfold uses at h
      split at h
      case h_1 same | h_2 same =>
        cases same
        split at h
        · rename_i x _ _ isName
          cases List.mem_singleton.1 h
          cases eq_of_beq isName
          exact mem_mentions.2 (.inl ⟨rfl, rfl⟩)
        · cases h
      case h_3 same | h_4 same =>
        cases same
        split at h
        · cases h
        · exact below (fun _ => id) h
      case h_5 same =>
        cases same
        exact below (fun _ => List.mem_cons_of_mem _) h
      case h_6 same =>
        cases same
        exact below (fun _ => id) h
  have missed : ∀ n : Node, s ∈ overlooked name n → (name, s) ∈ mentions n := by
    intro n
    induction n using Node.induct with
    | step k t ns ih =>
      have below {rest : List Node} (sub : ∀ n ∈ rest, n ∈ ns) (h : s ∈
          overlookedAmong name rest) : (name, s) ∈ mentions (.node k t ns) := by
        obtain ⟨n, hn, h⟩ := mem_overlookedAmong.1 h
        exact mem_mentions_of_child (sub n hn) (ih n (sub n hn) h)
      intro h
      unfold overlooked at h
      split at h
      case h_1 same | h_2 same => cases h
      case h_3 same =>
        cases same
        rcases List.mem_append.1 h with h | h
        · split at h
          · rename_i isName
            cases List.mem_singleton.1 h
            cases isName
            exact mem_mentions.2
              (.inr ⟨_, List.mem_cons_self, mem_mentions.2 (.inl ⟨rfl, rfl⟩)⟩)
          · cases h
        · exact below (fun _ => List.mem_cons_of_mem _) h
      case h_4 same =>
        cases same
        rcases List.mem_append.1 h with h | h
        · split at h
          · rename_i isName
            cases List.mem_singleton.1 h
            exact mem_mentions.2 (.inl ⟨isName, rfl⟩)
          · cases h
        · exact below (fun _ => id) h
  exact h.elim (used n) (missed n)

/-- What stands in a property without being looked at. -/
def uncheckedKey (name : String) : Node → List (Option Span)
  | .node .computed _ [key] => overlooked name key
  | property => everywhere name property

theorem unchecked_member (s : Option Span) (object property : Node) :
    unchecked name (.node .member s [object, property]) =
      unchecked name object ++ uncheckedKey name property := by
  unfold uncheckedKey
  split
  · rfl
  · rename_i notComputed
    rw [unchecked]
    exact notComputed

/-- In a property that the walk accepts, the uses are confined to what is not
looked at. -/
theorem confined_property {property : Node}
    (isRegular : regular property = true)
    (clear : Clear (fun p => p.2 = sp) property)
    (clean : ∀ span key, property = .node .computed span [key] →
      uses name key = []) (c : Context) :
    Confined name sp (· ∈ uncheckedKey name property) (said m c property) := by
  have seen : Confined name sp (Seen name property) (said m c property) :=
    confined_said isRegular clear c
  unfold uncheckedKey
  split
  · rename_i span key
    refine seen.mono fun s h => ?_
    have nothing : uses name (.node .computed span [key]) = [] := by
      rw [uses, usesAmong, clean span key rfl]
      · rfl
      all_goals nofun
    rw [Seen, nothing] at h
    rcases h with h | h
    · cases h
    · simpa [overlooked, overlookedAmong, identifier?] using h
  · exact seen.mono fun s h => mem_everywhere.2 h.mentioned

/-- In arguments that the walk accepts, the uses are confined to what is not
looked at. -/
theorem confined_arguments {l : Option Span} {arguments : List Node}
    (isRegular : regular (.node .list l arguments) = true)
    (clear : Clear (fun p => p.2 = sp) (.node .list l arguments))
    (clean : usesAmong name arguments = []) (c : Context) :
    Confined name sp (· ∈ overlookedAmong name arguments)
      (said m c (.node .list l arguments)) := by
  refine (confined_said isRegular clear c).mono fun s h => ?_
  have nothing : uses name (.node .list l arguments) = [] := by
    rw [uses, clean]
    all_goals nofun
  rw [Seen, nothing] at h
  rcases h with h | h
  · cases h
  · simpa [overlooked, identifier?] using h

/-- **In the body of a callback that is accepted, the uses of the parameter are
confined** to the base of the body and to what is not looked at. -/
theorem confined_body {policy : Transform.ChainPolicy} {body : Node}
    {steps : List Step} (h : Spine policy name body steps)
    (isRegular : regular body = true) (clear : Clear (fun p => p.2 = sp) body)
    (c : Context) :
    Confined name sp (fun s => s = leaf body ∨ s ∈ unchecked name body)
      (said m c body) := by
  have closed {T : Option Span → Prop} : Closed (Confined name sp T) :=
    Confined.closed
  induction h generalizing c with
  | leaf s ns => exact .reference _ fun _ => .inl rfl
  | @paren s inner steps rest ih =>
    have inside := ih (regular_child isRegular List.mem_cons_self)
      (clear.child List.mem_cons_self) c
    exact closed.append inside closed.nil
  | @member s object property steps clean rest ih =>
    obtain ⟨-, below, -⟩ := regular_node.1 isRegular
    have first : object ∈ [object, property] := List.mem_cons_self
    have second : property ∈ [object, property] :=
      List.mem_cons_of_mem _ List.mem_cons_self
    have front := ih (below _ first) (clear.child first) c
    have back :=
      confined_property (m := m) (below _ second) (clear.child second) clean c
    have both : said m c (.node .member s [object, property]) =
        said m c object ++ (said m c property ++ []) := rfl
    rw [both, unchecked_member]
    exact closed.append (front.mono fun s h =>
      h.imp_right (List.mem_append_left _)) (closed.append
      (back.mono fun s h => .inr (List.mem_append_right _ h)) closed.nil)
  | @call s l callee typeArguments arguments steps permissive ordinary
      clean rest ih =>
    obtain ⟨-, below, -⟩ := regular_node.1 isRegular
    have first : callee ∈ [callee, .node .list l arguments, typeArguments] :=
      List.mem_cons_self
    have second : .node .list l arguments ∈
        [callee, .node .list l arguments, typeArguments] :=
      List.mem_cons_of_mem _ List.mem_cons_self
    have third : typeArguments ∈
        [callee, .node .list l arguments, typeArguments] :=
      List.mem_cons_of_mem _ (List.mem_cons_of_mem _ List.mem_cons_self)
    have front := (ih (below _ first) (clear.child first) c).mono fun s h =>
      h.imp_right (List.mem_append_left
        (overlookedAmong name arguments ++ everywhere name typeArguments))
    have middle := (confined_arguments (m := m) (below _ second)
      (clear.child second) clean c).mono fun s h => Or.inr
      (a := s = leaf callee) (List.mem_append_right (unchecked name callee)
      (List.mem_append_left (everywhere name typeArguments) h))
    have types : Confined name sp (Seen name typeArguments)
        (said m c typeArguments) :=
      confined_said (below _ third) (clear.child third) c
    have back := types.mono fun s h =>
      Or.inr (a := s = leaf callee)
        (List.mem_append_right (unchecked name callee) (List.mem_append_right
        (overlookedAmong name arguments) (mem_everywhere.2 h.mentioned)))
    rw [said_node]
    simp only [outlineOf, part_toParts, outlines_toParts, node_toPart,
      outline_toPart]
    split
    · rename_i x isBare
      exact closed.append (closed.bare isBare front _) middle
    · exact closed.append front
        (closed.append middle (closed.append back closed.nil))

end Inside

/-- In a node whose identifiers have spans of their own, a span stands in one
child only. -/
theorem spans_distinct {k : Kind} {s : Option Span} (before : List Node)
    {after : List Node} {c : Node}
    (distinct : (spans (.node k s (before ++ c :: after))).Nodup) :
    (spans c).Nodup ∧ ∀ sp ∈ spans c, (∀ x, identifier? k = some x → s ≠ sp) ∧
      ∀ n ∈ before ++ after, sp ∉ spans n := by
  have among (ns ns' : List Node) : mentionsAmong (ns ++ ns') =
      mentionsAmong ns ++ mentionsAmong ns' := by
    induction ns with
    | nil => rfl
    | cons n ns ih =>
      rw [List.cons_append, mentionsAmong, ih, mentionsAmong, List.append_assoc]
  have inAmong {n : Node} {ns : List Node} (hn : n ∈ ns) {sp : Option Span}
      (h : sp ∈ spans n) : sp ∈ (mentionsAmong ns).map Prod.snd := by
    obtain ⟨x, h⟩ := mem_spans.1 h
    exact List.mem_map.2 ⟨(x, sp), mem_mentionsAmong.2 ⟨n, hn, h⟩, rfl⟩
  rw [spans, mentions, among, mentionsAmong, List.map_append, List.map_append,
    List.map_append, List.nodup_append, List.nodup_append, List.nodup_append]
    at distinct
  obtain ⟨-, ⟨-, ⟨inC, -, notAfter⟩, notBefore⟩, notOwn⟩ := distinct
  refine ⟨inC, fun sp hsp => ⟨fun x isName same => ?_, fun n hn h => ?_⟩⟩
  · refine notOwn s ?_ sp
      (List.mem_append_right _ (List.mem_append_left _ hsp)) same
    rw [isName]
    exact List.mem_cons_self
  · rcases List.mem_append.1 hn with hn | hn
    · exact notBefore sp (inAmong hn h) sp (List.mem_append_left _ hsp) rfl
    · exact notAfter sp hsp sp (inAmong hn h) rfl

theorem Occurs.spans {n n' : Node} (h : Occurs n n') {sp : Option Span}
    (hsp : sp ∈ spans n) : sp ∈ Scope.spans n' := by
  induction h with
  | here => exact hsp
  | inside hc _ ih =>
    obtain ⟨x, h⟩ := mem_spans.1 ih
    exact mem_spans.2 ⟨x, mem_mentions_of_child hc h⟩

/-- Where a span does not stand, the names are others. -/
theorem clear_of_not_mem {n : Node} {sp : Option Span} (h : sp ∉ spans n) :
    Clear (fun p => p.2 = sp) n :=
  fun p hp same => h (mem_spans.2 ⟨p.1, same ▸ hp⟩)

/-- Where identifiers have spans of their own, they have them in a part as
well. -/
theorem Occurs.distinct {n n' : Node} (h : Occurs n n')
    (distinct : (Scope.spans n').Nodup) : (Scope.spans n).Nodup := by
  induction h with
  | here => exact distinct
  | inside hc _ ih =>
    obtain ⟨before, after, rfl⟩ := List.append_of_mem hc
    exact ih (spans_distinct before distinct).1

/-- Where identifiers have spans of their own, a part is the home of the spans
in it. -/
theorem housed_of_occurs {n n' : Node} (h : Occurs n n') {sp : Option Span}
    (hsp : sp ∈ spans n) (isHome : IsHome n) (distinct : (spans n').Nodup) :
    Housed (fun p => p.2 = sp) (· = n) n' := by
  induction h with
  | here => exact .home isHome rfl
  | @inside k s ns c hc inC ih =>
    obtain ⟨before, after, rfl⟩ := List.append_of_mem hc
    obtain ⟨inner, alone⟩ := spans_distinct before distinct
    obtain ⟨notOwn, elsewhere⟩ := alone sp (inC.spans hsp)
    exact .inside notOwn (fun n hn => clear_of_not_mem
      (elsewhere n (List.mem_append_left _ hn))) (fun n hn =>
      clear_of_not_mem (elsewhere n (List.mem_append_right _ hn))) (ih inner)

/-- **An outline that holds a declaration whose uses are bounded**: the
declaration, at `sp`, does not come out of it, and what means it stands in one
of the places `T`. -/
structure Bounded (sp : Option Span) (T : Option Span → Prop)
    (os : List Outline) : Prop where
  undeclared : ∀ r, ∀ d ∈ reachingAll r os, d.span ≠ sp
  used : ∀ frames : List (List Declared), (∀ f ∈ frames, ∀ d ∈ f, d.span ≠ sp) →
    ∀ u ∈ resolvedAll frames os, Means sp u.means → T u.span

/-- Whatever does not hold the declaration keeps its uses bounded. -/
theorem bounded_allowsOthers (sp : Option Span) (T : Option Span → Prop) :
    AllowsOthers (fun p => p.2 = sp) (Bounded sp T) where
  nil := ⟨fun _ _ h => (by cases h), fun _ _ _ h => (by cases h)⟩
  append := by
    intro os os' h h'
    refine ⟨fun r d hd => ?_, fun frames none u hu => ?_⟩
    · rw [reachingAll_append] at hd
      exact (List.mem_append.1 hd).elim (h.undeclared r d) (h'.undeclared r d)
    · rw [resolvedAll_append] at hu
      exact (List.mem_append.1 hu).elim (h.used frames none u)
        (h'.used frames none u)
  scope := by
    intro os k h
    refine ⟨fun r d hd => ?_, fun frames none u hu => ?_⟩
    · rw [reachingAll, reaching, reachingAll, List.append_nil] at hd
      exact h.undeclared _ d hd
    · rw [resolvedAll, resolved, resolvedAll, List.append_nil] at hu
      exact h.used _ (List.forall_mem_cons.2 ⟨h.undeclared _, none⟩) u hu
  reference := by
    intro x s k h
    refine ⟨fun r d hd => (by cases hd), fun frames none u hu means => ?_⟩
    cases List.mem_singleton.1 hu
    exact h.used frames none
      ⟨x, s, .read, lookUp frames x⟩ List.mem_cons_self means
  unrecognized _ := ⟨fun _ _ h => (by cases h), fun _ _ _ h => (by cases h)⟩
  malformed _ := ⟨fun _ _ h => (by cases h), fun _ _ _ h => (by cases h)⟩
  declaration other k :=
    ⟨fun _ => undeclared_declaration other k, fun _ _ _ h => (by cases h)⟩
  helper := fun {x s} other k origin =>
    ⟨fun _ => undeclared_declaration (x := x) other k,
      fun _ _ _ h => (by cases h)⟩
  use := by
    intro x s other
    refine ⟨fun r d hd => (by cases hd), fun frames none u hu means => ?_⟩
    cases List.mem_singleton.1 hu
    obtain ⟨d, found, same⟩ := means
    obtain ⟨-, f, hf, hd⟩ := mem_of_lookUp found
    exact absurd same (none f hf d hd)

/-- The callback of a call of the helper: its parameter, where that stands, and
its body. -/
structure Callback where
  name : String
  parameter : Option Span
  body : Node

/-- The callback among the arguments of a call. -/
def callback? (arguments : List Node) : Option Callback :=
  match arguments with
  | [_, callback] =>
    match callback.stripParens with
    | .node (.arrow _) _ (.node .list _ [.node (.bindingIdent name _) s _] ::
        body :: _) =>
      some ⟨name, s, body⟩
    | _ => none
  | _ => none

/-- A reference is resolved to a binding that is declared at a span. -/
def Table.ResolvesTo (t : Table) (r : Reference) (declared : Option Span) :
    Prop :=
  ∃ id, t.resolve r.scope r.name = some id ∧
    (t.bindings.getD id default).span = declared

theorem Table.means_of_resolvesTo {t : Table} {r : Reference}
    {declared : Option Span} (h : t.ResolvesTo r declared) :
    Means declared (t.resolution r).means := by
  obtain ⟨id, found, same⟩ := h
  refine ⟨declaredOf (t.bindings.getD id default), ?_, same⟩
  rw [resolution, meaning, found]
  rfl

section Callback

variable {m : String} {policy : Transform.ChainPolicy} {name : String}
  {body : Node} {a b : Bool} {s l i : Option Span} {rest ascription : List Node}

/-- The base of a body is the parameter, by name. -/
theorem leaf_mentioned {steps : List Step} (h : Spine policy name body steps) :
    (name, leaf body) ∈ mentions body := by
  induction h with
  | leaf s ns => exact mem_mentions.2 (.inl ⟨rfl, rfl⟩)
  | paren s _ ih | member s _ _ ih =>
    exact mem_mentions.2 (.inr ⟨_, List.mem_cons_self, ih⟩)
  | call s l _ _ _ _ ih =>
    exact mem_mentions.2 (.inr ⟨_, List.mem_cons_self, ih⟩)

theorem mem_spans_of_uncheckedKey {property : Node} {sp : Option Span}
    (h : sp ∈ uncheckedKey name property) : sp ∈ spans property := by
  unfold uncheckedKey at h
  split at h
  · rename_i span key
    exact mem_spans.2 ⟨name, mem_mentions_of_child (n := .node .computed span
      [key]) List.mem_cons_self (Seen.mentioned (.inr h))⟩
  · exact mem_spans.2 ⟨name, mem_everywhere.1 h⟩

/-- **The base of a body is looked at.** -/
theorem leaf_not_unchecked {steps : List Step}
    (h : Spine policy name body steps) (distinct : (spans body).Nodup) :
    leaf body ∉ unchecked name body := by
  induction h with
  | leaf s ns => exact List.not_mem_nil
  | paren s rest ih => exact ih (spans_distinct [] distinct).1
  | @member s object property steps clean rest ih =>
    obtain ⟨inner, alone⟩ := spans_distinct [] distinct
    have base := (alone _ (mem_spans.2 ⟨name, leaf_mentioned rest⟩)).2
    rw [unchecked_member, List.mem_append, not_or]
    exact ⟨ih inner,
      fun h => base property List.mem_cons_self (mem_spans_of_uncheckedKey h)⟩
  | @call s l callee typeArguments arguments steps permissive ordinary
      clean rest ih =>
    obtain ⟨inner, alone⟩ := spans_distinct [] distinct
    have base := (alone _ (mem_spans.2 ⟨name, leaf_mentioned rest⟩)).2
    rw [unchecked, List.mem_append, List.mem_append, not_or, not_or]
    refine ⟨ih inner,
      fun h => base (.node .list l arguments) List.mem_cons_self ?_, fun h =>
      base typeArguments (List.mem_cons_of_mem _ List.mem_cons_self)
        (mem_spans.2 ⟨name, mem_everywhere.1 h⟩)⟩
    obtain ⟨n, hn, h⟩ := mem_overlookedAmong.1 h
    exact mem_spans.2
      ⟨name, mem_mentions.2 (.inr ⟨n, hn, Seen.mentioned (.inr h)⟩)⟩

/-- **The uses of a parameter are bounded by its arrow function.** -/
theorem bounded_arrow {steps : List Step} (h : Spine policy name body steps)
    (notBlock : body.kind ≠ .block)
    (isRegular : regular (.node (.arrow a) s (.node .list l
      [.node (.bindingIdent name b) i ascription] :: body :: rest)) = true)
    (clear : i ∉ spans body) (c : Context) :
    Bounded i (fun s => s = leaf body ∨ s ∈ unchecked name body)
      (said m c (.node (.arrow a) s (.node .list l
      [.node (.bindingIdent name b) i ascription] :: body :: rest))) := by
  have bodyRegular :=
    regular_child isRegular (List.mem_cons_of_mem _ List.mem_cons_self)
  have inside :=
    confined_body (m := m) h bodyRegular (clear_of_not_mem clear) c.inScope
  have scope : said m c (.node (.arrow a) s (.node .list l
      [.node (.bindingIdent name b) i ascription] :: body :: rest)) = [.scope
      .function (.declaration name i .param :: said m c.inScope body)] := by
    rw [said_node]
    simp only [outlineOf, part_toParts, functionOutline, child,
      List.getD_cons_zero, List.getD_cons_succ]
    rw [bodyOutline, node_toPart]
    split
    · rename_i isBlock
      exact absurd isBlock notBlock
    · rfl
  rw [scope]
  refine ⟨fun r d hd => ?_, fun frames none u hu means => ?_⟩
  · rw [reachingAll, reaching, reachingAll, List.append_nil, reachingAll] at hd
    rcases List.mem_append.1 hd with hd | hd
    · cases hd
    · exact inside.undeclared _ d hd
  · rw [resolvedAll, resolved, resolvedAll, List.append_nil] at hu
    have inBody : u ∈ resolvedAll (reachingAll (.own .function)
        (.declaration name i .param :: said m c.inScope body) :: frames)
        (said m c.inScope body) := hu
    refine (inside.used _ ?_ u inBody means).2
    intro f hf d hd same
    rcases List.mem_cons.1 hf with rfl | hf
    · rw [reachingAll] at hd
      rcases List.mem_append.1 hd with hd | hd
      · cases List.mem_singleton.1 hd
        rfl
      · exact absurd same (inside.undeclared _ d hd)
    · exact absurd same (none f hf d hd)

end Callback

/-- **The parameter of a callback stays in its chain, as far as the walk
looks.** In a program whose identifiers have spans of their own, take a call
that can be taken apart. The base of the body is the only use that the analysis
resolves to the parameter of the callback, if and only if no use that it
resolves to the parameter stands in a place that the walk does not look at. -/
theorem parameter_stays_iff {m : String} {program : Node} {analysis : Analysis}
    {policy : Transform.ChainPolicy} {s l span : Option Span} {callee : Node}
    {arguments rest : List Node} {chain : AccessChain}
    (isRegular : regular program = true) (distinct : (spans program).Nodup)
    (analyzed : analyze m program = .ok analysis)
    (call : Occurs
      (.node .call s (callee :: .node .list l arguments :: rest)) program)
    (taken : decompose policy span arguments = .ok chain) :
    ∃ callback, callback? arguments = some callback ∧
      ((∀ r ∈ analysis.table.references,
        analysis.table.ResolvesTo r callback.parameter →
        r.span = leaf callback.body) ↔ ∀ r ∈ analysis.table.references,
        analysis.table.ResolvesTo r callback.parameter →
        r.span ∉ unchecked callback.name callback.body) := by
  obtain ⟨parts, given, walked, -, -⟩ := decompose_ok taken
  cases given with
  | @intro base callback body name isAsync isOptional t l' i ascription types
      notSpread _ isArrow notBlock =>
  refine ⟨⟨name, i, body⟩, by simp only [callback?, isArrow], ?_⟩
  have occurs : Occurs callback.stripParens program := by
    have inList :
        Occurs callback.stripParens (.node .list l [base, callback]) :=
      .inside (List.mem_cons_of_mem _ List.mem_cons_self)
        (Occurs.stripParens callback)
    have inCall : Occurs callback.stripParens
        (.node .call s (callee :: .node .list l [base, callback] :: rest)) :=
      .inside (List.mem_cons_of_mem _ List.mem_cons_self) inList
    exact inCall.trans call
  rw [isArrow] at occurs
  have inArrow : i ∈ spans (.node (.arrow isAsync) t (.node .list l'
      [.node (.bindingIdent name isOptional) i ascription] :: body :: types)) :=
    mem_spans.2
      ⟨name, mem_mentions.2 (.inr ⟨_, List.mem_cons_self, mem_mentions.2
      (.inr ⟨_, List.mem_cons_self, mem_mentions.2 (.inl ⟨rfl, rfl⟩)⟩)⟩)⟩
  have arrowDistinct := occurs.distinct distinct
  have housed :=
    housed_of_occurs occurs inArrow ⟨rfl, rfl, nofun, rfl, nofun⟩ distinct
  have notInBody : i ∉ spans body :=
    ((spans_distinct [] arrowDistinct).2 i (mem_spans.2 ⟨name, mem_mentions.2
      (.inr ⟨_, List.mem_cons_self, mem_mentions.2 (.inl ⟨rfl, rfl⟩)⟩)⟩)).2 body
      List.mem_cons_self
  have bodyDistinct : (spans body).Nodup :=
    (spans_distinct [_] arrowDistinct).1
  have bounded : Bounded i (fun s => s = leaf body ∨ s ∈ unchecked name body)
      (outline m program) :=
    said_of_housed (bounded_allowsOthers i _)
      (fun n isArrow isRegular c => by
        subst isArrow
        exact bounded_arrow walked notBlock isRegular notInBody c)
      isRegular housed {}
  have places : ∀ r ∈ analysis.table.references, analysis.table.ResolvesTo r i →
      r.span = leaf body ∨ r.span ∈ unchecked name body := by
    have table : analysis.table = Table.ofOutline (outline m program) := by
      unfold analyze at analyzed
      dsimp only at analyzed
      split at analyzed <;> cases analyzed
      rfl
    rw [table]
    intro r hr resolves
    refine bounded.used [reachingAll .root (outline m program)] ?_
      ((Table.ofOutline (outline m program)).resolution r) ?_
      (Table.means_of_resolvesTo resolves)
    · intro f hf
      cases List.mem_singleton.1 hf
      exact bounded.undeclared _
    · rw [← Table.resolve_ofOutline]
      exact List.mem_map_of_mem hr
  have baseSeen := leaf_not_unchecked walked bodyDistinct
  refine ⟨fun stays r hr resolves => ?_, fun looked r hr resolves => ?_⟩
  · rw [stays r hr resolves]
    exact baseSeen
  · exact (places r hr resolves).resolve_right (looked r hr resolves)

/-- The span of some characters in a row. -/
def at? (start stop : Nat) : Option Span :=
  some ⟨start, stop⟩

/-- `a, _ => _.b(_ = c)`, which assigns to the parameter in an argument. -/
def assigningArguments : List Node :=
  [.node (.ident "a") (at? 4 5) [], .node (.arrow false) (at? 7 22)
    [.node .list none [.node (.bindingIdent "_" false) (at? 7 8) [.none]],
    .node .call (at? 12 22) [.node .member (at? 12 15)
    [.node (.ident "_") (at? 12 13) [], .node (.propName "b") (at? 14 15) []],
    .node .list none [.node (.assign .plain) (at? 16 21) [.node (.ident "_")
    (at? 16 17) [], .node (.ident "c") (at? 20 21) []]], .none], .none, .none]]

/-- `idx(a, _ => _.b(_ = c));` -/
def assigningProgram : Node :=
  .node (.program false none) (at? 0 24)
    [.node .exprStmt (at? 0 24) [.node .call (at? 0 23) [.node (.ident "idx")
    (at? 0 3) [], .node .list none assigningArguments, .none]]]

/-- A parameter that is assigned to in an argument gets out of its chain: the
call can be taken apart, and the analysis resolves the target of the assignment
to the parameter. -/
theorem assigned_parameter_strays :
    ∃ analysis, analyze "idx" assigningProgram = .ok analysis ∧
      ∃ callback, callback? assigningArguments = some callback ∧
      ¬ ∀ r ∈ analysis.table.references, analysis.table.ResolvesTo r
        callback.parameter → r.span = leaf callback.body := by
  have call : Occurs (.node .call (at? 0 23) [.node (.ident "idx") (at? 0 3) [],
      .node .list none assigningArguments, .none]) assigningProgram :=
    .inside List.mem_cons_self (.inside List.mem_cons_self .here)
  have analyzed : analyze "idx" assigningProgram =
      .ok ⟨Table.ofOutline (outline "idx" assigningProgram),
      ⟨(identifiers assigningProgram).eraseDups⟩⟩ := rfl
  obtain ⟨chain, taken⟩ : ∃ chain, decompose .permissive
      (at? 0 23) assigningArguments = .ok chain := ⟨_, rfl⟩
  obtain ⟨callback, given, stays⟩ :=
    parameter_stays_iff rfl (by decide +kernel) analyzed call taken
  refine ⟨_, analyzed, callback, given, fun all => ?_⟩
  cases given
  exact stays.1 all ⟨"_", at? 16 17, .write, 1⟩ (by decide +kernel)
    ⟨0, by decide +kernel, by decide +kernel⟩ (by decide +kernel)

end NullGuard.Scope
