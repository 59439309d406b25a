import NullGuard.Proofs.Kept

/-!
# Where a rewrite declares its temporaries

A holder is a body: the block of a function, an arrow function, an accessor or a
static block, or the program. The temporaries that are made inside of a holder
are declared in it, behind its directives, and all other places in which they
stand are uses inside of it. Parameters, keys and decorators of the holder are
outside of it, and no temporary of the holder stands there.

`rewrites_located` proves this of every rewrite, for one new name at a time. The
name is nowhere if it was not made on the way; it is only used if it is still to
be declared further out (`Held`); otherwise there is one `Home` that it does not
leave. The proof is an induction on the rewrite. Its idea is that a name is made
once, so that of several nodes at most one has it.
-/

namespace NullGuard.Transform

open NullGuard.Text (Span)
open NullGuard.Tree NullGuard.Chain NullGuard.Scope

/-- Some statements declare a name, and are the only ones to use it. -/
inductive Hosts (t : String) : List Node → Prop where
  | intro {names : List String} {front back : List Node} (among : t ∈ names)
      (distinct : names.Nodup) (before : ∀ n ∈ front, Held t n)
      (behind : ∀ n ∈ back, Held t n) :
      Hosts t (front ++ varStatement names :: back)

/-- The body that declares a name. -/
inductive HostBody (t : String) : Node → Prop where
  | block {s : Option Span} {items : List Node} (hosts : Hosts t items) :
      HostBody t (.node .block s items)

/-- The home of a name: a node with a body that declares it. -/
inductive Home (t : String) : Node → Prop where
  | intro {k : Kind} {s : Option Span} {before after : List Node} {body : Node}
      (place : bodyIndex k = some before.length) (declares : HostBody t body)
      (clearBefore : AllClear t before) (clearAfter : AllClear t after) :
      Home t (.node k s (before ++ body :: after))

section Homes

variable {t : String} {names : List String} {items : List Node}

/-- A node without a body of its own is no home. -/
theorem noHome (k : Kind) (s : Option Span) (ns : List Node)
    (none : bodyIndex k = none) : ¬ Home t (.node k s ns) := by
  intro home
  cases home with
  | intro place _ _ _ => cases none.symm.trans place

/-- A home is a home in the sense of what is said about names. -/
theorem Home.isHome {n : Node} (h : Home t n) : IsHome n := by
  cases h with
  | @intro k s before after body place declares clearBefore clearAfter =>
    refine ⟨?_, ?_, ?_, ?_, ?_⟩
    · cases k <;> first | rfl | cases place
    · cases k <;> first | rfl | cases place
    · rintro rfl
      cases place
    · cases k <;> first | rfl | cases place
    · rintro b rfl
      cases place

/-- None of the parts of a home is itself the name. -/
theorem Home.others {n : Node} (h : Home t n) :
    ∀ c ∈ n.children, Other (named t) c := by
  cases h with
  | @intro k s before after body place declares clearBefore clearAfter =>
    intro c hc
    rcases List.mem_append.1 hc with hc | hc
    · exact (clearBefore c hc).other
    · rcases List.mem_cons.1 hc with rfl | hc
      · cases declares
        exact other_iff.2 nofun
      · exact (clearAfter c hc).other

/-- The body of a home. -/
theorem Home.body {k : Kind} {s : Option Span} {ns : List Node}
    (h : Home t (.node k s ns)) :
    ∃ i body, bodyIndex k = some i ∧ ns[i]? = some body ∧ HostBody t body := by
  cases h with
  | @intro _ _ before after body place declares _ _ =>
    exact ⟨before.length, body, place, by simp, declares⟩

theorem clear_varStatement (other : t ∉ names) :
    Clear (named t) (varStatement names) := by
  refine clear_node.2 ⟨nofun, fun n hn => ?_⟩
  obtain ⟨x, hx, rfl⟩ := List.mem_map.1 hn
  refine clear_node.2 ⟨nofun, ?_⟩
  have missing : Clear (named t) .none := clear_node.2 ⟨nofun, nofun⟩
  refine List.forall_mem_cons.2 ⟨clear_node.2 ⟨?_, ?_⟩,
    List.forall_mem_singleton.2 missing⟩
  · intro isName
    cases isName
    exact other hx
  · exact List.forall_mem_singleton.2 missing

theorem hosts_declareIn (among : t ∈ names) (distinct : names.Nodup)
    (held : ∀ n ∈ items, Held t n) :
    Hosts t (declareIn names items) := by
  rcases declareIn_eq names items with ⟨-, rfl⟩ | ⟨front, back, same, rfl⟩
  · cases among
  · rw [same]
    obtain ⟨before, behind⟩ := List.forall_mem_append.1 held
    exact .intro among distinct before behind

theorem clear_declareIn (other : t ∉ names) (clear : AllClear t items) :
    AllClear t (declareIn names items) := by
  rcases declareIn_eq names items with ⟨same, -⟩ | ⟨front, back, same, rfl⟩
  · rwa [same]
  · rw [same]
    obtain ⟨before, behind⟩ := List.forall_mem_append.1 clear
    exact List.forall_mem_append.2
      ⟨before, List.forall_mem_cons.2 ⟨clear_varStatement other, behind⟩⟩

theorem placed_declareIn {Home : Node → Prop} (other : t ∉ names)
    (placed : Placed t Home items) :
    Placed t Home (declareIn names items) := by
  rcases declareIn_eq names items with ⟨same, -⟩ | ⟨front, back, same, rfl⟩
  · rwa [same]
  · rw [same, Placed.append_iff]
    rcases Placed.append_iff.1 placed with ⟨placed, clear⟩ | ⟨clear, placed⟩
    · exact .inl
        ⟨placed, List.forall_mem_cons.2 ⟨clear_varStatement other, clear⟩⟩
    · exact .inr ⟨clear, .behind (clear_varStatement other) placed⟩

end Homes

section Arguments

variable {t : String} {policy : ChainPolicy} {span : Option Span}
  {arguments : List Node} {c : AccessChain}

theorem clear_of_decompose (h : decompose policy span arguments = .ok c)
    (clear : AllClear t arguments) :
    AllClear t (c.base :: pieces c.steps) := by
  intro n hn p hp
  obtain ⟨m, hm, occurs⟩ := occurs_of_decompose h hn
  exact clear m hm p (occurs.mentions hp)

/-- What is only used in the arguments of a helper call is only used in its
pieces. -/
theorem held_of_decompose (h : decompose policy span arguments = .ok c)
    (held : ∀ n ∈ arguments, Held t n) :
    Held t c.base ∧ ∀ step ∈ c.steps, StepHeld t step := by
  obtain ⟨call, helper, walked, same, -⟩ := decompose_ok h
  cases helper with
  | @intro base callback body name isAsync isOptional s l i ascription rest _ _
      isArrow notBlock =>
    refine ⟨same ▸ held base List.mem_cons_self,
      fun step hs => held_of_spine walked ?_ hs⟩
    have whole :=
      (held callback (List.mem_cons_of_mem _ List.mem_cons_self)).used.of_occurs
      (.stripParens callback)
    rw [isArrow] at whole
    exact whole.of_occurs
      (.inside (List.mem_cons_of_mem _ List.mem_cons_self) .here)

theorem Placed.stripParens {n : Node} (h : Placed t (Home t) [n]) :
    Placed t (Home t) [n.stripParens] := by
  fun_induction Node.stripParens n with
  | case1 s inner ih => exact ih (h.children (noHome _ _ _ rfl))
  | case2 => exact h

/-- What has a home in the arguments of a helper call has it in its pieces. The
callback itself is no home, because its body is no block. -/
theorem placed_of_decompose (h : decompose policy span arguments = .ok c)
    (placed : Placed t (Home t) arguments) :
    Placed t (Home t) (c.base :: pieces c.steps) := by
  obtain ⟨call, helper, walked, same, -⟩ := decompose_ok h
  cases helper with
  | @intro base callback body name isAsync isOptional s l i ascription rest _ _
      isArrow notBlock =>
    rw [same]
    rcases Placed.cons_iff.1 placed with ⟨housed, clear⟩ | ⟨clear, placed⟩
    · refine .here housed fun n hn p hp => ?_
      have inArrow : Occurs n callback.stripParens := by
        rw [isArrow]
        exact .inside (List.mem_cons_of_mem _ List.mem_cons_self)
          (occurs_of_spine walked hn)
      exact clear callback List.mem_cons_self p
        ((inArrow.trans (.stripParens callback)).mentions hp)
    · have arrow := placed.stripParens
      rw [isArrow] at arrow
      have parts := arrow.children fun home => by
        obtain ⟨i, body', place, there, declares⟩ := home.body
        cases place
        cases there
        cases declares
        exact notBlock rfl
      exact .behind clear (placed_of_spine walked noHome parts.tail.head)
end Arguments

section Located

variable {setting : Setting} {t : String} {js : List Treatment}
  {ns ns' : List Node} {h : List String} {a : List RewrittenCall}

/-- **Where a temporary that is declared is**, among several nodes that were
treated in some ways: in one home, or in a body that declares it and is about to
become part of its home. -/
inductive Located (t : String) (js : List Treatment) : List Node → Prop where
  | placed {ns : List Node} (placed : Placed t (Home t) ns) : Located t js ns
  | body {before after : List Node} {n : Node} {j : Treatment}
      (treated : js[before.length]? = some j) (isBody : isBody j = true)
      (declares : HostBody t n) (clearBefore : AllClear t before)
      (clearAfter : AllClear t after) :
      Located t js (before ++ n :: after)

namespace Located

variable {j : Treatment} {n : Node}

theorem cons_clear (clear : Clear (named t) n) (h : Located t js ns) :
    Located t (j :: js) (n :: ns) := by
  cases h with
  | placed placed => exact .placed (.behind clear placed)
  | @body before after m _ treated isBody declares clearBefore clearAfter =>
    rw [← List.cons_append]
    exact .body treated isBody declares
      (List.forall_mem_cons.2 ⟨clear, clearBefore⟩) clearAfter

theorem append_clear {js' : List Treatment} {ms : List Node}
    (h : Located t js ns) (clear : AllClear t ms) :
    Located t (js ++ js') (ns ++ ms) := by
  cases h with
  | placed placed => exact .placed (placed.append_clear clear)
  | @body before after m _ treated isBody declares clearBefore clearAfter =>
    rw [List.append_assoc, List.cons_append]
    have there : (js ++ js')[before.length]? = js[before.length]? :=
      List.getElem?_append_left (List.getElem?_eq_some_iff.1 treated).1
    exact .body (there.trans treated) isBody declares clearBefore
      (List.forall_mem_append.2 ⟨clearAfter, clear⟩)

/-- What is located among nodes of which none becomes a body is placed. -/
theorem toPlaced (h : Located t js ns) (plain : ∀ j ∈ js, isBody j = false) :
    Placed t (Home t) ns := by
  cases h with
  | placed placed => exact placed
  | body treated isBody =>
    cases (plain _ (List.mem_of_getElem? treated)).symm.trans isBody

/-- A body that declares a name becomes part of the home of the name, where its
parent is put together. -/
theorem node {k : Kind} {s : Option Span} {ms : List Node}
    (own : identifier? k ≠ some t) (removals : List (Option Span))
    (h : Located t (treatments k ms) ns) :
    Placed t (Home t) [.node k s (finish removals k ns)] := by
  cases h with
  | placed placed =>
    exact ((trims_finish removals k ns).placed noHome placed).node own
  | @body before after n j treated isBody declares clearBefore clearAfter =>
    have place := bodyIndex_of_treatments treated isBody
    rw [finish_of_bodyIndex place]
    have home : Home t (.node k s (before ++ n :: after)) :=
      .intro place declares clearBefore clearAfter
    exact .here (.home home.isHome home) nofun

end Located

theorem plain_place (ns : List Node) :
    ∀ j ∈ ns.map fun _ => Treatment.place, isBody j = false := by
  intro j hj
  obtain ⟨n, -, rfl⟩ := List.mem_map.1 hj
  rfl

theorem plain_arguments (ns : List Node) :
    ∀ j ∈ argumentTreatments ns, isBody j = false := by
  intro j hj
  obtain ⟨i, there⟩ := List.mem_iff_getElem?.1 hj
  rcases treatment_of_argument there with rfl | rfl <;> rfl

/-- **What a rewrite does with one new name**: it is nowhere if it was not made
on the way, it is only used if it is still to be declared, and otherwise it has
a home. -/
structure Follows (t : String) (js : List Treatment) (ns' : List Node)
    (h ts : List String) : Prop where
  clear : t ∉ ts → AllClear t ns'
  held : t ∈ h → ∀ n ∈ ns', Held t n
  located : t ∈ ts → t ∉ h → Located t js ns'

theorem follows_of_clear (clear : AllClear t ns) (h ts : List String) :
    Follows t js ns h ts :=
  ⟨fun _ => clear, fun _ n hn => held_of_clear (clear n hn),
    fun _ _ => .placed (.nowhere clear)⟩

namespace Follows

variable {ts : List String} {j : Treatment} {n n' : Node}

/-- Of two parts of which at most one has made the name, the other one does not
have it. -/
theorem cons {g us : List String} (head : Follows t [j] [n] h ts)
    (tail : Follows t js ns g us) (declared : h ⊆ ts) (declared' : g ⊆ us)
    (distinct : (ts ++ us).Nodup) :
    Follows t (j :: js) (n :: ns) (h ++ g) (ts ++ us) := by
  have apart : t ∈ ts → t ∉ us :=
    fun ht ht' => (List.nodup_append.1 distinct).2.2 t ht t ht' rfl
  refine ⟨fun unmade => ?_, fun still => ?_, fun made none => ?_⟩
  · rw [List.mem_append, not_or] at unmade
    exact List.forall_mem_cons.2 ⟨head.clear unmade.1 n List.mem_cons_self,
      tail.clear unmade.2⟩
  · rcases List.mem_append.1 still with still | still
    · have away := tail.clear (apart (declared still))
      exact List.forall_mem_cons.2 ⟨head.held still n List.mem_cons_self,
        fun m hm => held_of_clear (away m hm)⟩
    · have away := head.clear fun made => apart made (declared' still)
      exact List.forall_mem_cons.2 ⟨held_of_clear (away n List.mem_cons_self),
        tail.held still⟩
  · rw [List.mem_append, not_or] at none
    rcases List.mem_append.1 made with made | made
    · exact (head.located made none.1).append_clear (tail.clear (apart made))
    · exact .cons_clear (head.clear (fun made' => apart made' made) n
        List.mem_cons_self) (tail.located made none.2)

/-- Nodes that are put together to one node anew, where none of them becomes a
body. -/
theorem map {ms : List Node} (follows : Follows t js ns h ts)
    (js' : List Treatment) (clear : AllClear t ns → AllClear t ms)
    (held : (∀ n ∈ ns, Held t n) → ∀ n ∈ ms, Held t n)
    (located : Located t js ns → Located t js' ms) : Follows t js' ms h ts :=
  ⟨fun unmade => clear (follows.clear unmade), fun still => held
    (follows.held still), fun made none => located (follows.located made none)⟩

/-- A node over children that are as they are. -/
theorem node {k : Kind} {s : Option Span} (own : identifier? k ≠ some t)
    (follows : Follows t js ns h ts) (plain : ∀ j ∈ js, isBody j = false)
    (js' : List Treatment) :
    Follows t js' [.node k s ns] h ts :=
  follows.map js' (fun clear => List.forall_mem_singleton.2 (clear_node.2 ⟨own,
    clear⟩)) (fun held => List.forall_mem_singleton.2 (held_node own held))
    fun located => .placed ((located.toPlaced plain).node own)

/-- A node over children that were tidied up. -/
theorem finished {k : Kind} {s : Option Span} {ms : List Node}
    (own : identifier? k ≠ some t)
    (follows : Follows t (treatments k ms) ns h ts)
    (removals : List (Option Span)) (js' : List Treatment) :
    Follows t js' [.node k s (finish removals k ns)] h ts :=
  have trims := trims_finish removals k ns
  follows.map js' (fun clear => List.forall_mem_singleton.2
    (clear_node.2 ⟨own, trims.clear clear⟩))
    (fun held => List.forall_mem_singleton.2 (held_node own (trims.held held)))
    fun located => .placed (located.node own removals)

/-- Items of which some are dropped. -/
theorem filter (follows : Follows t js ns h ts)
    (plain : ∀ j ∈ js, isBody j = false) (p : Node → Bool) :
    Follows t js (ns.filter p) h ts :=
  have trims := Trims.filter p ns
  follows.map js trims.clear trims.held fun located =>
    .placed (trims.placed noHome (located.toPlaced plain))

end Follows

/-- A holder declares what was made in it: the name is declared among its items,
or it is as it was. -/
theorem declares_or {names : List String} {items : List Node} {ts : List String}
    (follows : Follows t js items h ts) (plain : ∀ j ∈ js, isBody j = false)
    (all : names.Perm h) (distinct : h.Nodup) (declared : h ⊆ ts) :
    (t ∉ ts → AllClear t (declareIn names items)) ∧
      (t ∈ h → Hosts t (declareIn names items)) ∧
      (t ∈ ts → t ∉ h → Placed t (Home t) (declareIn names items)) := by
  have other (none : t ∉ h) : t ∉ names :=
    fun among => none (all.mem_iff.1 among)
  refine ⟨fun unmade => ?_, fun still => ?_, fun made none => ?_⟩
  · exact clear_declareIn (other fun still => unmade (declared still))
      (follows.clear unmade)
  · exact hosts_declareIn (all.mem_iff.2 still) (all.nodup_iff.2 distinct)
      (follows.held still)
  · exact placed_declareIn (other none)
      ((follows.located made none).toPlaced plain)

/-- A name that is only used in the body of an arrow function is declared
there. -/
theorem hostBody_arrowBody {names : List String} {n : Node} (among : t ∈ names)
    (distinct : names.Nodup) (held : Held t n) :
    HostBody t (arrowBody names n) := by
  unfold arrowBody
  split
  · exact .block
      (hosts_declareIn among distinct fun m hm => held.used.child rfl hm)
  · split
    · rename_i empty
      rw [List.isEmpty_iff.1 empty] at among
      cases among
    · have value :=
        (trimming_unwrap n .nil).held (List.forall_mem_singleton.2 held)
      have statement : Held t (made .returnStmt [unwrap n]) :=
        held_node nofun value
      have hosts :
          Hosts t ([] ++ varStatement names :: [made .returnStmt [unwrap n]]) :=
        .intro among distinct nofun (List.forall_mem_singleton.2 statement)
      exact .block hosts

/-- A name that the body of an arrow function does not declare is where it
was. -/
theorem placed_arrowBody {names : List String} {n : Node} (other : t ∉ names)
    (placed : Placed t (Home t) [n]) :
    Placed t (Home t) [arrowBody names n] := by
  unfold arrowBody
  split
  · exact (placed_declareIn other (placed.children (noHome _ _ _ rfl))).node
      nofun
  · split
    · exact (trimming_unwrapConditional n .nil).placed noHome placed
    · have value := (trimming_unwrap n .nil).placed noHome placed
      have statement : Placed t (Home t) [made .returnStmt [unwrap n]] :=
        value.node nofun
      exact Placed.node nofun (.behind (clear_varStatement other) statement)

theorem clear_arrowBody {names : List String} {n : Node} (other : t ∉ names)
    (clear : Clear (named t) n) :
    Clear (named t) (arrowBody names n) := by
  unfold arrowBody
  split
  · exact clear_node.2 ⟨nofun, clear_declareIn other (clear_node.1 clear).2⟩
  · have all : AllClear t [n] := List.forall_mem_singleton.2 clear
    split
    · exact (trimming_unwrapConditional n .nil).clear all _ List.mem_cons_self
    · have value := (trimming_unwrap n .nil).clear all
      refine clear_node.2
        ⟨nofun, List.forall_mem_cons.2 ⟨clear_varStatement other, ?_⟩⟩
      exact List.forall_mem_singleton.2 (clear_node.2 ⟨nofun, value⟩)

/-- What a helper call becomes has a name where its arguments have it, and the
temporary is only used. -/
theorem follows_call {policy : ChainPolicy} {span : Option Span} {u : String}
    {c : AccessChain} {ts : List String}
    (follows : Follows t (argumentTreatments ns) ns' h ts)
    (taken : decompose policy span (ns'.map unwrapItem) = .ok c)
    (made : c.needsTemporary = true → u ≠ t) :
    Follows t [.place] [c.expression u] h ts := by
  have trims := Trims.map trimming_unwrapItem ns'
  refine follows.map [.place] (fun clear => ?_) (fun held => ?_)
    fun located => ?_
  · exact List.forall_mem_singleton.2
      (clear_expression (clear_of_decompose taken (trims.clear clear)) made)
  · obtain ⟨base, steps⟩ := held_of_decompose taken (trims.held held)
    exact List.forall_mem_singleton.2 (held_expression base steps)
  · have placed := located.toPlaced (plain_arguments ns)
    exact .placed (placed_expression
      (placed_of_decompose taken (trims.placed noHome placed)) made)

/-- What a helper call becomes that makes a temporary: the temporary is used in
it and still to be declared, and all other names are as for any call. -/
theorem follows_guarded {policy : ChainPolicy} {span : Option Span} {u : String}
    {c : AccessChain} {ts : List String}
    (follows : Follows t (argumentTreatments ns) ns' h ts)
    (taken : decompose policy span (ns'.map unwrapItem) = .ok c)
    (unmade : u ∉ ts) :
    Follows t [.place] [c.expression u] (h ++ [u]) (ts ++ [u]) := by
  by_cases same : u = t
  · subst same
    have trimmed :=
      (Trims.map trimming_unwrapItem ns').clear (follows.clear unmade)
    obtain ⟨base, steps⟩ :=
      held_of_decompose taken fun m hm => held_of_clear (trimmed m hm)
    refine ⟨fun none => ?_, fun _ => List.forall_mem_singleton.2
      (held_expression base steps), fun _ none => ?_⟩
    · exact absurd (List.mem_append_right _ List.mem_cons_self) none
    · exact absurd (List.mem_append_right _ List.mem_cons_self) none
  · have call := follows_call follows taken fun _ => same
    have other : t ∉ [u] :=
      fun isLast => same (List.mem_singleton.1 isLast).symm
    refine ⟨fun none => ?_, fun still => ?_, fun made none => ?_⟩
    · exact call.clear fun made => none (List.mem_append_left _ made)
    · exact call.held ((List.mem_append.1 still).resolve_right other)
    · exact call.located ((List.mem_append.1 made).resolve_right other)
        fun still => none (List.mem_append_left _ still)

/-- A block declares what was made in it. -/
theorem follows_block {names ts : List String} {s : Option Span}
    (follows : Follows t js ns h ts) (plain : ∀ j ∈ js, isBody j = false)
    (all : names.Perm h) (distinct : h.Nodup) (declared : h ⊆ ts) :
    Follows t [.body] [.node .block s (declareIn names ns)] [] ts := by
  obtain ⟨unmade, still, elsewhere⟩ :=
    declares_or follows plain all distinct declared
  refine ⟨fun none => ?_, nofun, fun made _ => ?_⟩
  · exact List.forall_mem_singleton.2 (clear_node.2 ⟨nofun, unmade none⟩)
  · by_cases here : t ∈ h
    · have body : Located t [.body] ([] ++ [.node .block s _]) :=
        .body rfl rfl (.block (still here)) nofun nofun
      exact body
    · exact .placed ((elsewhere made here).node nofun)

/-- The body of an arrow function declares what was made in it. -/
theorem follows_arrowBody {names ts : List String} {n : Node}
    (follows : Follows t [.place] [n] h ts) (all : names.Perm h)
    (distinct : h.Nodup) (declared : h ⊆ ts) :
    Follows t [.arrowBody] [arrowBody names n] [] ts := by
  have other (none : t ∉ h) : t ∉ names :=
    fun here => none (all.mem_iff.1 here)
  refine ⟨fun unmade => ?_, nofun, fun made _ => ?_⟩
  · exact List.forall_mem_singleton.2
      (clear_arrowBody (other fun still => unmade (declared still))
      (follows.clear unmade _ List.mem_cons_self))
  · by_cases here : t ∈ h
    · have declares := hostBody_arrowBody (all.mem_iff.2 here)
        (all.nodup_iff.2 distinct) (follows.held here _ List.mem_cons_self)
      have body : Located t [.arrowBody] ([] ++ [arrowBody names n]) :=
        .body rfl rfl declares nofun nofun
      exact body
    · have placed :=
        (follows.located made here).toPlaced (List.forall_mem_singleton.2 rfl)
      exact .placed (placed_arrowBody (other here) placed)

/-- A callback whose body was rewritten. -/
theorem follows_callback {b : Bool} {s : Option Span}
    {parameters body body' : Node} {types : List Node} {ts : List String}
    (clear : Clear (named t) (.node (.arrow b) s (parameters :: body :: types)))
    (follows : Follows t [.place] [body'] h ts) :
    Follows t [.callback]
      [.node (.arrow b) s (parameters :: body' :: types)] h ts := by
  obtain ⟨own, below⟩ := clear_node.1 clear
  obtain ⟨first, rest⟩ := List.forall_mem_cons.1 below
  obtain ⟨-, others⟩ := List.forall_mem_cons.1 rest
  refine follows.map _ (fun clear => ?_) (fun held => ?_) fun located => ?_
  · exact List.forall_mem_singleton.2
      (clear_node.2 ⟨own, List.forall_mem_cons.2
      ⟨first, List.forall_mem_cons.2 ⟨clear _ List.mem_cons_self, others⟩⟩⟩)
  · exact List.forall_mem_singleton.2
      (held_node own (List.forall_mem_cons.2 ⟨held_of_clear first,
      List.forall_mem_cons.2 ⟨held _ List.mem_cons_self, fun m hm =>
        held_of_clear (others m hm)⟩⟩))
  · have placed := located.toPlaced (List.forall_mem_singleton.2 rfl)
    have behind : Placed t (Home t) ([body'] ++ types) :=
      placed.append_clear others
    exact .placed (Placed.node own (.behind first behind))

/-- What is to be declared further out was made on the way. -/
theorem rewrites_sublist (rewritten : Rewrites setting js ns ns' h a) :
    h.Sublist (temporaries a) := by
  induction rewritten with
  | nil | keep | program | block | arrowBody => exact List.nil_sublist _
  | cons head tail ih ih' =>
    rw [temporaries_append]
    exact ih.append ih'
  | base planned children taken bare ih =>
    rw [temporaries_append]
    exact ih.trans (List.sublist_append_left _ _)
  | guarded planned children taken needed ih =>
    rw [temporaries_append]
    exact ih.append (.refl _)
  | node _ _ _ ih | items _ ih | noBlock _ _ ih | function _ ih
      | callbackArrow _ ih
  | callbackInside _ _ _ ih | noCallback _ _ _ ih => exact ih

/-- **Where a rewrite leaves a name that is new to what it rewrites.** -/
theorem rewrites_located (rewritten : Rewrites setting js ns ns' h a)
    (fit : AllFit js ns) (distinct : (temporaries a).Nodup)
    (clear : AllClear t ns) :
    Follows t js ns' h (temporaries a) := by
  induction rewritten with
  | nil | keep => exact follows_of_clear clear _ _
  | cons head tail ih ih' =>
    rw [temporaries_append] at distinct ⊢
    obtain ⟨first, rest⟩ := List.forall_mem_cons.1 clear
    obtain ⟨distinct', distinct'', -⟩ := List.nodup_append.1 distinct
    exact (ih (.single fit.head) distinct'
      (List.forall_mem_singleton.2 first)).cons (ih' fit.tail distinct'' rest)
      (rewrites_sublist head).subset (rewrites_sublist tail).subset distinct
  | @node k s ns ns' h a notProgram unplanned children ih =>
    obtain ⟨own, below⟩ := clear_node.1 (clear _ List.mem_cons_self)
    exact (ih (fit_treatments fit.head.regular) distinct below).finished own _ _
  | program children all ih => cases fit.head.inner
  | @items k s ns ns' h a children ih =>
    obtain ⟨own, below⟩ := clear_node.1 (clear _ List.mem_cons_self)
    obtain ⟨-, regular, outer⟩ := regular_node.1 fit.head.regular
    have follows :=
      ih (fit_place fun n hn => ⟨regular n hn, outer n hn⟩) distinct below
    exact (follows.filter (plain_place ns) _).node own (plain_place ns) _
  | @block s ns ns' names h a children all ih =>
    obtain ⟨own, below⟩ := clear_node.1 (clear _ List.mem_cons_self)
    obtain ⟨-, regular, outer⟩ := regular_node.1 fit.head.regular
    have follows :=
      ih (fit_place fun n hn => ⟨regular n hn, outer n hn⟩) distinct below
    have among := rewrites_sublist children
    exact follows_block (follows.filter (plain_place ns) _) (plain_place ns) all
      (among.nodup distinct) among.subset
  | @noBlock n n' h a notBlock inPlace ih =>
    have follows := ih (.single
      (fit_plain fit.head.regular fit.head.inner nofun nofun)) distinct clear
    exact follows.map _ id id fun located => .placed
      (located.toPlaced (List.forall_mem_singleton.2 rfl))
  | @function k s ns ns' h a parts ih =>
    have fits := fit.head.function rfl
    cases k with
    | function b g =>
      obtain ⟨own, below⟩ := clear_node.1 (clear _ List.mem_cons_self)
      have follows : Follows t (treatments (.function b g) ns) ns' h
          (temporaries a) :=
        ih (fit_treatments fit.head.regular) distinct below
      exact follows.finished own setting.removals _
    | _ => cases fits
  | @arrowBody n n' names h a inPlace all ih =>
    have follows := ih (.single
      (fit_plain fit.head.regular fit.head.inner nofun nofun)) distinct clear
    have among := rewrites_sublist inPlace
    exact follows_arrowBody follows all (among.nodup distinct) among.subset
  | @base n arguments arguments' chain h a planned children taken bare ih =>
    rw [temporaries_append] at distinct ⊢
    have inside : AllClear t arguments.children := fun m hm =>
      ((clear n List.mem_cons_self).child (occurs_of_planned planned)).child hm
    have follows :=
      ih (fit_arguments (regular_plannedArguments planned fit.head.regular))
      (List.nodup_append.1 distinct).1 inside
    have call := follows_call (u := "") follows taken fun needed => by
      cases bare.symm.trans needed
    rwa [show temporaries [⟨calleeSpan n, none⟩] = [] from rfl, List.append_nil]
  | @guarded n arguments arguments' chain u h a planned children taken
      needed ih =>
    rw [temporaries_append] at distinct ⊢
    have inside : AllClear t arguments.children := fun m hm =>
      ((clear n List.mem_cons_self).child (occurs_of_planned planned)).child hm
    obtain ⟨distinct', -, apart⟩ := List.nodup_append.1 distinct
    have follows := ih (fit_arguments
      (regular_plannedArguments planned fit.head.regular)) distinct' inside
    have only : temporaries [⟨calleeSpan n, some u⟩] = [u] := rfl
    rw [only] at apart ⊢
    exact follows_guarded follows taken fun made =>
      apart u made u List.mem_cons_self rfl
  | @callbackArrow b s parameters body body' types h a inner ih =>
    have whole := clear _ List.mem_cons_self
    obtain ⟨-, regular, outer⟩ := regular_node.1 fit.head.regular
    have there : body ∈ parameters :: body :: types :=
      List.mem_cons_of_mem _ List.mem_cons_self
    have follows :=
      ih (.single (fit_plain (regular _ there) (outer _ there) nofun nofun))
      distinct (List.forall_mem_singleton.2 (whole.child there))
    exact follows_callback whole follows
  | @callbackInside k s n n' h a wraps arrow inner ih =>
    obtain ⟨own, below⟩ := clear_node.1 (clear _ List.mem_cons_self)
    obtain ⟨-, regular, outer⟩ := regular_node.1 fit.head.regular
    have follows := ih (.single (fit_plain (regular _ List.mem_cons_self)
      (outer _ List.mem_cons_self) nofun nofun)) distinct below
    exact follows.node own (List.forall_mem_singleton.2 rfl) _
  | noCallback notArrow notInside inPlace ih =>
    have follows := ih (.single
      (fit_plain fit.head.regular fit.head.inner nofun nofun)) distinct clear
    exact follows.map _ id id fun located => .placed
      (located.toPlaced (List.forall_mem_singleton.2 rfl))

end Located

end NullGuard.Transform
