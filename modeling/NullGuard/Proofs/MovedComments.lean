import NullGuard.Transform.Removal

/-!
# The comments of dropped items

A pass over a list of items drops some of them, and the comments in front of
those must not get lost. They move in front of the next item that stays, or
behind the last one if there is none.

One move puts comments in front of those that are there already
(`leadingAt_moveLeading`), and a run of dropped items is moved from its end to
its start; so its comments come out in the order of the source
(`settleBefore_target`). As the items of a list stand one behind the other, what
the pass does at an item never touches what stands in front of an earlier one
(`leadingAt_walk`). What becomes of the comments of a run of dropped items is
therefore settled where the run ends, and the map of comments may be read at
every offset on its own (`Moved`).
-/

namespace NullGuard.Tree.CommentMap

section Entries

variable (entries more : List (Nat × Comment)) (pos other : Nat)
  (cs : List Comment) (m : CommentMap)

@[simp] theorem entriesAt_append :
    entriesAt (entries ++ more) pos = entriesAt entries pos ++
      entriesAt more pos := by
  rw [entriesAt, List.filter_append, List.map_append]
  rfl

@[simp] theorem entriesAt_off : entriesAt (entriesOff entries pos) other =
    if other = pos then [] else entriesAt entries other := by
  rw [entriesAt, entriesOff, List.filter_filter]
  split
  · next same => simp [same]
  · next differ =>
    rw [entriesAt]
    congr 2
    funext e
    by_cases here : e.1 = other <;> simp [here, differ]

@[simp] theorem entriesAt_attached :
    entriesAt (cs.map (pos, ·)) other = if other = pos then cs else [] := by
  split
  · next same => simp [entriesAt, same, List.filter_map, Function.comp_def]
  · next differ => simp [entriesAt, List.filter_map, Function.comp_def,
      Ne.symm differ]

end Entries

section Moves

variable (m : CommentMap) {source target : Nat} (pos : Nat)

/-- What a move to a later offset leaves in front of the tokens. -/
theorem leadingAt_moveLeading (later : source < target) :
    (m.moveLeading source target).leadingAt pos = if pos = target
      then m.leadingAt source ++ m.leadingAt target else if pos = source then []
      else m.leadingAt pos := by
  have differ : target ≠ source := Nat.ne_of_gt later
  unfold moveLeading
  dsimp only [takeLeading]
  by_cases nothing : (m.leadingAt source).isEmpty = true
  · rw [if_pos nothing, List.isEmpty_iff.1 nothing]
    by_cases atTarget : pos = target
    · rw [if_pos atTarget, atTarget, List.nil_append]
    · rw [if_neg atTarget]
      by_cases atSource : pos = source
      · rw [if_pos atSource, atSource, List.isEmpty_iff.1 nothing]
      · rw [if_neg atSource]
  · rw [if_neg nothing, if_pos later]
    simp only [leadingAt, entriesAt_append, entriesAt_off, entriesAt_attached,
      if_neg differ]
    by_cases atTarget : pos = target
    · simp only [if_pos atTarget, List.nil_append]
    · simp only [if_neg atTarget, List.append_nil]

@[simp] theorem trailing_moveLeading :
    (m.moveLeading source target).trailing = m.trailing := by
  unfold moveLeading
  dsimp only [takeLeading]
  split
  · rfl
  · split <;> rfl

end Moves

end NullGuard.Tree.CommentMap

namespace NullGuard.Transform

open NullGuard.Tree

variable {programStart : Nat} {keep : Node → Bool}

section Runs

variable {sources : List Nat} {target pos : Nat} {stop : Option Nat}
  (m : CommentMap)

/-- **A run of comments keeps its order.** It is moved from its end to its
start, and each move puts comments in front of those that are there. -/
theorem leadingAt_moves (earlier : ∀ source ∈ sources, source < target)
    (distinct : sources.Nodup) :
    (sources.reverse.foldl
      (fun m source => m.moveLeading source target) m).leadingAt pos =
      if pos = target then sources.flatMap m.leadingAt ++ m.leadingAt target
      else if pos ∈ sources then [] else m.leadingAt pos := by
  induction sources generalizing pos with
  | nil => by_cases here : pos = target <;> simp [here]
  | cons source sources ih =>
    obtain ⟨first, others⟩ := List.forall_mem_cons.1 earlier
    obtain ⟨fresh, distinct⟩ := List.nodup_cons.1 distinct
    have elsewhere : source ≠ target := Nat.ne_of_lt first
    rw [List.reverse_cons, List.foldl_append, List.foldl_cons, List.foldl_nil,
      CommentMap.leadingAt_moveLeading _ _ first, ih others distinct,
      ih others distinct, ih others distinct, if_pos rfl, if_neg elsewhere,
      if_neg fresh, List.flatMap_cons, List.append_assoc]
    by_cases atTarget : pos = target
    · rw [if_pos atTarget, if_pos atTarget]
    · rw [if_neg atTarget, if_neg atTarget, if_neg atTarget]
      by_cases atSource : pos = source <;> simp [atSource]

theorem trailing_moves :
    (sources.foldl (fun m source => m.moveLeading source target) m).trailing =
      m.trailing := by
  induction sources generalizing m with
  | nil => rfl
  | cons source sources ih =>
    rw [List.foldl_cons, ih, CommentMap.trailing_moveLeading]

theorem leadingAt_settleBehind (source : Nat) :
    (settleBehind stop m source).leadingAt pos = if pos = source then []
      else m.leadingAt pos := by
  cases stop <;> exact CommentMap.entriesAt_off ..

theorem trailingAt_settleBehind (source : Nat) :
    (settleBehind stop m source).trailingAt pos = m.trailingAt pos ++ if stop =
      some pos then m.leadingAt source else [] := by
  cases stop with
  | none => simp [settleBehind, CommentMap.takeLeading, CommentMap.trailingAt]
  | some stop =>
    simp [settleBehind, CommentMap.takeLeading, CommentMap.trailingAt,
      CommentMap.addTrailings, eq_comm]

/-- The comments of the items that were dropped at the end are taken away. -/
theorem leadingAt_settles :
    (sources.foldl (settleBehind stop) m).leadingAt pos = if pos ∈ sources
      then [] else m.leadingAt pos := by
  induction sources generalizing m with
  | nil => simp
  | cons source sources ih =>
    rw [List.foldl_cons, ih, leadingAt_settleBehind]
    by_cases there : pos ∈ sources <;> simp [there]

/-- They stand behind the last item that stays, if there is one. -/
theorem trailingAt_settles (distinct : sources.Nodup) :
    (sources.foldl (settleBehind stop) m).trailingAt pos = m.trailingAt pos ++
      if stop = some pos then sources.flatMap m.leadingAt else [] := by
  induction sources generalizing m with
  | nil => simp
  | cons source sources ih =>
    obtain ⟨fresh, distinct⟩ := List.nodup_cons.1 distinct
    have same : sources.flatMap (settleBehind stop m source).leadingAt =
        sources.flatMap m.leadingAt := by
      rw [List.flatMap_def, List.flatMap_def]
      refine congrArg List.flatten (List.map_congr_left fun other there => ?_)
      rw [leadingAt_settleBehind,
        if_neg (fun same : other = source => fresh (same ▸ there))]
    rw [List.foldl_cons, ih _ distinct, trailingAt_settleBehind, same]
    by_cases here : stop = some pos <;> simp [here]

end Runs

/-- An item whose comments move, or in front of which others may come to
stand. -/
def Involved (programStart : Nat) (keep : Node → Bool) (item : Node) : Prop :=
  keep item = true ∨ itemStart item ≠ programStart

/-- The items that are still to come stand behind each other and behind those
whose comments wait. -/
def Pass.InOrder (p : Pass) (items : List Node) : Prop :=
  (p.pending ++ items.map itemStart).Pairwise (· < ·)

section Steps

variable {programStart : Nat} {keep : Node → Bool} {p : Pass} {item : Node}
  {items front back run : List Node} {pos : Nat}

theorem step_kept (stays : keep item = true) :
    p.step programStart keep item =
      { kept := p.kept ++ [item], pending := [], stop := some (itemStop
      item), comments := p.settleBefore (itemStart item) } :=
  if_pos stays

theorem step_dropped (goes : keep item = false) :
    p.step programStart keep item = { p with pending := p.pending ++
      ([item].filter fun i => itemStart i != programStart).map itemStart } := by
  rw [Pass.step, if_neg (Bool.eq_false_iff.1 goes)]
  by_cases first : itemStart item = programStart <;> simp [first]

/-- A step keeps the order. -/
theorem inOrder_step (inOrder : p.InOrder (item :: items)) :
    (p.step programStart keep item).InOrder items := by
  cases decision : keep item with
  | true =>
    rw [step_kept decision]
    exact (List.pairwise_append.1 inOrder).2.1.tail
  | false =>
    rw [step_dropped decision]
    refine List.Pairwise.sublist ?_ inOrder
    rw [List.map_cons, List.append_cons]
    refine List.Sublist.append (List.Sublist.append_left ?_ _)
      (List.Sublist.refl _)
    exact (List.filter_sublist).map itemStart

theorem Pass.InOrder.earlier (inOrder : p.InOrder (item :: items)) :
    ∀ source ∈ p.pending, source < itemStart item :=
  fun _ there => (List.pairwise_append.1 inOrder).2.2 _ there _
    List.mem_cons_self

theorem Pass.InOrder.distinct (inOrder : p.InOrder items) : p.pending.Nodup :=
  (List.pairwise_append.1 inOrder).1.imp Nat.ne_of_lt

/-- What is in front of the tokens when an item stays. -/
theorem leadingAt_step_kept (programStart pos : Nat)
    (inOrder : p.InOrder (item :: items)) (stays : keep item = true) :
    (p.step programStart keep item).comments.leadingAt pos = if pos =
      itemStart item then p.pending.flatMap p.comments.leadingAt ++
      p.comments.leadingAt (itemStart item) else if pos ∈ p.pending then []
      else p.comments.leadingAt pos := by
  rw [step_kept stays]
  exact leadingAt_moves _ inOrder.earlier inOrder.distinct

/-- A step changes nothing at an offset that it is not about. -/
theorem leadingAt_step (inOrder : p.InOrder (item :: items))
    (notPending : pos ∉ p.pending)
    (elsewhere : itemStart item = pos → ¬ Involved programStart keep item) :
    (p.step programStart keep item).comments.leadingAt pos =
      p.comments.leadingAt pos ∧
      pos ∉ (p.step programStart keep item).pending := by
  cases decision : keep item with
  | true =>
    have differ : pos ≠ itemStart item :=
      fun same => elsewhere same.symm (.inl decision)
    rw [leadingAt_step_kept programStart pos inOrder decision, if_neg differ,
      if_neg notPending, step_kept decision]
    exact ⟨rfl, List.not_mem_nil⟩
  | false =>
    rw [step_dropped decision]
    refine ⟨rfl, ?_⟩
    rw [List.mem_append, not_or]
    refine ⟨notPending, fun there => ?_⟩
    obtain ⟨i, waits, rfl⟩ := List.mem_map.1 there
    obtain ⟨only, notFirst⟩ := List.mem_filter.1 waits
    obtain rfl := List.mem_singleton.1 only
    exact elsewhere rfl (.inr (bne_iff_ne.1 notFirst))

/-- A step takes the comments of an item that waits away, or leaves them to the
next step. -/
theorem emptied_step (inOrder : p.InOrder (item :: items))
    (waits : pos ∈ p.pending ∨ p.comments.leadingAt pos = [])
    (before : pos < itemStart item) :
    pos ∈ (p.step programStart keep item).pending ∨
      (p.step programStart keep item).comments.leadingAt pos = [] := by
  cases decision : keep item with
  | true =>
    rw [leadingAt_step_kept programStart pos inOrder decision,
      if_neg (Nat.ne_of_lt before)]
    by_cases there : pos ∈ p.pending
    · exact .inr (if_pos there)
    · exact .inr ((if_neg there).trans (waits.resolve_left there))
  | false =>
    rw [step_dropped decision]
    exact waits.imp_left (List.mem_append_left _)

end Steps

section Walks

variable {programStart : Nat} {keep : Node → Bool} {p : Pass}
  {items front back run : List Node} {pos : Nat}

theorem walk_append : p.walk programStart keep (front ++ back) =
    (p.walk programStart keep front).walk programStart keep back :=
  List.foldl_append

theorem inOrder_walk (inOrder : p.InOrder (front ++ back)) :
    (p.walk programStart keep front).InOrder back := by
  induction front generalizing p with
  | nil => exact inOrder
  | cons item front ih => exact ih (inOrder_step inOrder)

/-- **The pass changes nothing at an offset that none of its items is
about.** -/
theorem leadingAt_walk (inOrder : p.InOrder items)
    (notPending : pos ∉ p.pending)
    (elsewhere : ∀ item ∈ items, itemStart item = pos →
      ¬ Involved programStart keep item) :
    (p.walk programStart keep items).comments.leadingAt pos =
      p.comments.leadingAt pos ∧
      pos ∉ (p.walk programStart keep items).pending := by
  induction items generalizing p with
  | nil => exact ⟨rfl, notPending⟩
  | cons item items ih =>
    obtain ⟨here, later⟩ := List.forall_mem_cons.1 elsewhere
    obtain ⟨same, notPending⟩ := leadingAt_step inOrder notPending here
    obtain ⟨same', notPending⟩ := ih (inOrder_step inOrder) notPending later
    exact ⟨same'.trans same, notPending⟩

/-- What is taken away stays away. -/
theorem emptied_walk (programStart : Nat) (keep : Node → Bool)
    (inOrder : p.InOrder items)
    (waits : pos ∈ p.pending ∨ p.comments.leadingAt pos = [])
    (before : ∀ item ∈ items, pos < itemStart item) :
    pos ∈ (p.walk programStart keep items).pending ∨
      (p.walk programStart keep items).comments.leadingAt pos = [] := by
  induction items generalizing p with
  | nil => exact waits
  | cons item items ih =>
    obtain ⟨here, later⟩ := List.forall_mem_cons.1 before
    exact ih (inOrder_step inOrder) (emptied_step inOrder waits here) later

/-- The pass leaves the trailing comments to its end, and it knows which items
stay and where the last of them ends. -/
theorem walk_keeps (programStart : Nat) (keep : Node → Bool) (p : Pass)
    (items : List Node) :
    (p.walk programStart keep items).comments.trailing = p.comments.trailing ∧
      (p.walk programStart keep items).kept = p.kept ++ items.filter keep ∧
      (p.walk programStart keep items).stop =
        ((items.filter keep).getLast?.map itemStop).or p.stop := by
  induction items generalizing p with
  | nil => exact ⟨rfl, (List.append_nil _).symm, rfl⟩
  | cons item items ih =>
    obtain ⟨trailing, kept, stop⟩ := ih (p.step programStart keep item)
    rw [Pass.walk, List.foldl_cons, ← Pass.walk, trailing, kept, stop]
    cases decision : keep item with
    | true =>
      rw [step_kept decision, List.filter_cons_of_pos decision,
        List.getLast?_cons]
      refine ⟨trailing_moves _, by rw [List.append_assoc]; rfl, ?_⟩
      cases (items.filter keep).getLast? <;> rfl
    | false =>
      have skipped : (item :: items).filter keep = items.filter keep :=
        List.filter_cons_of_neg (by simp [decision])
      rw [step_dropped decision, skipped]
      exact ⟨rfl, rfl, rfl⟩

/-- Items that are dropped wait for one that stays. -/
theorem walk_run (dropped : ∀ item ∈ run, keep item = false) :
    p.walk programStart keep run = { p with pending := p.pending ++
      (run.filter fun i => itemStart i != programStart).map itemStart } := by
  induction run generalizing p with
  | nil => rw [List.filter_nil, List.map_nil, List.append_nil]; rfl
  | cons item run ih =>
    obtain ⟨goes, dropped⟩ := List.forall_mem_cons.1 dropped
    rw [Pass.walk, List.foldl_cons, ← Pass.walk, ih dropped, step_dropped goes]
    simp only [List.append_assoc, ← List.map_append, ← List.filter_append,
      List.singleton_append]

end Walks

/-- What a pass over a list of items makes of the comments. -/
def moveComments (programStart : Nat) (keep : Node → Bool) (items : List Node)
    (m : CommentMap) : CommentMap :=
  (Pass.walk programStart keep { comments := m } items).finish

/-- A list of items, or the front of one, does not end with an item that is
dropped. -/
def EndsKept (keep : Node → Bool) (items : List Node) : Prop :=
  ∀ item, items.getLast? = some item → keep item = true

/-- The comments in front of dropped items, in the order of the source. Those at
the start of the program are not among them. -/
def leftOver (programStart : Nat) (m : CommentMap) (run : List Node) :
    List Comment :=
  (run.filter fun item => itemStart item != programStart).flatMap fun item =>
    m.leadingAt (itemStart item)

/-- The comments of the items that are dropped have moved: `m` is the map of
comments before, and `m'` the one after. -/
structure CommentsMoved (programStart : Nat) (keep : Node → Bool)
    (items : List Node) (m m' : CommentMap) : Prop where
  /-- In front of an item that stays are the comments of the run of dropped
  items before it, and then its own. -/
  before_kept : ∀ front run item back, items = front ++ run ++ item :: back →
    EndsKept keep front → (∀ i ∈ run, keep i = false) → keep item = true →
    m'.leadingAt (itemStart item) = leftOver programStart m run ++
    m.leadingAt (itemStart item)
  /-- Behind the last item that stays are its own comments, and then those of
  the dropped items behind it. -/
  behind_last : ∀ front item run, items = front ++ item :: run → keep item =
    true → (∀ i ∈ run, keep i = false) → m'.trailingAt (itemStop item) =
    m.trailingAt (itemStop item) ++ leftOver programStart m run
  /-- Where comments were taken away there are none. -/
  taken : ∀ item ∈ items, keep item = false → itemStart item ≠ programStart →
    m'.leadingAt (itemStart item) = []
  /-- What is in front of any other token stays, that at the start of the
  program included if its item is dropped. -/
  leading_elsewhere : ∀ pos, (∀ item ∈ items, itemStart item = pos →
    keep item = false ∧ pos = programStart) → m'.leadingAt pos = m.leadingAt pos
  /-- What is behind any other token stays, and if no item stays, what is behind
  any token. -/
  trailing_elsewhere : ∀ pos, (∀ item, (items.filter keep).getLast? =
    some item → itemStop item ≠ pos) → m'.trailingAt pos = m.trailingAt pos

section Lists

variable {programStart : Nat} {keep : Node → Bool}
  {items front back run : List Node} {m : CommentMap} {pos : Nat}

/-- Behind an item that stays nothing waits but the dropped items after it. -/
theorem walk_waits (ends : EndsKept keep front)
    (dropped : ∀ i ∈ run, keep i = false) :
    Pass.walk programStart keep { comments := m } (front ++ run) =
      { Pass.walk programStart keep { comments := m } front with
        pending := (run.filter fun i => itemStart i != programStart).map
          itemStart } := by
  have nothing : (Pass.walk programStart keep { comments := m } front).pending =
      [] := by
    rcases List.eq_nil_or_concat front with rfl | ⟨init, last, rfl⟩
    · rfl
    · rw [List.concat_eq_append] at ends ⊢
      rw [walk_append]
      exact congrArg Pass.pending (step_kept (ends last List.getLast?_concat))
  rw [walk_append, walk_run dropped, nothing, List.nil_append]

/-- What is in front of the items that are still to come has not changed. -/
theorem leadingAt_ahead
    (inOrder : ((front ++ back).map itemStart).Pairwise (· < ·)) {item : Node}
    (ahead : item ∈ back) :
    (Pass.walk programStart keep { comments := m } front).comments.leadingAt
      (itemStart item) = m.leadingAt (itemStart item) := by
  rw [List.map_append, List.pairwise_append] at inOrder
  obtain ⟨ordered, -, before⟩ := inOrder
  refine (leadingAt_walk (p := { comments := m }) ordered List.not_mem_nil
    fun i hi same => ?_).1
  exact absurd same (Nat.ne_of_lt
    (before _ (List.mem_map_of_mem hi) _ (List.mem_map_of_mem ahead)))

/-- So what the dropped items leave over is what was in front of them at
first. -/
theorem flatMap_ahead
    (inOrder : ((front ++ back).map itemStart).Pairwise (· < ·))
    (ahead : ∀ i ∈ run, i ∈ back) :
    ((run.filter fun i => itemStart i != programStart).map itemStart).flatMap
      (Pass.walk programStart keep { comments := m } front).comments.leadingAt =
      leftOver programStart m run := by
  rw [List.flatMap_map, leftOver, List.flatMap_def, List.flatMap_def]
  refine congrArg List.flatten (List.map_congr_left fun i hi => ?_)
  exact leadingAt_ahead inOrder (ahead i (List.mem_filter.1 hi).1)

theorem leadingAt_moveComments :
    (moveComments programStart keep items m).leadingAt pos = if pos ∈
      (Pass.walk programStart keep { comments := m } items).pending
      then [] else (Pass.walk programStart keep
      { comments := m } items).comments.leadingAt pos :=
  leadingAt_settles _

theorem leadingAt_kept {item : Node}
    (inOrder : ((front ++ run ++ item :: back).map itemStart).Pairwise (· < ·))
    (ends : EndsKept keep front) (dropped : ∀ i ∈ run, keep i = false)
    (stays : keep item = true) :
    (moveComments programStart keep (front ++ run ++ item :: back) m).leadingAt
      (itemStart item) = leftOver programStart m run ++
      m.leadingAt (itemStart item) := by
  have ordered : (Pass.walk programStart keep { comments := m }
      (front ++ run)).InOrder (item :: back) :=
    inOrder_walk inOrder
  have settled :=
    leadingAt_step_kept programStart (itemStart item) ordered stays
  rw [List.append_assoc] at inOrder
  have reached :
      (Pass.walk programStart keep { comments := m } (front ++ run)).comments =
      (Pass.walk programStart keep { comments := m } front).comments := by
    rw [walk_waits ends dropped]
  rw [if_pos rfl, reached, walk_waits ends dropped,
    flatMap_ahead inOrder fun i hi => List.mem_append_left _ hi,
    leadingAt_ahead inOrder (List.mem_append_right _ List.mem_cons_self),
    ← walk_waits ends dropped] at settled
  have nothing : itemStart item ∉
      ((Pass.walk programStart keep { comments := m } (front ++ run)).step
      programStart keep item).pending := by
    rw [step_kept stays]
    exact List.not_mem_nil
  obtain ⟨same, notPending⟩ :=
    leadingAt_walk (inOrder_step ordered) nothing fun i hi same => by
    have behind := (List.pairwise_cons.1 (List.pairwise_append.1 ordered).2.1).1
      _ (List.mem_map_of_mem hi)
    exact absurd same (Nat.ne_of_gt behind)
  rw [leadingAt_moveComments, walk_append]
  exact (if_neg notPending).trans (same.trans settled)

theorem leadingAt_dropped {item : Node}
    (inOrder : (items.map itemStart).Pairwise (· < ·)) (listed : item ∈ items)
    (goes : keep item = false) (notFirst : itemStart item ≠ programStart) :
    (moveComments programStart keep items m).leadingAt (itemStart item) =
      [] := by
  obtain ⟨front, back, rfl⟩ := List.append_of_mem listed
  have ordered : (Pass.walk programStart keep { comments := m } front).InOrder
      (item :: back) := inOrder_walk inOrder
  have waits : itemStart item ∈ ((Pass.walk programStart keep
      { comments := m } front).step programStart keep item).pending := by
    rw [step_dropped goes]
    simp [notFirst]
  have emptied := emptied_walk programStart keep (inOrder_step ordered)
    (.inl waits) fun i hi => (List.pairwise_cons.1
    (List.pairwise_append.1 ordered).2.1).1 _ (List.mem_map_of_mem hi)
  rw [leadingAt_moveComments, walk_append]
  by_cases there : itemStart item ∈
    (Pass.walk programStart keep ((Pass.walk programStart keep
    { comments := m } front).step programStart keep item) back).pending
  · exact if_pos there
  · exact (if_neg there).trans (emptied.resolve_left there)

theorem leadingAt_elsewhere (inOrder : (items.map itemStart).Pairwise (· < ·))
    (elsewhere : ∀ item ∈ items, itemStart item = pos → keep item = false ∧
      pos = programStart) :
    (moveComments programStart keep items m).leadingAt pos =
      m.leadingAt pos := by
  have untouched : ∀ item ∈ items, itemStart item = pos →
      ¬ Involved programStart keep item := by
    rintro item listed rfl involved
    obtain ⟨goes, first⟩ := elsewhere item listed rfl
    exact involved.elim (Bool.eq_false_iff.1 goes) (absurd first)
  obtain ⟨same, notPending⟩ :=
    leadingAt_walk (p := { comments := m }) inOrder List.not_mem_nil untouched
  rw [leadingAt_moveComments, if_neg notPending, same]

theorem trailingAt_moveComments
    (inOrder : (items.map itemStart).Pairwise (· < ·)) :
    (moveComments programStart keep items m).trailingAt pos = m.trailingAt
      pos ++ if (items.filter keep).getLast?.map itemStop = some pos
      then (Pass.walk programStart keep { comments := m } items).pending.flatMap
      (Pass.walk programStart keep { comments := m } items).comments.leadingAt
      else [] := by
  obtain ⟨trailing, -, stop⟩ :=
    walk_keeps programStart keep { comments := m } items
  have distinct :
      (Pass.walk programStart keep { comments := m } items).pending.Nodup := by
    have whole : Pass.InOrder { comments := m } (items ++ []) := by
      rw [List.append_nil]
      exact inOrder
    exact (inOrder_walk whole).distinct
  rw [Option.or_none] at stop
  rw [moveComments, Pass.finish, trailingAt_settles _ distinct, stop,
    CommentMap.trailingAt, trailing]
  rfl

theorem trailingAt_last {item : Node}
    (inOrder : ((front ++ item :: run).map itemStart).Pairwise (· < ·))
    (stays : keep item = true) (dropped : ∀ i ∈ run, keep i = false) :
    (moveComments programStart keep (front ++ item :: run) m).trailingAt
      (itemStop item) = m.trailingAt (itemStop item) ++
      leftOver programStart m run := by
  have last : ((front ++ item :: run).filter keep).getLast? = some item := by
    have nothing : run.filter keep = [] :=
      List.filter_eq_nil_iff.2 fun i hi => Bool.eq_false_iff.1 (dropped i hi)
    rw [List.filter_append, List.filter_cons_of_pos stays, nothing,
      List.getLast?_concat]
  have ends : EndsKept keep (front ++ [item]) := by
    intro i hi
    rw [List.getLast?_concat] at hi
    exact Option.some.inj hi ▸ stays
  rw [trailingAt_moveComments inOrder, last, Option.map_some, if_pos rfl]
  rw [List.append_cons] at inOrder ⊢
  have reached : (Pass.walk programStart keep { comments := m }
      (front ++ [item] ++ run)).comments = (Pass.walk programStart keep
      { comments := m } (front ++ [item])).comments := by
    rw [walk_waits ends dropped]
  rw [reached, walk_waits ends dropped, flatMap_ahead inOrder fun i hi => hi]

theorem trailingAt_elsewhere (inOrder : (items.map itemStart).Pairwise (· < ·))
    (elsewhere : ∀ item, (items.filter keep).getLast? = some item →
      itemStop item ≠ pos) :
    (moveComments programStart keep items m).trailingAt pos =
      m.trailingAt pos := by
  have notLast : (items.filter keep).getLast?.map itemStop ≠ some pos := by
    intro last
    obtain ⟨item, isLast, stop⟩ := Option.map_eq_some_iff.1 last
    exact elsewhere item isLast stop
  rw [trailingAt_moveComments inOrder, if_neg notLast, List.append_nil]

end Lists

/-- Where comments are kept track of the same items stay, and the comments
move. -/
theorem retainItems_some (programStart : Nat) (keep : Node → Bool)
    (items : List Node) (m : CommentMap) :
    retainItems programStart keep items (some m) =
      (items.filter keep, some (moveComments programStart keep items m)) :=
  Prod.ext (walk_keeps programStart keep { comments := m } items).2.1 rfl

/-- **Dropped items leave their comments to those that stay.** The same items
stay whether comments are kept track of or not. -/
theorem retained_items_keep_comments (programStart : Nat) (keep : Node → Bool)
    {items : List Node} (inOrder : (items.map itemStart).Pairwise (· < ·)) :
    retainItems programStart keep items none = (items.filter keep, none) ∧
      ∀ m, retainItems programStart keep items (some m) =
        (items.filter keep, some (moveComments programStart keep items m)) ∧
      CommentsMoved programStart keep items m
        (moveComments programStart keep items m) := by
  refine ⟨rfl, fun m => ⟨retainItems_some programStart keep items m, ?_⟩⟩
  · constructor
    case before_kept =>
      rintro front run item back rfl ends dropped stays
      exact leadingAt_kept inOrder ends dropped stays
    case behind_last =>
      rintro front item run rfl stays dropped
      exact trailingAt_last inOrder stays dropped
    case taken =>
      exact fun item listed goes notFirst =>
        leadingAt_dropped inOrder listed goes notFirst
    case leading_elsewhere =>
      exact fun pos elsewhere => leadingAt_elsewhere inOrder elsewhere
    case trailing_elsewhere =>
      exact fun pos elsewhere => trailingAt_elsewhere inOrder elsewhere

/-- A comment moves from a dropped item in front of that of the next one. -/
theorem dropped_item_leaves_comment :
    (moveComments 0 (itemStart · == 20) [.node .empty (some ⟨10, 15⟩) [],
      .node .empty (some ⟨20, 25⟩) []] { leading := [(20, ⟨false, "own",
      ⟨16, 19⟩, true⟩), (10, ⟨false, "moved", ⟨5, 9⟩, true⟩)] }).leadingAt 20 =
      [⟨false, "moved", ⟨5, 9⟩, true⟩, ⟨false, "own", ⟨16, 19⟩, true⟩] :=
  have moved := ((@retained_items_keep_comments 0 (itemStart · == 20)
    [.node .empty (some ⟨10, 15⟩) [], .node .empty (some ⟨20, 25⟩) []]
    (by decide)).2 { leading := [(20, ⟨false, "own", ⟨16, 19⟩, true⟩),
    (10, ⟨false, "moved", ⟨5, 9⟩, true⟩)] }).2
  (moved.before_kept [] [.node .empty (some ⟨10, 15⟩) []] (.node .empty
    (some ⟨20, 25⟩) []) [] rfl nofun (by decide) (by decide)).trans (by decide)

end NullGuard.Transform
