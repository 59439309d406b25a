import NullGuard.Toml.Scan

/-!
# What scans read

A scan reads what stands at the beginning of a text; what stands behind it does
not matter, except where the scan looks for the end of what it reads. So each
scan has a lemma about a text with anything behind what is read, and a scan made
of others reads what they read one after the other (`bind_apply`).

A scan that goes on until a step gives nothing reads any number of items
(`many_items`). An item may be read only in front of something that does not
lengthen it; that is the predicate `Follow`, which must hold in front of every
item and of what ends them.
-/

namespace NullGuard.Toml.Scan

section Steps

variable {α β : Type} (s : List Char) (c : Char)

@[simp] theorem bind_apply (x : Scan α) (f : α → Scan β) :
    (x >>= f) s = (x s).bind fun read => f read.1 read.2 :=
  rfl

@[simp] theorem pure_apply (a : α) : (pure a : Scan α) s = some (a, s) :=
  rfl

@[simp] theorem map_apply (f : α → β) (x : Scan α) :
    (f <$> x) s = (x s).map fun read => (f read.1, read.2) := by
  change (x s).bind _ = _
  cases x s <;> rfl

@[simp] theorem peek?_apply : peek? s = some (s.head?, s) :=
  rfl

@[simp] theorem next_cons : next (c :: s) = some (c, s) :=
  rfl

@[simp] theorem skip_apply (count : Nat) :
    skip count s = some ((), s.drop count) :=
  rfl

@[simp] theorem sees_apply (text : List Char) :
    sees text s = some (text.isPrefixOf s, s) :=
  rfl

theorem repeats_apply : repeats c s = some ((s.takeWhile (· == c)).length, s) :=
  rfl

theorem run_apply (p : Char → Bool) :
    run p s = some (s.takeWhile p, s.dropWhile p) :=
  rfl

@[simp] theorem sign_cons : sign c (c :: s) = some ((), s) := by
  simp [sign]

@[simp] theorem eat_cons : eat c (c :: s) = some (true, s) := by
  simp [eat]

theorem eat_of_head {s : List Char} {c : Char} (differ : s.head? ≠ some c) :
    eat c s = some (false, s) := by
  simp [eat, differ]

/-- What is in a class differs from what is not. -/
theorem ne_of_class {p : Char → Bool} {c d : Char} (inside : p c = true)
    (outside : p d = false) : c ≠ d := by
  intro same
  rw [same, outside] at inside
  exact Bool.noConfusion inside

/-- A text is not seen where something begins otherwise. -/
theorem not_isPrefixOf {s text : List Char} {c : Char}
    (differ : s.head? ≠ some c) :
    (c :: text).isPrefixOf s = false := by
  cases s with
  | nil => rfl
  | cons other s =>
    have other : c ≠ other := fun same => differ (congrArg some same.symm)
    rw [List.isPrefixOf_cons_cons, beq_eq_false_iff_ne.2 other, Bool.false_and]

end Steps

/-- What is in a class is read up to a character that is not. -/
theorem run_append {p : Char → Bool} {s t : List Char}
    (all : ∀ c ∈ s, p c = true) (stops : ∀ c, t.head? = some c → p c = false) :
    run p (s ++ t) = some (s, t) := by
  have none : t.takeWhile p = [] ∧ t.dropWhile p = t := by
    cases t with
    | nil => exact ⟨rfl, rfl⟩
    | cons c t =>
      have off := stops c rfl
      simp [off]
  rw [run_apply, List.takeWhile_append_of_pos all,
    List.dropWhile_append_of_pos all, none.1, none.2, List.append_nil]

/-- Nothing is read where nothing of a class comes first. -/
theorem run_none {p : Char → Bool} {s : List Char}
    (stops : ∀ c, s.head? = some c → p c = false) : run p s = some ([], s) :=
  run_append (s := []) (fun _ member => absurd member List.not_mem_nil) stops

/-- A run of one character is counted up to another one. -/
theorem repeats_replicate (count : Nat) {c : Char} {back : List Char}
    (stops : back.head? ≠ some c) :
    repeats c (List.replicate count c ++ back) =
      some (count, List.replicate count c ++ back) := by
  have counted :=
    run_append (p := (· == c)) (s := List.replicate count c) (t := back)
    (fun other member => beq_iff_eq.2 (List.eq_of_mem_replicate member))
    (fun other here => beq_eq_false_iff_ne.2 fun same => stops (same ▸ here))
  rw [run_apply, Option.some_inj, Prod.mk.injEq] at counted
  rw [repeats_apply, counted.1, List.length_replicate]

theorem isDigit_of_mem_digits (n : Nat) :
    ∀ c ∈ Nat.toDigits 10 n, c.isDigit = true :=
  fun _ member => Nat.isDigit_of_mem_toDigits (by decide) (by decide) member

/-- The digits of a number do not begin with a zero, unless they are just a
zero. -/
theorem digits_begin (n : Nat) :
    ∃ c others, Nat.toDigits 10 n = c :: others ∧ c.isDigit = true ∧
      (c = '0' → others = []) := by
  induction n using Nat.strongRecOn with
  | ind n ih =>
    by_cases small : n < 10
    · have digits := Nat.toDigits_of_lt_base small
      have digit := isDigit_of_mem_digits n (Nat.digitChar n)
        (by rw [digits]; exact List.mem_cons_self)
      exact ⟨Nat.digitChar n, [], digits, digit, fun _ => rfl⟩
    · have large : 10 ≤ n := Nat.le_of_not_lt small
      obtain ⟨c, others, written, digit, alone⟩ := ih (n / 10) (by omega)
      refine ⟨c, others ++ [Nat.digitChar (n % 10)], ?_, digit, ?_⟩
      · rw [Nat.toDigits_of_base_le (by decide) large, written,
          List.cons_append]
      · intro zero
        rw [zero, alone zero] at written
        have value := congrArg (Nat.ofDigitChars 10 · 0) written
        rw [Nat.ofDigitChars_ten_toDigits] at value
        have none : n / 10 = 0 := value
        omega

section Repetition

variable {α : Type} {step : Scan (Option α)} {bound : Nat}
  {s rest stop : List Char} {a : α} {items : List α}

/-- A step that gives an item comes before the steps behind it. -/
theorem upTo_step (first : step s = some (some a, rest))
    (others : upTo step bound rest = some (items, stop)) :
    upTo step (bound + 1) s = some (a :: items, stop) := by
  simp [upTo, first, others]

/-- A step that gives nothing ends the items. -/
theorem upTo_stop (last : step s = some (none, stop)) (positive : 0 < bound) :
    upTo step bound s = some ([], stop) := by
  obtain ⟨bound, rfl⟩ := Nat.exists_eq_add_one.2 positive
  simp [upTo, last]

end Repetition

section Items

variable {α β : Type} {step : Scan (Option α)} {write : β → List Char}
  {value : β → α} {Follow : List Char → Prop} {items : List β}
  {rest stop : List Char}

/-- Where an item may be read, it may be read with more items in front. -/
theorem follow_items
    (follow : ∀ x ∈ items, ∀ behind, Follow behind → Follow (write x ++ behind))
    (last : Follow rest) :
    Follow (items.flatMap write ++ rest) := by
  induction items with
  | nil => exact last
  | cons x items ih =>
    obtain ⟨first, others⟩ := List.forall_mem_cons.1 follow
    rw [List.flatMap_cons, List.append_assoc]
    exact first _ (ih others)

/-- Items in front of what ends them are read one by one, if there are not too
many. -/
theorem upTo_items
    (reads : ∀ x ∈ items, ∀ behind, Follow behind →
      step (write x ++ behind) = some (some (value x), behind))
    (follow : ∀ x ∈ items, ∀ behind, Follow behind → Follow (write x ++ behind))
    (stops : step rest = some (none, stop)) (last : Follow rest) {bound : Nat}
    (enough : items.length < bound) :
    upTo step bound (items.flatMap write ++ rest) =
      some (items.map value, stop) := by
  induction items generalizing bound with
  | nil => exact upTo_stop stops enough
  | cons x items ih =>
    obtain ⟨bound, rfl⟩ := Nat.exists_eq_add_one.2 (Nat.zero_lt_of_lt enough)
    obtain ⟨first, others⟩ := List.forall_mem_cons.1 reads
    obtain ⟨-, othersFollow⟩ := List.forall_mem_cons.1 follow
    have later := ih others othersFollow (Nat.lt_of_succ_lt_succ enough)
    have front := follow_items othersFollow last
    rw [List.flatMap_cons, List.append_assoc]
    exact upTo_step (first _ front) later

/-- **A repeated scan reads any number of items** that are not empty, and what
ends them. -/
theorem many_items
    (reads : ∀ x ∈ items, ∀ behind, Follow behind →
      step (write x ++ behind) = some (some (value x), behind))
    (follow : ∀ x ∈ items, ∀ behind, Follow behind → Follow (write x ++ behind))
    (nonempty : ∀ x ∈ items, write x ≠ [])
    (stops : step rest = some (none, stop)) (last : Follow rest) :
    many step (items.flatMap write ++ rest) = some (items.map value, stop) := by
  have enough : items.length < (items.flatMap write ++ rest).length + 1 := by
    clear reads follow
    induction items with
    | nil => exact Nat.succ_pos _
    | cons x items ih =>
      obtain ⟨first, others⟩ := List.forall_mem_cons.1 nonempty
      have some := List.length_pos_iff.2 first
      have bound := ih others
      rw [List.flatMap_cons, List.append_assoc, List.length_append,
        List.length_cons]
      omega
  exact upTo_items reads follow stops last enough

/-- So it does where it does not matter what is behind an item. -/
theorem many_free
    (reads : ∀ x ∈ items, ∀ behind, step (write x ++ behind) =
      some (some (value x), behind)) (nonempty : ∀ x ∈ items, write x ≠ [])
    (stops : step rest = some (none, stop)) :
    many step (items.flatMap write ++ rest) = some (items.map value, stop) := by
  have anywhere : ∀ x ∈ items, ∀ behind, True → step (write x ++ behind) =
      some (some (value x), behind) :=
    fun x member behind _ => reads x member behind
  exact many_items anywhere (fun _ _ _ _ => trivial) nonempty stops trivial

end Items

end NullGuard.Toml.Scan
