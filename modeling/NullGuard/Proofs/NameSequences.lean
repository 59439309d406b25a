import NullGuard.Proofs.FreshNames

/-!
# Names drawn one after the other

A supply looks for a name candidate by candidate, and nothing but the candidates
themselves bounds the search. `NameSupply.Finds` is the search as it goes: a
derivation of it is a search that has come to its end. A search ends just if
some candidate is not used (`finds_iff`), after no more candidates than there
are used names, and it ends with the fresh name (`finds_fresh`).

In a sequence of draws the used names are those from the start with the names
drawn so far (`used_afterAll`). So each draw gives the first candidate that is
in neither, and all names are different, whatever the hints are
(`draws_freshAll`). Hints that end in digits share candidates: `_ref2` is the
second candidate of `ref` and the first one of `ref2`.

The candidates are the names `_ref`, `_ref2`, … in their order up to the last
number that 32 bits have; behind that a number comes round (`fresh_comesRound`).
-/

namespace NullGuard.Scope

/-- The names for a hint in their order. -/
def numbered (hint : String) (k : Nat) : String :=
  if k = 0 then "_" ++ hint else "_" ++ hint ++ toString (k + 1)

/-- **The candidates are the names for the hint** up to the last number. -/
theorem candidate_eq_numbered (hint : String) {k : Nat}
    (small : k < 2 ^ 31 - 1) :
    candidate hint (1 + .ofNat k) = numbered hint k := by
  have count : (1 : Int32) + .ofNat k = .ofNat (k + 1) := by
    rw [Nat.add_comm, Int32.ofNat_add]
    rfl
  have value : (Int32.ofNat (k + 1)).toInt = (k + 1 : Nat) :=
    Int32.toInt_ofNat_of_lt (by omega)
  have isFirst : Int32.ofNat (k + 1) = 1 ↔ k = 0 := by
    rw [← Int32.toInt_inj, value, Int32.toInt_one]
    omega
  have written : toString (Int32.ofNat (k + 1)) = toString (k + 1) := by
    change (Int32.ofNat (k + 1)).toInt.repr = (k + 1).repr
    rw [value]
    rfl
  rw [count, candidate, numbered, written]
  simp only [isFirst]

/-- The names for a hint are pairwise different. -/
theorem numbered_injective {hint : String} {j k : Nat}
    (h : numbered hint j = numbered hint k) : j = k := by
  have text := congrArg String.toList h
  unfold numbered at text
  split at text <;> split at text
  · omega
  · simp [String.toList_append] at text
  · simp [String.toList_append] at text
  · have digits : (j + 1).repr.toList = (k + 1).repr.toList := by
      simpa [String.toList_append] using text
    have same := repr_injective (String.toList_inj.1 digits)
    omega

namespace NameSupply

/-- The search for a name from a number on: a used candidate is passed over, and
one that is not used is found. -/
inductive Finds (supply : NameSupply) (hint : String) :
    Int32 → String → Prop where
  | unused {n : Int32} (isUnused : candidate hint n ∉ supply.used) :
    Finds supply hint n (candidate hint n)
  | used {n : Int32} {name : String} (isUsed : candidate hint n ∈ supply.used)
    (more : Finds supply hint (n + 1) name) : Finds supply hint n name

/-- A search passes over candidates that are used. -/
theorem finds_of_used {supply : NameSupply} {hint : String} {n : Int32}
    {k : Nat} (isUnused : candidate hint (n + .ofNat k) ∉ supply.used)
    (used : ∀ j < k, candidate hint (n + .ofNat j) ∈ supply.used) :
    supply.Finds hint n (candidate hint (n + .ofNat k)) := by
  induction k generalizing n with
  | zero =>
    have here : n + .ofNat 0 = n := Int32.add_zero n
    rw [here] at isUnused ⊢
    exact .unused isUnused
  | succ k ih =>
    have here : n + .ofNat 0 = n := Int32.add_zero n
    have next (j : Nat) : n + .ofNat (j + 1) = n + 1 + .ofNat j := by
      rw [Nat.add_comm j 1, Int32.ofNat_add, ← Int32.add_assoc]
      rfl
    rw [next] at isUnused ⊢
    refine .used (here ▸ used 0 (Nat.succ_pos k)) (ih isUnused fun j hj => ?_)
    rw [← next]
    exact used (j + 1) (by omega)

/-- **The search ends with the fresh name** if some candidate is not used. -/
theorem finds_fresh {supply : NameSupply} {hint : String} {m : Int32}
    (isUnused : candidate hint m ∉ supply.used) :
    supply.Finds hint 1 (supply.fresh hint).1 := by
  obtain ⟨k, -, found, isFree, used⟩ := supply.search_of_unused hint isUnused
  rw [fresh, found]
  exact finds_of_used isFree used

/-- A search ends only with an unused candidate. -/
theorem Finds.exists_unused {supply : NameSupply} {hint name : String}
    {n : Int32} (found : supply.Finds hint n name) :
    ∃ m, candidate hint m ∉ supply.used := by
  induction found with
  | unused isUnused => exact ⟨_, isUnused⟩
  | used _ _ ih => exact ih

/-- **A search ends just if some candidate is not used.** -/
theorem finds_iff (supply : NameSupply) (hint : String) :
    (∃ name, supply.Finds hint 1 name) ↔
      ∃ n, candidate hint n ∉ supply.used := by
  constructor
  · rintro ⟨name, found⟩
    exact found.exists_unused
  · rintro ⟨m, isUnused⟩
    exact ⟨_, finds_fresh isUnused⟩

/-- **A fresh name is the first name for the hint that is not used**, and there
are no more names in front of it than used ones. -/
theorem fresh_least {supply : NameSupply} {hint : String} {l : Nat}
    (small : l < 2 ^ 31 - 1) (isUnused : numbered hint l ∉ supply.used) :
    ∃ n < 2 ^ 31 - 1, n ≤ supply.used.length ∧
      (supply.fresh hint).1 = numbered hint n ∧ numbered hint n ∉ supply.used ∧
      ∀ m < n, numbered hint m ∈ supply.used := by
  rw [← candidate_eq_numbered hint small] at isUnused
  obtain ⟨k, bound, found, isFree, used⟩ :=
    @search_of_unused supply hint 1 _ isUnused
  have early : k ≤ l := Nat.le_of_not_lt fun behind => isUnused (used l behind)
  have given := candidate_eq_numbered hint (Nat.lt_of_le_of_lt early small)
  refine ⟨k, by omega, bound, ?_, given ▸ isFree, fun m hm => ?_⟩
  · rw [fresh, found, ← given]
    rfl
  · rw [← candidate_eq_numbered hint (by omega)]
    exact used m hm

/-- The supply that is left when a name was drawn for each hint. -/
def afterAll (supply : NameSupply) : List String → NameSupply
  | [] => supply
  | hint :: hints => (supply.fresh hint).2.afterAll hints

/-- **Drawing names adds them**, and nothing else, to the used names. -/
theorem used_afterAll (supply : NameSupply) (hints : List String) :
    (supply.afterAll hints).used = (supply.freshAll hints).reverse ++
      supply.used := by
  induction hints generalizing supply with
  | nil => rfl
  | cons hint hints ih =>
    rw [afterAll, ih, fresh_used, freshAll, List.reverse_cons,
      List.append_assoc, List.singleton_append]

theorem length_freshAll (supply : NameSupply) (hints : List String) :
    (supply.freshAll hints).length = hints.length := by
  induction hints generalizing supply with
  | nil => rfl
  | cons hint hints ih => rw [freshAll, List.length_cons, List.length_cons, ih]

/-- The first names are those for the first hints. -/
theorem take_freshAll (supply : NameSupply) (hints : List String) (i : Nat) :
    (supply.freshAll hints).take i = supply.freshAll (hints.take i) := by
  induction hints generalizing supply i with
  | nil => rw [List.take_nil, freshAll, List.take_nil]
  | cons hint hints ih =>
    cases i with
    | zero => rfl
    | succ i =>
      rw [freshAll, List.take_succ_cons, List.take_succ_cons, freshAll, ih]

/-- A name is drawn from the supply that the names in front of it leave. -/
theorem getElem?_freshAll (supply : NameSupply) (hints : List String)
    (i : Fin hints.length) :
    (supply.freshAll hints)[i.val]? =
      some ((supply.afterAll (hints.take i)).fresh hints[i]).1 := by
  induction hints generalizing supply with
  | nil => exact i.elim0
  | cons hint hints ih =>
    cases i using Fin.cases with
    | zero => rfl
    | succ i => exact ih (supply.fresh hint).2 i

/-- Names that are drawn one after the other are different, and none of them is
used at the start. -/
theorem nodup_freshAll (supply : NameSupply) (hints : List String) :
    (supply.freshAll hints).Nodup ∧ ∀ name ∈ supply.freshAll hints,
      name ∉ supply.used := by
  induction hints generalizing supply with
  | nil => exact ⟨List.nodup_nil, nofun⟩
  | cons hint hints ih =>
    obtain ⟨distinct, unused⟩ := ih (supply.fresh hint).2
    rw [freshAll]
    refine ⟨List.nodup_cons.2 ⟨?_, distinct⟩, ?_⟩
    · intro again
      apply unused _ again
      rw [fresh_used]
      exact List.mem_cons_self
    · intro name drawn
      by_cases first : name = (supply.fresh hint).1
      · rw [first]
        exact supply.fresh_not_mem hint
      · have later := unused name ((List.mem_cons.1 drawn).resolve_left first)
        rw [fresh_used, List.mem_cons, not_or] at later
        exact later.2

/-- Names drawn from a supply, one for each hint. -/
structure Draws (supply : NameSupply) (hints names : List String) : Prop where
  /-- As long as one of the names up to the last number is left, each search
  ends, with the first name for its hint that was neither used at the start nor
  drawn before. It is behind no more names than were used by then. -/
  first : ∀ i : Fin hints.length,
    (∃ n < 2 ^ 31 - 1, numbered hints[i] n ∉ names.take i ++ supply.used) →
    ∃ n < 2 ^ 31 - 1, n ≤ supply.used.length + i ∧
      (supply.afterAll (hints.take i)).Finds hints[i] 1 (numbered hints[i] n) ∧
      names[i.val]? = some (numbered hints[i] n) ∧
      numbered hints[i] n ∉ names.take i ++ supply.used ∧
      ∀ m < n, numbered hints[i] m ∈ names.take i ++ supply.used
  /-- Each draw adds its name, and nothing else, to the used names. -/
  adds : ∀ i ≤ hints.length, (supply.afterAll (hints.take i)).used =
    (names.take i).reverse ++ supply.used
  /-- There are as many names as hints. -/
  each : names.length = hints.length
  distinct : names.Nodup
  disjoint : ∀ name ∈ names, name ∉ supply.used

/-- **Every draw ends and gives a new name.** For all used names and all hints,
the draws one after the other give the first name for each hint that is neither
used at the start nor drawn before, as long as the numbers last; all names are
different from each other and from the used ones. -/
theorem draws_freshAll (supply : NameSupply) (hints : List String) :
    supply.Draws hints (supply.freshAll hints) := by
  obtain ⟨distinct, disjoint⟩ := supply.nodup_freshAll hints
  refine ⟨?_, ?_, supply.length_freshAll hints, distinct, disjoint⟩
  · rintro i ⟨l, small, isLeft⟩
    have sofar : (supply.afterAll (hints.take i)).used =
        ((supply.freshAll hints).take i).reverse ++ supply.used := by
      rw [used_afterAll, take_freshAll]
    have member (name : String) : name ∈ (supply.afterAll (hints.take i)).used ↔
        name ∈ (supply.freshAll hints).take i ++ supply.used := by
      rw [sofar, List.mem_append, List.mem_reverse, ← List.mem_append]
    have count : (supply.afterAll (hints.take i)).used.length =
        i + supply.used.length := by
      rw [used_afterAll, List.length_append,
        List.length_reverse, length_freshAll, List.length_take,
        Nat.min_eq_left (Nat.le_of_lt i.isLt)]
    rw [← member] at isLeft
    obtain ⟨n, inRange, bound, given, isUnused, used⟩ :=
      fresh_least small isLeft
    have ends : (supply.afterAll (hints.take i)).Finds hints[i] 1
        (numbered hints[i] n) := by
      rw [← given]
      exact finds_fresh
        ((candidate_eq_numbered hints[i] small).symm ▸ isLeft)
    refine ⟨n, inRange, by omega, ends, ?_, mt (member _).2 isUnused,
      fun m hm => (member _).1 (used m hm)⟩
    rw [getElem?_freshAll, given]
  · intro i _
    rw [used_afterAll, take_freshAll]

example : (⟨["_ref"]⟩ : NameSupply).freshAll ["ref", "ref2", "ref", "ref2"] =
    ["_ref2", "_ref22", "_ref3", "_ref23"] := by
  decide +kernel

/-- A supply in which the first names for a hint are used. -/
def withoutFirst (hint : String) (count : Nat) : NameSupply :=
  ⟨(List.range count).map (numbered hint)⟩

theorem mem_withoutFirst {hint : String} {count k : Nat} :
    numbered hint k ∈ (withoutFirst hint count).used ↔ k < count := by
  rw [withoutFirst, List.mem_map]
  constructor
  · rintro ⟨j, hj, same⟩
    rw [← numbered_injective same]
    exact List.mem_range.1 hj
  · exact fun hk => ⟨k, List.mem_range.2 hk, rfl⟩

/-- No name with a sign is among the first names for a hint without one. -/
theorem signed_not_mem {hint name : String} (unsigned : '-' ∉ hint.toList)
    (signed : '-' ∈ name.toList) (count : Nat) :
    name ∉ (withoutFirst hint count).used := by
  intro isUsed
  obtain ⟨k, -, rfl⟩ := List.mem_map.1 isUsed
  have noSign : '-' ∉ ("_" ++ hint).toList := by
    rw [String.toList_append, List.mem_append, not_or]
    exact ⟨by decide, unsigned⟩
  unfold numbered at signed
  split at signed
  · exact noSign signed
  · rw [String.toList_append, List.mem_append] at signed
    exact signed.elim noSign (minus_not_mem_repr (k + 1))

/-- **Behind the last number** the next name for the hint is left out: the
search goes on with a number below zero. -/
theorem fresh_comesRound :
    (∀ m < 2 ^ 31 - 1,
        numbered "ref" m ∈ (withoutFirst "ref" (2 ^ 31 - 1)).used) ∧
      numbered "ref" (2 ^ 31 - 1) ∉ (withoutFirst "ref" (2 ^ 31 - 1)).used ∧
      ((withoutFirst "ref" (2 ^ 31 - 1)).fresh "ref").1 = "_ref-2147483648" ∧
      numbered "ref" (2 ^ 31 - 1) ≠ "_ref-2147483648" := by
  have round : candidate "ref" (1 + .ofNat (2 ^ 31 - 1)) = "_ref-2147483648" :=
    by
    decide +kernel
  have isUnused := signed_not_mem (by decide : '-' ∉ "ref".toList)
    (by decide : '-' ∈ "_ref-2147483648".toList) (2 ^ 31 - 1)
  have size : (withoutFirst "ref" (2 ^ 31 - 1)).used.length = 2 ^ 31 - 1 := by
    rw [withoutFirst, List.length_map, List.length_range]
  have first (m : Nat) (hm : m < 2 ^ 31 - 1) :
      numbered "ref" m ∈ (withoutFirst "ref" (2 ^ 31 - 1)).used :=
    mem_withoutFirst.2 hm
  have next : numbered "ref" (2 ^ 31 - 1) ∉
      (withoutFirst "ref" (2 ^ 31 - 1)).used :=
    fun isUsed => Nat.lt_irrefl _ (mem_withoutFirst.1 isUsed)
  generalize withoutFirst "ref" (2 ^ 31 - 1) = supply at *
  rw [← round] at isUnused
  obtain ⟨k, bound, found, isFree, -⟩ :=
    @search_of_unused supply "ref" 1 _ isUnused
  have all : k = 2 ^ 31 - 1 := by
    rw [size] at bound
    refine Nat.le_antisymm bound (Nat.le_of_not_lt fun early => isFree ?_)
    rw [candidate_eq_numbered "ref" early]
    exact first k early
  refine ⟨first, next, ?_, by decide +kernel⟩
  rw [fresh, found, all]
  exact round

end NameSupply

end NullGuard.Scope
