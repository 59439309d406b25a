import Mathlib.Algebra.Order.BigOperators.Group.List
import Mathlib.Algebra.Order.Group.Nat
import Mathlib.Data.List.Nodup
import Mathlib.Data.List.Perm.Subperm
import NullGuard.Scope.NameSupply

/-!
# Fresh names are fresh

The search of a name supply looks at one more candidate than there are used
names. The candidates of a hint are pairwise different, so they cannot all be in
use as long as their numbers do not come round again: the search finds a name
whenever some candidate is unused (`search_of_unused`). A name that is given out
is never in use (`fresh_not_mem`), and starts with an underscore (`fresh_ne`).
-/

namespace NullGuard.Scope

section Candidates

variable {hint : String}

/-- A candidate starts with an underscore. -/
theorem candidate_head (hint : String) (n : Int32) :
    (candidate hint n).toList.head? = some '_' := by
  have underscore : "_".toList = ['_'] := by decide
  unfold candidate
  split <;> simp [String.toList_append, underscore]

/-- The numbers of candidates are written differently. -/
theorem repr_injective {m n : Nat} (h : m.repr = n.repr) : m = n := by
  have digits : Nat.toDigits 10 m = Nat.toDigits 10 n := by
    rw [← Nat.toList_repr, ← Nat.toList_repr, h]
  calc
    m = Nat.ofDigitChars 10 (Nat.toDigits 10 m) 0 :=
      Nat.ofDigitChars_ten_toDigits.symm
    _ = Nat.ofDigitChars 10 (Nat.toDigits 10 n) 0 := by rw [digits]
    _ = n := Nat.ofDigitChars_ten_toDigits

/-- A number without a sign has no sign. -/
theorem minus_not_mem_repr (n : Nat) : '-' ∉ n.repr.toList := by
  intro member
  rw [Nat.toList_repr] at member
  exact absurd (Nat.isDigit_of_mem_toDigits (by decide) (by decide) member)
    (by decide)

theorem toString_number_cases (n : Int32) :
    (∃ k : Nat, n.toInt = k ∧ toString n = k.repr) ∨
      ∃ k : Nat, n.toInt = -(k + 1) ∧ toString n = "-" ++ (k + 1).repr := by
  have written : toString n = n.toInt.repr := rfl
  rw [written]
  cases n.toInt with
  | ofNat k => exact .inl ⟨k, rfl, rfl⟩
  | negSucc k => exact .inr ⟨k, Int.negSucc_eq k, rfl⟩

theorem toString_number_ne (n : Int32) : (toString n).toList ≠ [] := by
  obtain ⟨k, -, written⟩ | ⟨k, -, written⟩ := toString_number_cases n
  · rw [written, Nat.toList_repr]
    exact Nat.toDigits_ne_nil
  · rw [written]
    simp [String.toList_append]

theorem toString_number_injective {m n : Int32} (h : toString m = toString n) :
    m = n := by
  have signed (j k : Nat) : "-" ++ j.repr ≠ k.repr := by
    intro same
    refine minus_not_mem_repr k ?_
    rw [← same, String.toList_append]
    exact List.mem_append_left _ (by decide)
  apply Int32.toInt_inj.1
  obtain ⟨j, eqM, textM⟩ | ⟨j, eqM, textM⟩ := toString_number_cases m <;>
    obtain ⟨k, eqN, textN⟩ | ⟨k, eqN, textN⟩ := toString_number_cases n <;>
      rw [textM, textN] at h
  · rw [eqM, eqN, repr_injective h]
  · exact absurd h.symm (signed _ _)
  · exact absurd h (signed _ _)
  · have digits := congrArg String.toList h
    rw [String.toList_append, String.toList_append, List.append_cancel_left_eq]
      at digits
    have same := repr_injective (String.toList_inj.1 digits)
    omega

/-- The candidates of a hint are pairwise different. -/
theorem candidate_injective {m n : Int32}
    (h : candidate hint m = candidate hint n) : m = n := by
  have text := congrArg String.toList h
  have written := toString_number_ne
  unfold candidate at text
  split at text <;> split at text
  · exact ‹m = 1›.trans ‹n = 1›.symm
  · exact absurd (by simpa [String.toList_append] using text) (written n)
  · exact absurd (by simpa [String.toList_append] using text) (written m)
  · have numbers : (toString m).toList = (toString n).toList := by
      simpa [String.toList_append] using text
    exact toString_number_injective (String.toList_inj.1 numbers)

/-- Counting comes back to a number only after `2 ^ 32` steps. -/
theorem number_injective {n : Int32} {j k : Nat} (hj : j < 2 ^ 32)
    (hk : k < 2 ^ 32) (h : n + .ofNat j = n + .ofNat k) : j = k := by
  have bits := congrArg Int32.toBitVec ((Int32.add_right_inj n).1 h)
  rw [Int32.toBitVec_ofNat', Int32.toBitVec_ofNat'] at bits
  have same := congrArg BitVec.toNat bits
  rwa [BitVec.toNat_ofNat, BitVec.toNat_ofNat, Nat.mod_eq_of_lt hj,
    Nat.mod_eq_of_lt hk] at same

/-- Every number is reached. -/
theorem number_reached (n m : Int32) : ∃ k < 2 ^ 32, m = n + .ofNat k := by
  refine ⟨(m - n).toBitVec.toNat, (m - n).toBitVec.isLt, ?_⟩
  rw [← Int32.toBitVec_inj, Int32.toBitVec_add, Int32.toBitVec_ofNat',
    BitVec.ofNat_toNat, BitVec.setWidth_eq, ← Int32.toBitVec_add,
    Int32.add_comm, Int32.sub_add_cancel]

end Candidates

namespace NameSupply

variable (supply : NameSupply) (hint : String)

/-- **What a search finds** is the first unused candidate, and it finds nothing
only if all candidates that it looks at are used. -/
theorem search_spec (steps : Nat) (n : Int32) :
    (∃ k < steps, supply.search hint steps n =
      some (candidate hint (n + .ofNat k)) ∧ candidate hint (n + .ofNat k) ∉
      supply.used ∧ ∀ j < k, candidate hint (n + .ofNat j) ∈ supply.used) ∨
      supply.search hint steps n = none ∧
      ∀ k < steps, candidate hint (n + .ofNat k) ∈ supply.used := by
  induction steps generalizing n with
  | zero => exact .inr ⟨rfl, fun k hk => absurd hk (Nat.not_lt_zero k)⟩
  | succ steps ih =>
    have here : n + .ofNat 0 = n := Int32.add_zero n
    have next (k : Nat) : n + 1 + .ofNat k = n + .ofNat (k + 1) := by
      rw [Nat.add_comm k 1, Int32.ofNat_add, ← Int32.add_assoc]
      rfl
    by_cases isUsed : candidate hint n ∈ supply.used
    · have goes : supply.search hint (steps + 1) n =
          supply.search hint steps (n + 1) := by
        rw [search, if_pos (List.contains_iff_mem.2 isUsed)]
      have shift {k : Nat}
          (rest : ∀ j < k, candidate hint (n + 1 + .ofNat j) ∈ supply.used) :
          ∀ j < k + 1, candidate hint (n + .ofNat j) ∈ supply.used := by
        intro j hj
        cases j with
        | zero => rwa [here]
        | succ j => rw [← next]; exact rest j (by omega)
      rw [goes]
      rcases ih (n + 1) with ⟨k, hk, found, isUnused, before⟩ | ⟨none, all⟩
      · rw [next] at found isUnused
        exact .inl ⟨k + 1, by omega, found, isUnused, shift before⟩
      · exact .inr ⟨none, shift all⟩
    · refine .inl ⟨0, Nat.succ_pos _, ?_, ?_,
        fun j hj => absurd hj (Nat.not_lt_zero j)⟩
      · rw [here, search, if_neg (mt List.contains_iff_mem.1 isUsed)]
      · rwa [here]

/-- Candidates that are all used are no more than the used names, as long as
their numbers do not come round. -/
theorem count_used {n : Int32} {count : Nat} (short : count ≤ 2 ^ 32)
    (all : ∀ k < count, candidate hint (n + .ofNat k) ∈ supply.used) :
    count ≤ supply.used.length := by
  let names := (List.range count).map fun k => candidate hint (n + .ofNat k)
  have within : names ⊆ supply.used := by
    intro name h
    obtain ⟨k, hk, rfl⟩ := List.mem_map.1 h
    exact all k (List.mem_range.1 hk)
  have distinct : names.Nodup := by
    refine List.nodup_range.map_on fun j hj k hk same => ?_
    have small := List.mem_range.1 hj
    have small' := List.mem_range.1 hk
    exact number_injective (by omega) (by omega) (candidate_injective same)
  have bound := (List.subperm_of_subset distinct within).length_le
  rwa [List.length_map, List.length_range] at bound

/-- **Whenever some candidate is unused, the search finds one.** -/
theorem search_of_unused {n m : Int32}
    (isUnused : candidate hint m ∉ supply.used) :
    ∃ k ≤ supply.used.length, supply.search hint (supply.used.length + 1) n =
      some (candidate hint (n + .ofNat k)) ∧
      candidate hint (n + .ofNat k) ∉ supply.used ∧ ∀ j < k,
        candidate hint (n + .ofNat j) ∈ supply.used := by
  rcases supply.search_spec hint (supply.used.length + 1) n with
    ⟨k, hk, found⟩ | ⟨-, all⟩
  · exact ⟨k, Nat.le_of_lt_succ hk, found⟩
  · obtain ⟨k, small, rfl⟩ := number_reached n m
    have behind : supply.used.length + 1 ≤ k :=
      Nat.le_of_not_lt fun hk => isUnused (all k hk)
    have := supply.count_used hint (by omega) all
    omega

/-- The long name is in no use. -/
theorem longName_not_mem : supply.longName ∉ supply.used := by
  intro isUsed
  have inRow : ∀ x ∈ supply.used,
      x.length ≤ (supply.used.flatMap String.toList).length := by
    intro x hx
    obtain ⟨front, back, same⟩ := List.append_of_mem hx
    rw [same, List.flatMap_append, List.flatMap_cons, List.length_append,
      List.length_append, String.length_toList]
    omega
  have bound := inRow _ isUsed
  rw [longName, String.length_ofList, List.length_cons] at bound
  omega

/-- **A fresh name is not in use.** -/
theorem fresh_not_mem : (supply.fresh hint).1 ∉ supply.used := by
  rcases supply.search_spec hint (supply.used.length + 1) 1 with
    ⟨k, -, found, isUnused, -⟩ | ⟨none, -⟩
  · rw [fresh, found]
    exact isUnused
  · rw [fresh, none]
    exact supply.longName_not_mem

/-- Giving out a name adds it, and nothing else, to the names in use. -/
theorem fresh_used :
    (supply.fresh hint).2.used = (supply.fresh hint).1 :: supply.used :=
  rfl

/-- A fresh name is no word that starts otherwise than with an underscore. -/
theorem fresh_ne {word : String} (h : word.toList.head? ≠ some '_') :
    (supply.fresh hint).1 ≠ word := by
  rintro rfl
  rcases supply.search_spec hint (supply.used.length + 1) 1 with
    ⟨k, -, found, -⟩ | ⟨none, -⟩
  · rw [fresh, found] at h
    exact h (candidate_head hint _)
  · rw [fresh, none, Option.getD_none, longName, String.toList_ofList] at h
    exact h rfl

end NameSupply

end NullGuard.Scope
