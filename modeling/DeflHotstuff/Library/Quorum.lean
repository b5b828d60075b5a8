import Mathlib.Algebra.Order.BigOperators.Group.Finset
import Mathlib.Tactic.Linarith

namespace Verification

/-- More than two thirds of a weight, rounded as an integer division does. -/
def quorum (total : Nat) : Nat := 2 * total / 3 + 1

/-- The weights that an association list with distinct keys gives its keys add up to its total. -/
theorem sum_lookup {Key Entry : Type} [DecidableEq Key] (weight : Entry → Nat)
    (entries : List (Key × Entry)) (distinct : (entries.map Prod.fst).Nodup) :
    ∑ key ∈ (entries.map Prod.fst).toFinset, ((entries.lookup key).map weight).getD 0 =
      (entries.map fun entry => weight entry.2).sum := by
  rw [List.sum_toFinset _ distinct]
  congr 1
  induction entries with
  | nil => rfl
  | cons entry rest ih =>
      obtain ⟨key, value⟩ := entry
      rw [List.map_cons, List.nodup_cons] at distinct
      rw [List.map_cons, List.map_cons, List.map_cons, ← ih distinct.2]
      congr 1
      · simp
      · rw [List.map_map, List.map_map]
        apply List.map_congr_left
        intro other inside
        have different : other.1 ≠ key := fun same =>
          distinct.1 (List.mem_map.mpr ⟨other, inside, same⟩)
        have skipped : ((key, value) :: rest).lookup other.1 = rest.lookup other.1 := by
          rw [List.lookup_cons, beq_false_of_ne different]
        simp only [Function.comp_apply, skipped]

section Intersection

variable {Member : Type} [DecidableEq Member] (weight : Member → Nat)

/-- Two sets inside the members overlap in what their weights exceed the total by. -/
theorem overlap_weight {members first second : Finset Member} (firstInside : first ⊆ members)
    (secondInside : second ⊆ members) :
    ∑ member ∈ first, weight member + ∑ member ∈ second, weight member ≤
      ∑ member ∈ members, weight member + ∑ member ∈ first ∩ second, weight member := by
  rw [← Finset.sum_union_inter]
  have inside := Finset.sum_le_sum_of_subset (f := weight) (Finset.union_subset firstInside secondInside)
  omega

/-- Two quorums share a correct member when the faulty ones hold less than a third. -/
theorem quorums_share {members first second : Finset Member} {faulty : Member → Prop}
    [DecidablePred faulty] (firstInside : first ⊆ members) (secondInside : second ⊆ members)
    (few : 3 * ∑ member ∈ members with faulty member, weight member <
      ∑ member ∈ members, weight member)
    (firstQuorum : quorum (∑ member ∈ members, weight member) ≤ ∑ member ∈ first, weight member)
    (secondQuorum : quorum (∑ member ∈ members, weight member) ≤ ∑ member ∈ second, weight member) :
    ∃ member ∈ first, member ∈ second ∧ ¬ faulty member := by
  by_contra none
  push Not at none
  have onlyFaulty : first ∩ second ⊆ {member ∈ members | faulty member} := by
    intro member shared
    rw [Finset.mem_inter] at shared
    exact Finset.mem_filter.mpr ⟨firstInside shared.1, none member shared.1 shared.2⟩
  have small := Finset.sum_le_sum_of_subset (f := weight) onlyFaulty
  have overlap := overlap_weight weight firstInside secondInside
  unfold quorum at firstQuorum secondQuorum
  omega

omit [DecidableEq Member] in
/-- The correct members of a quorum hold more than a third of the weight. -/
theorem correct_third {members group : Finset Member} {faulty : Member → Prop}
    [DecidablePred faulty] (inside : group ⊆ members)
    (few : 3 * ∑ member ∈ members with faulty member, weight member <
      ∑ member ∈ members, weight member)
    (isQuorum : quorum (∑ member ∈ members, weight member) ≤ ∑ member ∈ group, weight member) :
    ∑ member ∈ members, weight member <
      3 * ∑ member ∈ group with ¬ faulty member, weight member := by
  have split := Finset.sum_filter_add_sum_filter_not group faulty weight
  have small : ∑ member ∈ group with faulty member, weight member ≤
      ∑ member ∈ members with faulty member, weight member :=
    Finset.sum_le_sum_of_subset (Finset.filter_subset_filter _ inside)
  unfold quorum at isQuorum
  omega

end Intersection

section Counter

variable {Member : Type} [DecidableEq Member] {weight : Member → Nat} {threshold : Nat}

/-- A counter that restarts at zero once it reaches the threshold. What it spent on restarts and
what it holds is the weight of the members that arrived. -/
def Counts (weight : Member → Nat) (threshold : Nat) (arrived : Finset Member) (count : Nat) :
    Prop :=
  ∃ spent, count + spent = ∑ member ∈ arrived, weight member ∧
    (spent = 0 ∧ count < threshold ∨ threshold ≤ spent)

variable {members arrived : Finset Member} {count : Nat} {member : Member}

omit [DecidableEq Member] in
/-- Nobody has arrived at first. -/
theorem Counts.empty (positive : 0 < threshold) : Counts weight threshold ∅ 0 :=
  ⟨0, by simp, .inl ⟨rfl, positive⟩⟩

/-- While twice the threshold exceeds the whole weight, the counter reaches the threshold exactly
when the members that arrived do so for the first time. -/
theorem Counts.reaches (counts : Counts weight threshold arrived count)
    (fresh : member ∉ arrived) (inside : insert member arrived ⊆ members)
    (twice : ∑ member ∈ members, weight member < 2 * threshold) :
    threshold ≤ count + weight member ↔
      ∑ member ∈ arrived, weight member < threshold ∧
        threshold ≤ ∑ member ∈ insert member arrived, weight member := by
  obtain ⟨spent, total, first | restarted⟩ := counts
  · rw [Finset.sum_insert fresh]
    omega
  · have bound := Finset.sum_le_sum_of_subset (f := weight) inside
    rw [Finset.sum_insert fresh] at bound ⊢
    omega

/-- A member that arrives adds its weight, and the count starts again at the threshold. -/
theorem Counts.insert (counts : Counts weight threshold arrived count) (fresh : member ∉ arrived) :
    Counts weight threshold (insert member arrived)
      (if threshold ≤ count + weight member then 0 else count + weight member) := by
  obtain ⟨spent, total, state⟩ := counts
  unfold Counts
  rw [Finset.sum_insert fresh]
  split
  · rename_i reached
    exact ⟨count + spent + weight member, by omega, .inr (by omega)⟩
  · rename_i below
    exact ⟨spent, by omega, state.imp_left fun first => ⟨first.1, by omega⟩⟩

end Counter

end Verification
