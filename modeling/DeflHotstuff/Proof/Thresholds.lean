import DeflHotstuff.Construction.Mempool
import DeflHotstuff.Proof.Certificates

namespace DeflHotstuff

open Verification

section

variable [Crypto]

namespace Committee

/-- The stake that a third of the total may miss. -/
def faultBound (committee : Committee) : Nat := (committee.totalVotes - 1) / 3

/-- What a quorum is for: the correct members reach it, and two quorums share a correct member. -/
structure QuorumSound (committee : Committee) : Prop where
  live : committee.quorumThreshold ≤ committee.totalVotes - committee.faultBound
  share : ∀ first second : Finset PublicKey, first ⊆ committee.keys.toFinset →
    second ⊆ committee.keys.toFinset → committee.quorumThreshold ≤ committee.stakeOf first →
    committee.quorumThreshold ≤ committee.stakeOf second →
    committee.faultBound < committee.stakeOf (first ∩ second)

/-- Without an overflow the threshold is what the correct members hold. -/
theorem quorumSound_of_small {committee : Committee} (positive : 1 ≤ committee.totalVotes)
    (small : 2 * committee.totalVotes < 2 ^ 32) : committee.QuorumSound := by
  have threshold := committee.quorumThreshold_eq small
  unfold quorum at threshold
  constructor
  · rw [threshold, faultBound]
    omega
  · intro first second firstInside secondInside firstReaches secondReaches
    have overlap := overlap_weight committee.stake firstInside secondInside
    rw [committee.sum_stake] at overlap
    unfold stakeOf at firstReaches secondReaches ⊢
    rw [threshold] at firstReaches secondReaches
    rw [faultBound]
    omega

end Committee

/-- A key outside of the mempool committee has no stake. -/
theorem MempoolCommittee.stake_eq_zero {committee : MempoolCommittee} {name : PublicKey}
    (absent : name ∉ committee.keys) : committee.stake name = 0 := by
  have none : committee.authorities.lookup name = none := by
    rw [List.lookup_eq_none_iff]
    intro entry inside
    exact bne_iff_ne.mpr fun same => absent (same ▸ List.mem_map_of_mem inside)
  rw [stake, none]
  rfl

/-- Committees that give every key the same stake have the same threshold. -/
theorem MempoolCommittee.quorumThreshold_agrees {mempool : MempoolCommittee} {committee : Committee}
    (same : ∀ name, mempool.stake name = committee.stake name) :
    mempool.quorumThreshold = committee.quorumThreshold := by
  let all := mempool.keys.toFinset ∪ committee.keys.toFinset
  have total : mempool.totalVotes = committee.totalVotes := calc
    mempool.totalVotes = ∑ name ∈ mempool.keys.toFinset, mempool.stake name :=
      (sum_lookup MempoolAuthority.stake mempool.authorities mempool.distinct).symm
    _ = ∑ name ∈ all, mempool.stake name :=
      Finset.sum_subset Finset.subset_union_left fun name _ absent =>
        stake_eq_zero (mt List.mem_toFinset.mpr absent)
    _ = ∑ name ∈ all, committee.stake name := Finset.sum_congr rfl fun name _ => same name
    _ = ∑ name ∈ committee.keys.toFinset, committee.stake name := by
      refine (Finset.sum_subset Finset.subset_union_right fun name _ absent => ?_).symm
      by_contra positive
      exact absent (List.mem_toFinset.mpr
        (committee.mem_keys_of_stake (Nat.pos_of_ne_zero positive)))
    _ = committee.totalVotes := committee.sum_stake
  have small : committee.totalVotes % 2 ^ 32 = committee.totalVotes :=
    Nat.mod_eq_of_lt committee.fits
  rw [quorumThreshold, Committee.quorumThreshold, total, small]

/-- Two members that hold one half of the total each. -/
def Committee.halves (first second : PublicKey) (distinct : first ≠ second) (total : Nat)
    (fits : total < 2 ^ 32) : Committee where
  authorities := [(first, ⟨total - total / 2, ⟨"", 0⟩⟩), (second, ⟨total / 2, ⟨"", 1⟩⟩)]
  distinct := by simp [distinct]
  nonempty := by simp
  fits := by
    simp only [List.map_cons, List.map_nil, List.sum_cons, List.sum_nil]
    omega

namespace Committee

variable {first second : PublicKey} {distinct : first ≠ second} {total : Nat}
  {fits : total < 2 ^ 32}

/-- The two halves add up to the total. -/
theorem halves_total : (halves first second distinct total fits).totalVotes = total := by
  simp only [totalVotes, halves, List.map_cons, List.map_nil, List.sum_cons, List.sum_nil]
  omega

/-- The stakes of the two authorities are the halves. -/
theorem halves_stake : (halves first second distinct total fits).stake first = total - total / 2 ∧
    (halves first second distinct total fits).stake second = total / 2 := by
  have other : (second == first) = false := beq_false_of_ne (Ne.symm distinct)
  simp [stake, halves, List.lookup_cons, other]

/-- Where the doubling overflows, each half of the stake reaches the threshold on its own. -/
theorem halves_unsound (overflow : 2 ^ 32 ≤ 2 * total) :
    ¬ (halves first second distinct total fits).QuorumSound := by
  generalize isHalves : halves first second distinct total fits = committee
  intro sound
  obtain ⟨firstStake, secondStake⟩ : committee.stake first = total - total / 2 ∧
      committee.stake second = total / 2 := by
    rw [← isHalves]
    exact halves_stake
  have isTotal : committee.totalVotes = total := by rw [← isHalves, halves_total]
  have member (name : PublicKey) (inside : name ∈ [first, second]) :
      {name} ⊆ committee.keys.toFinset := by
    rw [Finset.singleton_subset_iff, List.mem_toFinset, ← isHalves]
    exact inside
  have shared := sound.share {first} {second} (member first (by simp)) (member second (by simp))
    (by rw [stakeOf, Finset.sum_singleton, firstStake, quorumThreshold, isTotal]; omega)
    (by rw [stakeOf, Finset.sum_singleton, secondStake, quorumThreshold, isTotal]; omega)
  rw [Finset.singleton_inter_of_notMem (by simpa using distinct)] at shared
  exact absurd shared (Nat.not_lt_zero _)

end Committee

/-- The quorum arithmetic holds for every committee of a total stake exactly when the doubled
total fits `u32`. -/
theorem quorum_arithmetic (first second : PublicKey) (distinct : first ≠ second) (total : Nat)
    (positive : 1 ≤ total) (fits : total < 2 ^ 32) :
    (∀ committee : Committee, committee.totalVotes = total → committee.QuorumSound ∧
      ∀ mempool : MempoolCommittee, (∀ name, mempool.stake name = committee.stake name) →
        mempool.quorumThreshold = committee.quorumThreshold) ↔ 2 * total < 2 ^ 32 := by
  constructor
  · intro sound
    by_contra overflow
    exact Committee.halves_unsound (Nat.not_lt.mp overflow)
      (sound (.halves first second distinct total fits) Committee.halves_total).1
  · rintro small committee rfl
    exact ⟨Committee.quorumSound_of_small positive small,
      fun mempool same => MempoolCommittee.quorumThreshold_agrees same⟩

end

namespace Plain

/-- A total of one is within the bound. -/
theorem quorum_arithmetic_one :
    (committee 1 1 (by decide) (by decide)).QuorumSound ∧ 2 * 1 < 2 ^ 32 :=
  ⟨((quorum_arithmetic (0 : Nat) (1 : Nat) (by decide) 1 (by decide) (by decide)).mpr (by decide)
    (committee 1 1 (by decide) (by decide)) rfl).1, by decide⟩

/-- Two members with the stake of a power of two each, which overflow together. -/
theorem quorum_arithmetic_fails : ¬ (committee 2 (2 ^ 30) (by decide) (by decide)).QuorumSound := by
  intro sound
  have shared := sound.share {(0 : Nat)} {(1 : Nat)} (by decide) (by decide) (by decide +kernel)
    (by decide +kernel)
  revert shared
  decide +kernel

end Plain

end DeflHotstuff
