import DeflHotstuff.Construction.Crypto
import DeflHotstuff.Library.Quorum
import Mathlib.Data.List.Sort

namespace DeflHotstuff

structure SocketAddr where
  ip : String
  port : UInt16
deriving DecidableEq

structure Authority where
  stake : Nat
  address : SocketAddr

/-- The keys are distinct, as in a map, and the sum of the stakes fits the `u32` stake type. -/
structure Committee [Crypto] where
  authorities : List (PublicKey × Authority)
  distinct : (authorities.map Prod.fst).Nodup
  nonempty : authorities ≠ []
  fits : (authorities.map fun entry => entry.2.stake).sum < 2 ^ 32

namespace Committee

variable [Crypto] (committee : Committee)

def keys : List PublicKey := committee.authorities.map Prod.fst

def size : Nat := committee.authorities.length

def stake (name : PublicKey) : Nat :=
  ((committee.authorities.lookup name).map Authority.stake).getD 0

def totalVotes : Nat := (committee.authorities.map fun entry => entry.2.stake).sum

/-- The code doubles the total in `u32`. -/
def quorumThreshold : Nat := 2 * committee.totalVotes % 2 ^ 32 / 3 + 1

def address (name : PublicKey) : Option SocketAddr :=
  (committee.authorities.lookup name).map Authority.address

def broadcastAddresses (myself : PublicKey) : List (PublicKey × SocketAddr) :=
  (committee.authorities.filter fun entry => entry.1 ≠ myself).map fun entry =>
    (entry.1, entry.2.address)

/-- Sorting the keys keeps their number. -/
theorem sorted_length :
    (committee.keys.insertionSort (· ≤ ·)).length = committee.size := by
  rw [List.length_insertionSort, keys, List.length_map, size]

/-- A committee has a member. -/
theorem size_pos : 0 < committee.size := List.length_pos_iff.mpr committee.nonempty

/-- The round-robin leader is the key at the position of the round in sorted order. -/
def getLeader (round : Nat) : PublicKey :=
  (committee.keys.insertionSort (· ≤ ·)).get ⟨round % committee.size, by
    rw [committee.sorted_length]
    exact Nat.mod_lt _ committee.size_pos⟩

/-- The leader of every round is a member. -/
theorem getLeader_mem (round : Nat) : committee.getLeader round ∈ committee.keys := by
  rw [← List.mem_insertionSort (r := (· ≤ ·))]
  exact List.get_mem _ _

/-- The members are the keys that the map has. -/
theorem lookup_isSome {name : PublicKey} :
    (committee.authorities.lookup name).isSome ↔ name ∈ committee.keys := by
  rw [List.lookup_isSome_iff, keys, List.mem_map]
  constructor
  · rintro ⟨entry, inside, same⟩
    exact ⟨entry, inside, (eq_of_beq same).symm⟩
  · rintro ⟨entry, inside, same⟩
    exact ⟨entry, inside, beq_iff_eq.mpr same.symm⟩

/-- Every member has an address. -/
theorem address_isSome {name : PublicKey} (member : name ∈ committee.keys) :
    (committee.address name).isSome := by
  rw [address, Option.isSome_map]
  exact committee.lookup_isSome.mpr member

/-- Only a member has a positive stake. -/
theorem mem_keys_of_stake {name : PublicKey} (positive : 0 < committee.stake name) :
    name ∈ committee.keys := by
  rw [← committee.lookup_isSome]
  unfold stake at positive
  cases found : committee.authorities.lookup name with
  | none => simp [found] at positive
  | some authority => rfl

/-- The stakes of the keys add up to the total. -/
theorem sum_stake : ∑ name ∈ committee.keys.toFinset, committee.stake name = committee.totalVotes :=
  Verification.sum_lookup Authority.stake committee.authorities committee.distinct

/-- No quorum is empty. -/
theorem quorumThreshold_pos : 0 < committee.quorumThreshold := Nat.succ_pos _

/-- Below the overflow of the doubling the threshold is a quorum of the total. -/
theorem quorumThreshold_eq (small : 2 * committee.totalVotes < 2 ^ 32) :
    committee.quorumThreshold = Verification.quorum committee.totalVotes := by
  rw [quorumThreshold, Nat.mod_eq_of_lt small, Verification.quorum]

end Committee

end DeflHotstuff
