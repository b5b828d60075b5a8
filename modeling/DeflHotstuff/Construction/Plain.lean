import DeflHotstuff.Construction.System
import Mathlib.Data.List.Range
import Mathlib.Logic.Function.Basic

namespace DeflHotstuff.Plain

/-- The digests one after the other, each behind its length. -/
def spell : List (List Nat) → List Nat
  | [] => []
  | digest :: rest => digest.length :: (digest ++ spell rest)

/-- A digest that spells out what it hashes. -/
def hash : Preimage Nat (List Nat) → List Nat
  | .block author round payload parent =>
      1 :: author :: round :: payload.length :: (spell payload ++ parent)
  | .vote digest round => 2 :: round :: digest
  | .timeout round highQcRound => [3, round, highQcRound]
  | .batch bytes => 4 :: bytes.map UInt8.toNat

/-- A spelling determines where it ends. -/
theorem spell_append {first second : List (List Nat)} {rest rest' : List Nat}
    (sameLength : first.length = second.length)
    (same : spell first ++ rest = spell second ++ rest') : first = second ∧ rest = rest' := by
  induction first generalizing second with
  | nil =>
      cases List.length_eq_zero_iff.mp sameLength.symm
      exact ⟨rfl, same⟩
  | cons digest digests ih =>
      cases second with
      | nil => cases sameLength
      | cons other others =>
          simp only [spell, List.cons_append, List.cons.injEq, List.append_assoc] at same
          obtain ⟨sameDigest, sameRest⟩ := List.append_inj same.2 same.1
          obtain ⟨sameDigests, sameEnd⟩ := ih (Nat.succ.inj sameLength) sameRest
          exact ⟨by rw [sameDigest, sameDigests], sameEnd⟩

/-- Different preimages have different hashes. -/
theorem hash_injective : Function.Injective hash := by
  intro first second same
  cases first with
  | block author round payload parent =>
      cases second with
      | block author' round' payload' parent' =>
          simp only [hash, List.cons.injEq, true_and] at same
          obtain ⟨rfl, rfl, sameLength, rest⟩ := same
          obtain ⟨rfl, rfl⟩ := spell_append sameLength rest
          rfl
      | _ => simp [hash] at same
  | vote digest round =>
      cases second with
      | vote digest' round' =>
          simp only [hash, List.cons.injEq, true_and] at same
          obtain ⟨rfl, rfl⟩ := same
          rfl
      | _ => simp [hash] at same
  | timeout round highQcRound =>
      cases second with
      | timeout round' highQcRound' =>
          simp only [hash, List.cons.injEq, true_and, and_true] at same
          obtain ⟨rfl, rfl⟩ := same
          rfl
      | _ => simp [hash] at same
  | batch bytes =>
      cases second with
      | batch bytes' =>
          simp only [hash, List.cons.injEq, true_and] at same
          rw [List.map_injective_iff.mpr (fun _ _ => UInt8.toNat_inj.mp) same]
      | _ => simp [hash] at same

/-- A signature names its signer and repeats the digest. -/
instance crypto : Crypto where
  PublicKey := Nat
  Digest := List Nat
  Signature := Nat × List Nat
  defaultPublicKey := 0
  defaultDigest := []
  defaultSignature := (0, [])
  sha512 := hash
  verify key digest signature := decide (signature = (key, digest))
  verifyBatch digest votes := votes.all fun vote => decide (vote.2 = (vote.1, digest))
  verifyBatch_iff _ _ := List.all_eq_true

/-- The plain hashes are free of collisions. -/
theorem collisionFree : CollisionFree where
  signed _ _ _ _ same := hash_injective same
  batches _ _ same := Preimage.batch.inj (hash_injective same)
  apart _ _ _ _ _ same := by cases hash_injective same
  nonzero preimage := by cases preimage <;> exact List.cons_ne_nil _ _

/-- Members with the keys from zero on and the same stake each. -/
def committee (size stake : Nat) (positive : 0 < size) (small : size * stake < 2 ^ 32) :
    Committee where
  authorities := (List.range size).map fun key => (key, ⟨stake, ⟨"", key.toUInt16⟩⟩)
  distinct := by
    rw [List.map_map]
    exact (List.map_id (List.range size)).symm ▸ List.nodup_range
  nonempty := by
    intro empty
    have length := congrArg List.length empty
    rw [List.length_map, List.length_range] at length
    simp only [List.length_nil] at length
    omega
  fits := by
    rw [List.map_map]
    change ((List.range size).map fun _ => stake).sum < 2 ^ 32
    rw [List.map_const', List.length_range, List.sum_replicate_nat]
    exact small

theorem four_nonempty : 0 < 4 := by decide
theorem four_light : 4 * 1 < 2 ^ 32 := by decide
theorem four_heavy : 4 * 2 ^ 29 < 2 ^ 32 := by decide
theorem eight_nonempty : 0 < 8 := by decide
theorem eight_heavy : 8 * 2 ^ 28 < 2 ^ 32 := by decide

def sign (key : Nat) (digest : List Nat) : Nat × List Nat := (key, digest)

def setup (committee : Committee) (decodeBatch : List UInt8 → Option Block) : Setup where
  committee := committee
  sign := sign
  sign_verifies _ _ := decide_eq_true rfl
  decodeBatch := decodeBatch

/-- Four equal members, the last of which need not follow the code. No batch decodes as a block. -/
def four : System where
  setup := setup (committee 4 1 four_nonempty four_light) fun _ => none
  faulty key := decide (key = (3 : Nat))

/-- The QC that three of the four members sign. -/
def certify (block : Block) : QC where
  hash := block.digest
  round := block.round
  votes := [1, 2, 3].map fun (key : Nat) => (key, sign key (sha512 (.vote block.digest block.round)))

/-- The TC that three of the four members sign, each with a high QC of the given round. -/
def expire (round highQcRound : Nat) : TC where
  round := round
  votes := [1, 2, 3].map fun (key : Nat) =>
    (key, sign key (timeoutDigest round highQcRound), highQcRound)

/-- A block without payload that its author signs. -/
def propose (qc : QC) (tc : Option TC) (author : Nat) (round : Nat) : Block :=
  Block.new qc tc author round [] (sign author)

/-- The vote that a member signs for a block. -/
def voteFor (block : Block) (author : Nat) : Vote := Vote.new block author (sign author)

/-- The timeout that a member signs. -/
def timeoutAt (highQc : QC) (round : Nat) (author : Nat) : Timeout :=
  Timeout.new highQc round author (sign author)

end DeflHotstuff.Plain
