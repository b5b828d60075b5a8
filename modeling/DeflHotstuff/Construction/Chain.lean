import DeflHotstuff.Construction.Messages
import Mathlib.Logic.Relation

namespace DeflHotstuff

variable [Crypto]

/-- The digest of the parent: the hash of the QC, where the genesis QC points to genesis. -/
def Block.parentDigest (block : Block) : Digest :=
  if block.qc.hash = default then Block.genesis.digest else block.qc.hash

/-- The link from a block to the block that its QC certifies. -/
def Parent (parent child : Digest) : Prop :=
  ∃ block : Block, block.digest = child ∧ block.parentDigest = parent

/-- The proper ancestors through the QC hashes. -/
def Ancestor : Digest → Digest → Prop := Relation.TransGen Parent

namespace CollisionFree

variable (collisionFree : CollisionFree)

include collisionFree

/-- The digest fixes the author, the round, the payload and the parent. -/
theorem block_digest {first second : Block} (same : first.digest = second.digest) :
    first.author = second.author ∧ first.round = second.round ∧ first.payload = second.payload ∧
      first.qc.hash = second.qc.hash := by
  simpa using collisionFree.signed _ _ rfl rfl same

/-- Blocks of one digest have the same parent. -/
theorem parentDigest {first second : Block} (same : first.digest = second.digest) :
    first.parentDigest = second.parentDigest := by
  unfold Block.parentDigest
  rw [(collisionFree.block_digest same).2.2.2]

/-- Votes of one digest have the same hash and round. -/
theorem vote_digest {hash hash' : Digest} {round round' : Nat}
    (same : sha512 (.vote hash round) = sha512 (.vote hash' round')) :
    hash = hash' ∧ round = round' := by
  simpa using collisionFree.signed _ _ rfl rfl same

/-- Timeouts of one digest have the same rounds. -/
theorem timeout_digest {round round' highQcRound highQcRound' : Nat}
    (same : timeoutDigest round highQcRound = timeoutDigest round' highQcRound') :
    round = round' ∧ highQcRound = highQcRound' := by
  simpa using collisionFree.signed _ _ rfl rfl same

/-- Batches of one digest are the same bytes. -/
theorem batch_digest {bytes bytes' : List UInt8}
    (same : sha512 (.batch bytes) = sha512 (.batch bytes')) : bytes = bytes' :=
  collisionFree.batches bytes bytes' same

/-- Blocks of different rounds have different digests. -/
theorem distinct_of_rounds {blocks : List Block}
    (rounds : blocks.Pairwise fun first second => first.round ≠ second.round) :
    (blocks.map Block.digest).Nodup := by
  unfold List.Nodup
  rw [List.pairwise_map]
  exact rounds.imp fun different same => different (collisionFree.block_digest same).2.1

/-- No block has the digest of a batch. -/
theorem block_ne_batch (block : Block) (bytes : List UInt8) :
    block.digest ≠ sha512 (.batch bytes) :=
  collisionFree.apart block.author block.round block.payload block.qc.hash bytes

/-- A block has one parent. -/
theorem parent_unique {parent parent' child : Digest} (link : Parent parent child)
    (link' : Parent parent' child) : parent = parent' := by
  obtain ⟨block, isChild, rfl⟩ := link
  obtain ⟨block', isChild', rfl⟩ := link'
  exact collisionFree.parentDigest (isChild.trans isChild'.symm)

/-- A proper ancestor is the parent or a proper ancestor of the parent. -/
theorem ancestor_parent {ancestor : Digest} {block : Block}
    (descends : Ancestor ancestor block.digest) :
    ancestor = block.parentDigest ∨ Ancestor ancestor block.parentDigest := by
  cases descends with
  | single link => exact .inl (collisionFree.parent_unique link ⟨block, rfl, rfl⟩)
  | tail descends link =>
      rw [← collisionFree.parent_unique link ⟨block, rfl, rfl⟩]
      exact .inr descends

end CollisionFree

/-- The parent of genesis is genesis. -/
theorem genesis_parentDigest : Block.genesis.parentDigest = Block.genesis.digest := by
  simp [Block.parentDigest, Block.genesis, QC.genesis]

/-- Genesis has no proper ancestor but itself. -/
theorem CollisionFree.ancestor_genesis (collisionFree : CollisionFree) {ancestor : Digest}
    (descends : Ancestor ancestor Block.genesis.digest) : ancestor = Block.genesis.digest := by
  generalize isLast : Block.genesis.digest = last at descends
  induction descends with
  | single link =>
      rw [collisionFree.parent_unique link ⟨Block.genesis, isLast, genesis_parentDigest⟩]
      exact isLast
  | tail descends link ih =>
      rw [collisionFree.parent_unique link ⟨Block.genesis, isLast, genesis_parentDigest⟩] at ih
      rw [← isLast]
      exact ih rfl

end DeflHotstuff
