import DeflHotstuff.Proof.Network

namespace DeflHotstuff

open Verification

variable [Crypto]

namespace System

/-- The members that count their stake together reach a quorum of the total. -/
def Quorum (system : System) (voters : Finset PublicKey) : Prop :=
  voters ⊆ system.setup.committee.keys.toFinset ∧
    quorum system.setup.committee.totalVotes ≤
      ∑ voter ∈ voters, system.setup.committee.stake voter

variable {system : System} {nodes : PublicKey → Node}

/-- The authors of a verified certificate are a quorum. -/
theorem quorum_of_names (small : 2 * system.setup.committee.totalVotes < 2 ^ 32)
    {names : List PublicKey} (isQuorum : system.setup.committee.IsQuorum names) :
    system.Quorum names.toFinset := by
  obtain ⟨distinct, rights, enough⟩ := isQuorum
  constructor
  · intro name inside
    rw [List.mem_toFinset] at inside ⊢
    exact system.setup.committee.mem_keys_of_stake (rights name inside)
  · rw [← system.setup.committee.quorumThreshold_eq small, List.sum_toFinset _ distinct]
    exact enough

/-- Two quorums share an honest member. -/
theorem quorum_share (few : 3 * system.faultyStake < system.setup.committee.totalVotes)
    (first second : Finset PublicKey) (firstQuorum : system.Quorum first)
    (secondQuorum : system.Quorum second) :
    ∃ name ∈ first, name ∈ second ∧ system.honest name = true := by
  unfold faultyStake at few
  rw [← system.setup.committee.sum_stake] at few
  obtain ⟨firstInside, firstEnough⟩ := firstQuorum
  obtain ⟨secondInside, secondEnough⟩ := secondQuorum
  rw [← system.setup.committee.sum_stake] at firstEnough secondEnough
  obtain ⟨name, inFirst, inSecond, correct⟩ := quorums_share system.setup.committee.stake
    firstInside secondInside few firstEnough secondEnough
  refine ⟨name, inFirst, inSecond, ?_⟩
  have member := List.mem_toFinset.mp (firstInside inFirst)
  unfold honest
  simpa using ⟨member, by simpa using correct⟩

/-- Every honest voter of the set voted for a block with the digest at the round. -/
def AllVoted (system : System) (nodes : PublicKey → Node) (voters : Finset PublicKey)
    (hash : Digest) (round : Nat) : Prop :=
  ∀ voter ∈ voters, system.honest voter = true →
    ∃ block, .voted block ∈ (nodes voter).core.history ∧ block.digest = hash ∧ block.round = round

/-- A checked or own block whose parent is at hand and whose digest a quorum voted for. -/
structure Anchored (system : System) (nodes : PublicKey → Node) (name : PublicKey)
    (block : Block) : Prop where
  trusted : (nodes name).core.Trusted block
  rooted : (nodes name).core.Rooted block
  certified : ∃ voters, system.Quorum voters ∧
    system.AllVoted nodes voters block.digest block.round

/-- A backed QC other than genesis has a quorum behind it whose honest members voted. -/
theorem voters_of_backed (collisionFree : CollisionFree)
    (small : 2 * system.setup.committee.totalVotes < 2 ^ 32) (genuine : Genuine system nodes)
    {name : PublicKey} {qc : QC} (backed : (nodes name).core.Backed system.setup name qc) :
    (qc == QC.genesis) = true ∨
      ∃ voters, system.Quorum voters ∧ system.AllVoted nodes voters qc.hash qc.round := by
  refine backed.imp_right fun ⟨verified, holds⟩ => ?_
  obtain ⟨isQuorum, signed⟩ := QC.verify_ok.mp verified
  refine ⟨_, quorum_of_names small isQuorum, fun voter inside honest => ?_⟩
  obtain ⟨vote, listed, rfl⟩ := List.mem_map.mp (List.mem_toFinset.mp inside)
  have held := holds ⟨vote.1, qc.digest, vote.2⟩ (List.mem_map.mpr ⟨vote, listed, rfl⟩)
  have valid := (Crypto.verifyBatch_iff _ _).mp signed vote listed
  exact collisionFree.signed_vote (signed_of_holds genuine held honest valid)

/-- A backed TC has a quorum behind it whose honest members reported the round of their lock. -/
theorem reporters_of_backed (collisionFree : CollisionFree)
    (small : 2 * system.setup.committee.totalVotes < 2 ^ 32) (genuine : Genuine system nodes)
    {name : PublicKey} {tc : TC} (backed : (nodes name).core.BackedTc system.setup name tc) :
    ∃ voters, system.Quorum voters ∧ ∀ voter ∈ voters, system.honest voter = true →
      ∃ timeout, .expired timeout ∈ (nodes voter).core.history ∧ timeout.round = tc.round ∧
        timeout.highQc.round ∈ tc.highQcRounds := by
  obtain ⟨verified, holds⟩ := backed
  obtain ⟨isQuorum, signed⟩ := TC.verify_ok.mp verified
  refine ⟨_, quorum_of_names small isQuorum, fun voter inside honest => ?_⟩
  obtain ⟨vote, listed, rfl⟩ := List.mem_map.mp (List.mem_toFinset.mp inside)
  have held := holds ⟨vote.1, timeoutDigest tc.round vote.2.2, vote.2.1⟩
    (List.mem_map.mpr ⟨vote, listed, rfl⟩)
  obtain ⟨timeout, expired, isRound, isHighQc⟩ := collisionFree.signed_timeout
    (signed_of_holds genuine held honest (signed vote listed))
  exact ⟨timeout, expired, isRound, isHighQc ▸ List.mem_map.mpr ⟨vote, listed, rfl⟩⟩

end System

/-- The QC of a block that was checked or built here is backed. -/
theorem Core.Regular.backed {setup : Setup} {name : PublicKey} {core : Core}
    (regular : core.Regular setup name) {block : Block} (trusted : core.Trusted block) :
    core.Backed setup name block.qc := by
  rcases trusted with accepted | ⟨sent, qc, tc, built⟩
  · obtain ⟨received, verified, _⟩ := regular.evidenced.accepted block accepted
    exact backed_of_block received verified
  · obtain ⟨_, rfl, _, made⟩ := regular.tracked.built sent qc tc block built
    exact (regular.evidenced.made _ _ _ made).1

/-- A vote as the two-chain argument sees it. -/
def Block.chainVote (block : Block) : ChainVote Digest where
  block := block.digest
  round := block.round
  parent := block.parentDigest
  parentRound := block.qc.round

/-- What the votes of the honest members rest on. -/
structure System.Safe (system : System) (nodes : PublicKey → Node) : Prop where
  collisionFree : CollisionFree
  few : 3 * system.faultyStake < system.setup.committee.totalVotes
  small : 2 * system.setup.committee.totalVotes < 2 ^ 32
  reachable : system.machine.Reachable nodes

namespace System.Safe

variable {system : System} {nodes : PublicKey → Node} (safe : System.Safe system nodes)

include safe

/-- Every node meets what holds of a node alone. -/
theorem regular (name : PublicKey) : (nodes name).core.Regular system.setup name :=
  System.reachable_regular safe.reachable name

/-- A backed QC that is not of genesis has a quorum that voted. -/
theorem voters {name : PublicKey} {qc : QC}
    (backed : (nodes name).core.Backed system.setup name qc) :
    (qc == QC.genesis) = true ∨
      ∃ voters, system.Quorum voters ∧ system.AllVoted nodes voters qc.hash qc.round :=
  System.voters_of_backed safe.collisionFree safe.small
    (System.reachable_genuine safe.reachable) backed

/-- A quorum that voted for a digest has an honest member that did. -/
theorem voter {voters : Finset PublicKey} {hash : Digest} {round : Nat}
    (isQuorum : system.Quorum voters) (voted : system.AllVoted nodes voters hash round) :
    ∃ voter block, system.honest voter = true ∧ .voted block ∈ (nodes voter).core.history ∧
      block.digest = hash ∧ block.round = round := by
  obtain ⟨voter, inside, _, honest⟩ :=
    System.quorum_share safe.few voters voters isQuorum isQuorum
  obtain ⟨block, isVoted, isHash, isRound⟩ := voted voter inside honest
  exact ⟨voter, block, honest, isVoted, isHash, isRound⟩

/-- A certified hash is the digest of a block, so it is not the all-zero digest. -/
theorem hash_ne_default {voters : Finset PublicKey} {hash : Digest} {round : Nat}
    (isQuorum : system.Quorum voters) (voted : system.AllVoted nodes voters hash round) :
    hash ≠ default := by
  obtain ⟨_, block, _, _, rfl, _⟩ := safe.voter isQuorum voted
  exact safe.collisionFree.nonzero _

/-- Backed QCs with one hash have one round. -/
theorem qc_round {first second : PublicKey} {qc qc' : QC}
    (backed : (nodes first).core.Backed system.setup first qc)
    (backed' : (nodes second).core.Backed system.setup second qc') (same : qc.hash = qc'.hash) :
    qc.round = qc'.round := by
  rcases safe.voters backed with isGenesis | ⟨voters, isQuorum, voted⟩
  · rcases safe.voters backed' with isGenesis' | ⟨voters', isQuorum', voted'⟩
    · rw [(QC.beq_iff.mp isGenesis).2, (QC.beq_iff.mp isGenesis').2]
    · exact absurd (same.symm.trans (QC.beq_iff.mp isGenesis).1)
        (safe.hash_ne_default isQuorum' voted')
  · rcases safe.voters backed' with isGenesis' | ⟨voters', isQuorum', voted'⟩
    · exact absurd (same.trans (QC.beq_iff.mp isGenesis').1) (safe.hash_ne_default isQuorum voted)
    · obtain ⟨_, block, _, _, isHash, isRound⟩ := safe.voter isQuorum voted
      obtain ⟨_, block', _, _, isHash', isRound'⟩ := safe.voter isQuorum' voted'
      rw [← isRound, ← isRound']
      exact (safe.collisionFree.block_digest (isHash.trans (same.trans isHash'.symm))).2.1

/-- A QC with a quorum of votes is for the parent of the block. -/
theorem parentDigest {voters : Finset PublicKey} {block : Block} {round : Nat}
    (isQuorum : system.Quorum voters) (voted : system.AllVoted nodes voters block.qc.hash round) :
    block.parentDigest = block.qc.hash := by
  unfold Block.parentDigest
  rw [if_neg (safe.hash_ne_default isQuorum voted)]

/-- A quorum voted for no batch. -/
theorem hash_ne_batch {voters : Finset PublicKey} {hash : Digest} {round : Nat}
    (isQuorum : system.Quorum voters) (voted : system.AllVoted nodes voters hash round)
    (bytes : List UInt8) : hash ≠ sha512 (.batch bytes) := by
  obtain ⟨_, block, _, _, rfl, _⟩ := safe.voter isQuorum voted
  exact safe.collisionFree.block_ne_batch block bytes

/-- The parent of a checked or own block is genesis or a certified block of the QC's round. -/
theorem parent {name : PublicKey} {child parent : Block}
    (trusted : (nodes name).core.Trusted child)
    (isParent : (nodes name).core.IsParent child parent) :
    (parent.digest = child.parentDigest ∧ parent.round = child.qc.round) ∧
      (parent = .genesis ∨
        parent.digest = child.parent ∧ system.Anchored nodes name parent) := by
  have backed := (safe.regular name).backed trusted
  cases isParent with
  | genesis embedded same =>
      obtain ⟨hash, round⟩ := QC.beq_iff.mp embedded
      subst same
      exact ⟨⟨(if_pos hash).symm, round.symm⟩, .inl rfl⟩
  | stored embedded digest stored rooted =>
      rcases safe.voters backed with isGenesis | ⟨voters, isQuorum, voted⟩
      · rw [embedded] at isGenesis
        cases isGenesis
      · obtain ⟨_, block, _, _, isHash, isRound⟩ := safe.voter isQuorum voted
        have sameDigest : block.digest = parent.digest := isHash.trans digest.symm
        have sameRound : parent.round = child.qc.round := by
          rw [← isRound, (safe.collisionFree.block_digest sameDigest).2.1]
        refine ⟨⟨digest.trans (safe.parentDigest isQuorum voted).symm, sameRound⟩,
          .inr ⟨digest, stored, rooted, voters, isQuorum, ?_⟩⟩
        rw [digest, sameRound]
        exact voted
  | batch embedded bytes digest =>
      rcases safe.voters backed with isGenesis | ⟨voters, isQuorum, voted⟩
      · rw [embedded] at isGenesis
        cases isGenesis
      · exact absurd digest (safe.hash_ne_batch isQuorum voted bytes)

/-- The QC of a certified block is from an earlier round. -/
theorem qc_below {name : PublicKey} {block : Block}
    (anchored : system.Anchored nodes name block) : block.qc.round < block.round := by
  obtain ⟨voters, isQuorum, voted⟩ := anchored.certified
  obtain ⟨voter, vote, _, isVoted, isHash, isRound⟩ := safe.voter isQuorum voted
  obtain ⟨_, _, increasing, _, trusted⟩ := (safe.regular voter).disciplined.voted vote isVoted
  have same := safe.qc_round ((safe.regular voter).backed trusted)
    ((safe.regular name).backed anchored.trusted)
    (safe.collisionFree.block_digest isHash).2.2.2
  omega

/-- The head of a committed two-chain is genesis or certified together with its child. -/
theorem committed {name : PublicKey} {b0 : Block}
    (committed : .committed b0 ∈ (nodes name).core.history) :
    b0 = .genesis ∨ system.Anchored nodes name b0 ∧ ∃ b1, system.Anchored nodes name b1 ∧
      b1.parentDigest = b0.digest ∧ b1.qc.round = b0.round ∧ b1.round = b0.round + 1 := by
  have stocked := (safe.regular name).stocked
  obtain ⟨b1, block, processed, consecutive⟩ := stocked.committed b0 committed
  obtain ⟨trusted, parent, grandparent⟩ := stocked.processed b0 b1 block processed
  rcases (safe.parent trusted parent).2 with isGenesis | ⟨_, anchored⟩
  · rw [isGenesis] at consecutive
    cases consecutive
  · obtain ⟨⟨digest, round⟩, isGenesis | ⟨_, isAnchored⟩⟩ :=
      safe.parent anchored.trusted grandparent
    · exact .inl isGenesis
    · exact .inr ⟨isAnchored, b1, anchored, digest.symm, round.symm, consecutive.symm⟩

end System.Safe

end DeflHotstuff
