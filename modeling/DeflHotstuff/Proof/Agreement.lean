import DeflHotstuff.Construction.Plain
import DeflHotstuff.Proof.Votes

namespace DeflHotstuff

open Verification

section

variable [Crypto]

namespace System.Safe

variable {system : System} {nodes : PublicKey → Node} (safe : System.Safe system nodes)

include safe

/-- The votes of the honest members are the votes of a two-chain protocol. -/
def chainVotes : ChainVotes PublicKey Digest where
  correct name := system.honest name = true
  quorum := system.Quorum
  cast name vote := ∃ block, .voted block ∈ (nodes name).core.history ∧ vote = block.chainVote
  genesis := Block.genesis.digest
  share := quorum_share safe.few
  once := by
    rintro name _ _ _ ⟨block, voted, rfl⟩ ⟨other, voted', rfl⟩ same
    rw [(safe.regular name).disciplined.once block other voted voted' same]
  determined := by
    rintro name other _ _ _ _ ⟨block, voted, rfl⟩ ⟨block', voted', rfl⟩ same
    have backed := (safe.regular name).backed
      ((safe.regular name).disciplined.voted block voted).2.2.2.2
    have backed' := (safe.regular other).backed
      ((safe.regular other).disciplined.voted block' voted').2.2.2.2
    obtain ⟨_, round, _, hash⟩ := safe.collisionFree.block_digest same
    unfold Block.chainVote
    rw [show block.digest = block'.digest from same, round, safe.collisionFree.parentDigest same,
      safe.qc_round backed backed' hash]
  justified := by
    rintro name _ _ ⟨block, voted, rfl⟩
    have backed := (safe.regular name).backed
      ((safe.regular name).disciplined.voted block voted).2.2.2.2
    rcases safe.voters backed with isGenesis | ⟨voters, isQuorum, allVoted⟩
    · obtain ⟨hash, round⟩ := QC.beq_iff.mp isGenesis
      exact .inl ⟨if_pos hash, round⟩
    · refine .inr ⟨voters, isQuorum, fun voter inside honest => ?_⟩
      obtain ⟨previous, isVoted, isHash, isRound⟩ := allVoted voter inside honest
      refine ⟨_, ⟨previous, isVoted, rfl⟩, ?_, isRound⟩
      exact isHash.trans (safe.parentDigest isQuorum allVoted).symm
  increasing := by
    rintro name _ _ ⟨block, voted, rfl⟩
    exact ((safe.regular name).disciplined.voted block voted).2.2.1
  locked := by
    rintro name _ _ ⟨block, voted, rfl⟩
    have regular := safe.regular name
    obtain ⟨_, _, _, votable, trusted⟩ := regular.disciplined.voted block voted
    rcases votable with consecutive | ⟨tc, carried, next, bound⟩
    · exact .inl consecutive
    · rcases trusted with accepted | ⟨sent, qc, tc', built⟩
      · -- the TC of a checked block reports the locks of a quorum
        obtain ⟨received, verified, _⟩ := regular.evidenced.accepted block accepted
        have backed : (nodes name).core.BackedTc system.setup name tc :=
          Core.backedTc_of_block received verified carried
        obtain ⟨voters, isQuorum, reported⟩ := System.reporters_of_backed safe.collisionFree
          safe.small (System.reachable_genuine safe.reachable) backed
        refine .inr (.inl ⟨voters, isQuorum, fun voter inside honest previous cast before => ?_⟩)
        obtain ⟨earlier, isVoted, rfl⟩ := cast
        obtain ⟨timeout, expired, isRound, listed⟩ := reported voter inside honest
        have locked := ((safe.regular voter).disciplined.expired timeout expired).2 earlier isVoted
        have below := bound _ listed
        change earlier.round < block.round at before
        exact (locked (by omega)).trans below
      · -- an own block carries the lock of its own node, whatever its TC says
        obtain ⟨_, rfl, _, made⟩ := regular.tracked.built sent qc tc' block built
        refine .inr (.inr fun previous cast before => ?_)
        obtain ⟨earlier, isVoted, rfl⟩ := cast
        exact regular.disciplined.made _ _ _ made earlier isVoted before

/-- A digest that a quorum voted for is certified in the two-chain protocol. -/
theorem certified_of_voted {voters : Finset PublicKey} {hash : Digest} {round : Nat}
    (isQuorum : system.Quorum voters) (voted : system.AllVoted nodes voters hash round) :
    safe.chainVotes.Certified hash round := by
  refine ⟨voters, isQuorum, fun voter inside honest => ?_⟩
  obtain ⟨block, isVoted, isHash, isRound⟩ := voted voter inside honest
  exact ⟨_, ⟨block, isVoted, rfl⟩, isHash, isRound⟩

/-- The head of a committed two-chain is genesis or certified below a certified vote. -/
theorem committed_head {name : PublicKey} {b0 : Block}
    (committed : .committed b0 ∈ (nodes name).core.history) :
    b0 = .genesis ∨ ∃ voter tail, safe.chainVotes.correct voter ∧
      safe.chainVotes.cast voter tail ∧ safe.chainVotes.Certified tail.block tail.round ∧
      tail.parent = b0.digest ∧ tail.parentRound = b0.round ∧ tail.round = b0.round + 1 ∧
      safe.chainVotes.Certified b0.digest b0.round := by
  apply (safe.committed committed).imp_right
  rintro ⟨head, b1, tail, parentDigest, qcRound, consecutive⟩
  obtain ⟨headVoters, headQuorum, headVoted⟩ := head.certified
  obtain ⟨voters, isQuorum, voted⟩ := tail.certified
  obtain ⟨voter, vote, honest, isVoted, isHash, isRound⟩ := safe.voter isQuorum voted
  have voteBacked := (safe.regular voter).backed
    ((safe.regular voter).disciplined.voted vote isVoted).2.2.2.2
  have sameQcRound := safe.qc_round voteBacked ((safe.regular name).backed tail.trusted)
    (safe.collisionFree.block_digest isHash).2.2.2
  refine ⟨voter, vote.chainVote, honest, ⟨vote, isVoted, rfl⟩, ?_, ?_, sameQcRound.trans qcRound,
    isRound.trans consecutive, safe.certified_of_voted headQuorum headVoted⟩
  · change safe.chainVotes.Certified vote.digest vote.round
    rw [isHash, isRound]
    exact safe.certified_of_voted isQuorum voted
  · change vote.parentDigest = b0.digest
    rw [safe.collisionFree.parentDigest isHash, parentDigest]

/-- Descent in the abstract voting system is ancestry through the QC hashes. -/
theorem ancestor_of_descends {ancestor block : Digest}
    (descends : safe.chainVotes.Descends ancestor block) : Ancestor ancestor block := by
  refine Relation.TransGen.mono ?_ _ _ descends
  rintro parent child ⟨_, _, _, ⟨block, _, rfl⟩, rfl, rfl⟩
  exact ⟨block, rfl, rfl⟩

/-- Of two committed heads the one of the higher round extends the other. -/
theorem committed_line {first second : PublicKey} {b b' : Block}
    (committed : .committed b ∈ (nodes first).core.history)
    (committed' : .committed b' ∈ (nodes second).core.history) (ordered : b.round ≤ b'.round) :
    b.digest = b'.digest ∨ Ancestor b.digest b'.digest := by
  rcases safe.committed_head committed with
    isGenesis | ⟨voter, tail, correct, cast, certified, parent, parentRound, consecutive, head⟩
  · rcases safe.committed_head committed' with
      isGenesis' | ⟨_, _, _, _, _, _, _, _, head'⟩
    · exact .inl (by rw [isGenesis, isGenesis'])
    · rw [isGenesis]
      exact .inr (safe.ancestor_of_descends (ChainVotes.extends_genesis _ _ head'))
  · rcases safe.committed_head committed' with
      isGenesis' | ⟨_, _, _, _, _, _, _, _, head'⟩
    · rcases safe.committed committed with isGenesis | ⟨anchored, _⟩
      · exact .inl (by rw [isGenesis, isGenesis'])
      · have below := safe.qc_below anchored
        rw [isGenesis'] at ordered
        exact absurd (below.trans_le ordered) (Nat.not_lt_zero _)
    · rcases ChainVotes.extends_head head correct cast certified parent parentRound consecutive
        b'.digest b'.round head' ordered with same | descends
      · exact .inl same.symm
      · exact .inr (safe.ancestor_of_descends descends)

end System.Safe

/-- Agreement: any two blocks that honest nodes commit are equal or one extends the other.
Only honest members take turns, so what any node recorded is what an honest one did. -/
theorem agreement (collisionFree : CollisionFree) (system : System)
    (few : 3 * system.faultyStake < system.setup.committee.totalVotes)
    (small : 2 * system.setup.committee.totalVotes < 2 ^ 32) (nodes : PublicKey → Node)
    (reachable : system.machine.Reachable nodes) (first second : PublicKey) (b b' : Block)
    (committed : .committed b ∈ (nodes first).core.history)
    (committed' : .committed b' ∈ (nodes second).core.history) :
    b.digest = b'.digest ∨ Ancestor b.digest b'.digest ∨ Ancestor b'.digest b.digest := by
  have safe : System.Safe system nodes := ⟨collisionFree, few, small, reachable⟩
  rcases Nat.le_total b.round b'.round with ordered | ordered
  · exact (safe.committed_line committed committed' ordered).imp_right .inl
  · rcases safe.committed_line committed' committed ordered with same | descends
    · exact .inl same.symm
    · exact .inr (.inr descends)

/-- The digests of the heads that the core committed. -/
def Core.commitDigests (core : Core) : List Digest :=
  core.history.filterMap fun action => match action with
    | .committed block => some block.digest
    | _ => none

/-- A digest among the committed ones belongs to a committed block. -/
theorem Core.mem_commitDigests {core : Core} {digest : Digest}
    (inside : digest ∈ core.commitDigests) :
    ∃ block, .committed block ∈ core.history ∧ block.digest = digest := by
  obtain ⟨action, recorded, isDigest⟩ := List.mem_filterMap.mp inside
  cases action with
  | committed block => exact ⟨block, recorded, Option.some.inj isDigest⟩
  | _ => cases isDigest

end

namespace Plain

def firstBlock : Block := propose .genesis none 1 1
def secondBlock : Block := propose (certify firstBlock) none 2 2
def thirdBlock : Block := propose (certify secondBlock) none 3 3

/-- Two honest members vote for the first two blocks, and the third block commits the first. -/
def commitRun : List (Nat × Event) := [
  (1, .proposer []), (1, .loopback),
  (2, .message (.propose firstBlock)),
  (2, .message (.vote (voteFor firstBlock 1))), (2, .message (.vote (voteFor firstBlock 3))),
  (2, .proposer []), (2, .proposer []),
  (1, .message (.propose secondBlock)), (2, .message (.propose secondBlock)),
  (1, .message (.propose thirdBlock)), (2, .message (.propose thirdBlock))]

/-- Both honest members that see the third block commit genesis and the first block. -/
theorem commitRun_commits :
    ((four.machine.execute four.machine.initial commitRun).map fun nodes =>
      ((nodes (1 : Nat)).core.commitDigests, (nodes (2 : Nat)).core.commitDigests)) =
    some ([Block.genesis.digest, firstBlock.digest], [Block.genesis.digest, firstBlock.digest]) := by
  decide +kernel

/-- In that run the two committed blocks are on one chain. -/
theorem agreement_commitRun : Block.genesis.digest = firstBlock.digest ∨
    Ancestor Block.genesis.digest firstBlock.digest ∨
    Ancestor firstBlock.digest Block.genesis.digest := by
  obtain ⟨nodes, executed, observed⟩ := Option.map_eq_some_iff.mp commitRun_commits
  obtain ⟨atOne, atTwo⟩ := Prod.mk.inj observed
  have genesisAtOne : Block.genesis.digest ∈ (nodes (1 : Nat)).core.commitDigests := by
    rw [atOne]
    exact List.mem_cons_self ..
  have firstAtTwo : firstBlock.digest ∈ (nodes (2 : Nat)).core.commitDigests := by
    rw [atTwo]
    exact List.mem_cons_of_mem _ (List.mem_cons_self ..)
  obtain ⟨b, committed, isGenesis⟩ := Core.mem_commitDigests genesisAtOne
  obtain ⟨b', committed', isFirst⟩ := Core.mem_commitDigests firstAtTwo
  rw [← isGenesis, ← isFirst]
  exact agreement collisionFree four (by decide) (by decide) nodes
    (Machine.Reachable.execute executed) (1 : Nat) (2 : Nat) b b' committed committed'

end Plain

end DeflHotstuff
