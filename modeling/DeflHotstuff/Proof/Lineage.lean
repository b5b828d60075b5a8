import DeflHotstuff.Proof.Commits
import DeflHotstuff.Proof.Votes

namespace DeflHotstuff

open Verification

variable [Crypto]

/-- The digest is the block's own or that of a proper ancestor. -/
def OnChain (block : Block) (digest : Digest) : Prop :=
  digest = block.digest ∨ Ancestor digest block.digest

/-- The proper ancestors of a block are its parent and the proper ancestors of its parent. -/
theorem CollisionFree.ancestor_iff (collisionFree : CollisionFree) {digest : Digest}
    {block : Block} : Ancestor digest block.digest ↔
      digest = block.parentDigest ∨ Ancestor digest block.parentDigest := by
  constructor
  · exact collisionFree.ancestor_parent
  · have link : Parent block.parentDigest block.digest := ⟨block, rfl, rfl⟩
    rintro (rfl | descends)
    · exact .single link
    · exact .tail descends link

/-- What the loop of `commit` visits from a block down to the last one, above which every block
is beyond the bound. -/
structure System.Walked (system : System) (nodes : PublicKey → Node) (name : PublicKey)
    (bound : Nat) (block : Block) (blocks : List Block) (last : Block) : Prop where
  inside : last ∈ blocks
  reached : last = .genesis ∨ system.Anchored nodes name last
  low : last.round ≤ bound
  high : ∀ visited ∈ blocks, visited = last ∨ bound < visited.round
  descending : blocks.Pairwise fun child ancestor => ancestor.round < child.round
  chain : ∀ digest, OnChain block digest ↔
    digest ∈ blocks.map Block.digest ∨ Ancestor digest last.digest

namespace System.Safe

variable {system : System} {nodes : PublicKey → Node} (safe : System.Safe system nodes)

include safe

/-- The parent of a checked block is genesis or a block that an honest member voted for. -/
theorem parent_voted {name : PublicKey} {block : Block}
    (trusted : (nodes name).core.Trusted block) : block.parentDigest = Block.genesis.digest ∨
      ∃ voter parent, system.honest voter = true ∧ .voted parent ∈ (nodes voter).core.history ∧
        parent.digest = block.parentDigest ∧ parent.round = block.qc.round := by
  rcases safe.voters ((safe.regular name).backed trusted) with
    isGenesis | ⟨voters, isQuorum, voted⟩
  · exact .inl (if_pos (QC.beq_iff.mp isGenesis).1)
  · obtain ⟨voter, parent, honest, isVoted, isHash, isRound⟩ := safe.voter isQuorum voted
    have isParent : block.parentDigest = block.qc.hash := safe.parentDigest isQuorum voted
    exact .inr ⟨voter, parent, honest, isVoted, isHash.trans isParent.symm, isRound⟩

/-- A proper ancestor of a block that an honest member voted for is from an earlier round. -/
theorem below_voted {ancestor : Block} (round : Nat) : ∀ voter block,
    .voted block ∈ (nodes voter).core.history → block.round = round →
      Ancestor ancestor.digest block.digest → ancestor.round < round := by
  induction round using Nat.strong_induction_on with
  | _ round ih =>
      rintro voter block voted rfl descends
      obtain ⟨_, _, increasing, _, trusted⟩ := (safe.regular voter).disciplined.voted block voted
      have ofGenesis (same : ancestor.digest = Block.genesis.digest) :
          ancestor.round < block.round := by
        have isRound : ancestor.round = 0 := (safe.collisionFree.block_digest same).2.1
        omega
      rcases safe.parent_voted trusted with
        onGenesis | ⟨other, parent, _, isVoted, isParent, isRound⟩
      · apply ofGenesis
        rcases safe.collisionFree.ancestor_iff.mp descends with same | further
        · exact same.trans onGenesis
        · rw [onGenesis] at further
          exact safe.collisionFree.ancestor_genesis further
      · rcases safe.collisionFree.ancestor_iff.mp descends with same | further
        · have sameRound := (safe.collisionFree.block_digest (same.trans isParent.symm)).2.1
          omega
        · rw [← isParent] at further
          have below := ih parent.round (by omega) other parent isVoted rfl further
          omega

/-- A proper ancestor of a certified block is from an earlier round. -/
theorem below_anchored {name : PublicKey} {block ancestor : Block}
    (anchored : system.Anchored nodes name block)
    (descends : Ancestor ancestor.digest block.digest) : ancestor.round < block.round := by
  obtain ⟨voters, isQuorum, voted⟩ := anchored.certified
  obtain ⟨voter, vote, _, isVoted, isHash, isRound⟩ := safe.voter isQuorum voted
  rw [← isHash] at descends
  exact safe.below_voted block.round voter vote isVoted isRound descends

/-- A proper ancestor of the parent of a certified block is from a round before its QC. -/
theorem below_parent {name : PublicKey} {block ancestor : Block}
    (anchored : system.Anchored nodes name block)
    (notGenesis : ancestor.digest ≠ Block.genesis.digest)
    (descends : Ancestor ancestor.digest block.parentDigest) : ancestor.round < block.qc.round := by
  rcases safe.parent_voted anchored.trusted with
    onGenesis | ⟨voter, parent, _, isVoted, isParent, isRound⟩
  · rw [onGenesis] at descends
    exact absurd (safe.collisionFree.ancestor_genesis descends) notGenesis
  · rw [← isParent] at descends
    exact safe.below_voted block.qc.round voter parent isVoted isRound descends

/-- The QC of round zero certifies genesis. -/
theorem parent_genesis {name : PublicKey} {block : Block}
    (trusted : (nodes name).core.Trusted block) (first : block.qc.round = 0) :
    block.parentDigest = Block.genesis.digest := by
  apply (safe.parent_voted trusted).resolve_right
  rintro ⟨voter, parent, _, voted, _, isRound⟩
  have increasing := ((safe.regular voter).disciplined.voted parent voted).2.2.1
  omega

/-- The loop of `commit` visits the chain of its block. -/
theorem walked {name : PublicKey} {core : Core} (stocked : core.Stocked)
    (keeps : Core.Keeps core (nodes name).core) {lastCommittedRound : Nat} {block : Block}
    {ancestors : List Block}
    (collects : Collects system.setup core.store lastCommittedRound block ancestors)
    (reached : block = .genesis ∨ system.Anchored nodes name block) :
    ∃ last, Walked system nodes name (lastCommittedRound + 1) block (block :: ancestors) last := by
  induction collects with
  | stop low =>
      rename_i block
      refine ⟨block, List.mem_cons_self .., reached, Nat.not_lt.mp low, ?_, ?_, fun digest => ?_⟩
      · simp
      · simp
      · simp [OnChain]
  | more above found collects ih =>
      rename_i block parent rest
      have anchored := reached.resolve_left (by rintro rfl; cases above)
      have isParent := (stocked.parentOf found).mono keeps
      obtain ⟨⟨digest, round⟩, next⟩ := safe.parent anchored.trusted isParent
      obtain ⟨last, walked⟩ := ih (next.imp_right And.right)
      have below := safe.qc_below anchored
      refine ⟨last, List.mem_cons_of_mem _ walked.inside, walked.reached, walked.low, ?_, ?_, ?_⟩
      · exact List.forall_mem_cons.mpr ⟨.inr above, walked.high⟩
      · refine List.pairwise_cons.mpr ⟨?_, walked.descending⟩
        have lower := (List.pairwise_cons.mp walked.descending).1
        refine List.forall_mem_cons.mpr ⟨by omega, fun visited inside => ?_⟩
        have := lower visited inside
        omega
      · intro other
        unfold OnChain
        rw [safe.collisionFree.ancestor_iff, ← digest]
        have onParent := walked.chain other
        unfold OnChain at onParent
        rw [onParent]
        simp only [List.map_cons, List.mem_cons, or_assoc]

end System.Safe

end DeflHotstuff
