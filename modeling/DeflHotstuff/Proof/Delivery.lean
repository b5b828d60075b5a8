import DeflHotstuff.Proof.Agreement
import DeflHotstuff.Proof.Lineage

namespace DeflHotstuff

open Verification

section

variable [Crypto]

namespace Core

/-- The block that the core committed last, which it delivers after its ancestors. -/
def lastCommitted (core : Core) : Block := core.txCommit.getLast?.getD .genesis

/-- The digests delivered so far, in order. -/
def delivered (core : Core) : List Digest := core.txCommit.map Block.digest

/-- The chain of the block has a block of the round after the last committed one. -/
def Connects (core : Core) (b0 : Block) : Prop :=
  core.lastCommittedRound = 0 ∨
    ∃ block : Block, block.round = core.lastCommittedRound + 1 ∧ OnChain b0 block.digest

/-- The condition on a commit reads the delivery part of the core only. -/
theorem connects_reads : ReadsDelivery Connects := by
  intro core later b0 _ lastCommittedRound _ connects
  unfold Connects
  rw [lastCommittedRound]
  exact connects

/-- Genesis apart, the chain of the last committed block is delivered, and nothing twice. -/
structure DeliversOnce (core : Core) : Prop where
  head : core.lastCommitted = .genesis ∨ .committed core.lastCommitted ∈ core.history
  round : core.lastCommitted.round = core.lastCommittedRound
  chain : ∀ digest, digest ≠ Block.genesis.digest →
    (digest ∈ core.delivered ↔ OnChain core.lastCommitted digest)
  distinct : (core.delivered.filter fun digest => digest ≠ Block.genesis.digest).Nodup

end Core

namespace System.Safe

variable {system : System} {nodes : PublicKey → Node} (safe : System.Safe system nodes)

include safe

/-- A committed head is genesis or anchored. -/
theorem head_reached {name : PublicKey} {head : Block}
    (isHead : head = .genesis ∨ .committed head ∈ (nodes name).core.history) :
    head = .genesis ∨ system.Anchored nodes name head := by
  rcases isHead with isGenesis | committed
  · exact .inl isGenesis
  · exact (safe.committed committed).imp_right And.left

/-- Blocks on the chain of a reached block are from no later round. -/
theorem onChain_round {name : PublicKey} {head block : Block}
    (reached : head = .genesis ∨ system.Anchored nodes name head)
    (onChain : OnChain head block.digest) : block.round ≤ head.round := by
  rcases onChain with same | descends
  · exact (safe.collisionFree.block_digest same).2.1.le
  · rcases reached with rfl | anchored
    · have same := safe.collisionFree.ancestor_genesis descends
      exact (safe.collisionFree.block_digest same).2.1.le
    · exact (safe.below_anchored anchored descends).le

/-- Nothing but genesis is below genesis or below a certified block of the first round. -/
theorem below_first {name : PublicKey} {block : Block} {digest : Digest}
    (reached : block = .genesis ∨ system.Anchored nodes name block) (first : block.round ≤ 1)
    (descends : Ancestor digest block.digest) : digest = Block.genesis.digest := by
  rcases reached with rfl | anchored
  · exact safe.collisionFree.ancestor_genesis descends
  · have below := safe.qc_below anchored
    have onGenesis := safe.parent_genesis anchored.trusted (by omega)
    rw [safe.collisionFree.ancestor_iff, onGenesis] at descends
    exact descends.elim id safe.collisionFree.ancestor_genesis

/-- A reached block of round zero is genesis. -/
theorem round_zero {name : PublicKey} {block : Block}
    (reached : block = .genesis ∨ system.Anchored nodes name block) (zero : block.round = 0) :
    block = .genesis := by
  apply reached.resolve_right
  intro anchored
  have below := safe.qc_below anchored
  omega

/-- A walk to a connected block over a committed one ends in a block of the next round. -/
theorem walk_next {name : PublicKey} {bound : Nat} {b0 last block : Block} {blocks : List Block}
    (walked : Walked system nodes name bound b0 blocks last) (next : block.round = bound)
    (positive : 0 < bound) (onChain : OnChain b0 block.digest) :
    system.Anchored nodes name last ∧ last.round = bound := by
  rcases (walked.chain _).mp onChain with visited | descends
  · obtain ⟨other, inside, same⟩ := List.mem_map.mp visited
    have sameRound := (safe.collisionFree.block_digest same).2.1
    rcases walked.high other inside with rfl | beyond
    · refine ⟨walked.reached.resolve_left ?_, by omega⟩
      rintro rfl
      have zero : Block.genesis.round = 0 := rfl
      omega
    · omega
  · exfalso
    rcases walked.reached with rfl | anchored
    · have same := safe.collisionFree.ancestor_genesis descends
      have zero : block.round = 0 := (safe.collisionFree.block_digest same).2.1
      omega
    · have below := safe.below_anchored anchored descends
      have low := walked.low
      omega

/-- The parent of the block in the round after a committed one is the committed block. -/
theorem walk_parent {name : PublicKey} {b0 last head : Block} {blocks : List Block}
    (walked : Walked system nodes name (head.round + 1) b0 blocks last)
    (anchored : system.Anchored nodes name last) (isNext : last.round = head.round + 1)
    (notGenesis : head.digest ≠ Block.genesis.digest) (extended : Ancestor head.digest b0.digest) :
    head.digest = last.parentDigest := by
  have descends : Ancestor head.digest last.digest := by
    apply ((walked.chain _).mp (.inr extended)).resolve_left
    intro visited
    obtain ⟨other, inside, same⟩ := List.mem_map.mp visited
    have sameRound := (safe.collisionFree.block_digest same).2.1
    rcases walked.high other inside with rfl | beyond
    · omega
    · omega
  apply (safe.collisionFree.ancestor_iff.mp descends).resolve_right
  intro further
  have below := safe.below_parent anchored notGenesis further
  have above := safe.qc_below anchored
  omega

/-- A walk to a connected block ends in genesis or in the child of the last committed block. -/
theorem walk_ends {name : PublicKey} {core : Core} (once : core.DeliversOnce)
    (keeps : Core.Keeps core (nodes name).core) {b0 last : Block} {blocks : List Block}
    (committed : .committed b0 ∈ (nodes name).core.history)
    (above : core.lastCommittedRound < b0.round) (connects : core.Connects b0)
    (walked : Walked system nodes name (core.lastCommittedRound + 1) b0 blocks last) :
    (last = .genesis ∨ core.lastCommittedRound < last.round) ∧
      ∀ digest, digest ≠ Block.genesis.digest →
        (Ancestor digest last.digest ↔ OnChain core.lastCommitted digest) := by
  have isHead := once.head.imp_right (keeps.history _)
  have reached := safe.head_reached isHead
  have isRound := once.round
  by_cases first : core.lastCommittedRound = 0
  · have isGenesis := safe.round_zero reached (by omega)
    refine ⟨?_, fun digest notGenesis => ⟨fun descends => ?_, fun onChain => ?_⟩⟩
    · rw [first]
      apply walked.reached.imp_right
      intro anchored
      exact (Nat.zero_le _).trans_lt (safe.qc_below anchored)
    · refine absurd (safe.below_first walked.reached ?_ descends) notGenesis
      have low := walked.low
      omega
    · rw [isGenesis] at onChain
      exact absurd (onChain.elim id safe.collisionFree.ancestor_genesis) notGenesis
  · obtain ⟨block, next, onChain⟩ := connects.resolve_left first
    obtain ⟨anchored, isNext⟩ := safe.walk_next walked next (by omega) onChain
    have notGenesis : core.lastCommitted.digest ≠ Block.genesis.digest := by
      intro same
      have zero : core.lastCommitted.round = 0 := (safe.collisionFree.block_digest same).2.1
      omega
    have extended : Ancestor core.lastCommitted.digest b0.digest := by
      have isCommitted := isHead.resolve_left fun isGenesis => notGenesis (by rw [isGenesis])
      apply (safe.committed_line isCommitted committed (by omega)).resolve_left
      intro same
      have sameRound := (safe.collisionFree.block_digest same).2.1
      omega
    rw [← isRound] at walked isNext
    have isParent := safe.walk_parent walked anchored isNext notGenesis extended
    refine ⟨.inr (by omega), fun digest _ => ?_⟩
    rw [safe.collisionFree.ancestor_iff, ← isParent]
    rfl

/-- A commit of a connected block delivers its chain once more than before. -/
theorem commit_once {name : PublicKey} {core after : Core} (once : core.DeliversOnce)
    (stocked : core.Stocked) (keeps : Core.Keeps core (nodes name).core) {b0 : Block}
    {ancestors : List Block} (committed : .committed b0 ∈ after.history)
    (same : ∀ action ∈ after.history, action ∈ (nodes name).core.history)
    (above : core.lastCommittedRound < b0.round) (connects : core.Connects b0)
    (collects : Collects system.setup core.store core.lastCommittedRound b0 ancestors)
    (round : after.lastCommittedRound = b0.round)
    (delivers : after.txCommit = core.txCommit ++ (ancestors ++ [b0])) : after.DeliversOnce := by
  have reached := safe.head_reached (.inr (same _ committed))
  obtain ⟨last, walked⟩ := safe.walked stocked keeps collects reached
  obtain ⟨ends, below⟩ := safe.walk_ends once keeps (same _ committed) above connects walked
  have isLast : after.lastCommitted = b0 := by
    unfold Core.lastCommitted
    rw [delivers]
    simp
  have digests : after.delivered =
      core.delivered ++ (ancestors ++ [b0]).map Block.digest := by
    unfold Core.delivered
    rw [delivers, List.map_append]
  have rearranged : (ancestors ++ [b0]).Perm (b0 :: ancestors) := List.perm_append_singleton b0 _
  constructor
  · rw [isLast]
    exact .inr committed
  · rw [isLast, round]
  · intro digest notGenesis
    rw [isLast, digests, List.mem_append, walked.chain, once.chain digest notGenesis,
      below digest notGenesis, (rearranged.map Block.digest).mem_iff, or_comm]
  · have distinct := safe.collisionFree.distinct_of_rounds
      (walked.descending.imp fun below => below.ne')
    rw [digests, List.filter_append, List.nodup_append]
    refine ⟨once.distinct, ((rearranged.map Block.digest).nodup_iff.mpr distinct).filter _, ?_⟩
    rintro digest old _ new rfl
    obtain ⟨delivered, notGenesis⟩ := List.mem_filter.mp old
    have notGenesis := of_decide_eq_true notGenesis
    obtain ⟨other, visited, rfl⟩ := List.mem_map.mp (List.mem_filter.mp new).1
    have onChain := (once.chain _ notGenesis).mp delivered
    have low := safe.onChain_round (safe.head_reached (once.head.imp_right (keeps.history _))) onChain
    have isRound := once.round
    rcases walked.high other (rearranged.mem_iff.mp visited) with rfl | high
    · rcases ends with rfl | high
      · exact notGenesis rfl
      · omega
    · omega

end System.Safe

/-- A step whose commit connects to the last one delivers nothing twice. The step belongs to a
turn that ends in the given state of the system. -/
theorem Core.Step.deliversOnce {system : System} {nodes : PublicKey → Node} {name : PublicKey}
    {around : Surroundings} {core after : Core}
    (step : Core.Step system.setup name around core after) (safe : System.Safe system nodes)
    (stocked : core.Stocked) (keeps : Core.Keeps after (nodes name).core)
    (once : core.DeliversOnce)
    (connects : ∀ core b0, around.commits core b0 → core.Connects b0) : after.DeliversOnce := by
  obtain ⟨txCommit, round⟩ |
    ⟨b0, ancestors, decided, commits, above, collects, round, delivers⟩ := step.commit_cases
  · have same : after.lastCommitted = core.lastCommitted := by
      unfold Core.lastCommitted
      rw [txCommit]
    have digests : after.delivered = core.delivered := by
      unfold Core.delivered
      rw [txCommit]
    refine ⟨?_, ?_, ?_, ?_⟩
    · rw [same]
      exact once.head.imp_right step.history_subset
    · rw [same, round]
      exact once.round
    · rw [same, digests]
      exact once.chain
    · rw [digests]
      exact once.distinct
  · exact safe.commit_once once stocked (step.keeps.trans keeps) (step.history_subset decided)
      keeps.history above (connects core b0 commits) collects round delivers

/-- A panic or an endless loop delivers nothing. -/
theorem Core.Fault.deliversOnce {setup : Setup} {core after : Core}
    (fault : Core.Fault setup core after) (once : core.DeliversOnce) : after.DeliversOnce := by
  cases fault <;> exact ⟨once.head, once.round, once.chain, once.distinct⟩

/-- At boot nothing is delivered. -/
theorem Core.boot_deliversOnce (collisionFree : CollisionFree) {setup : Setup} {name : PublicKey} :
    (Core.boot setup name).DeliversOnce := by
  have books := Core.proposeAsLeader_books setup name .new none
  have empty : (Core.boot setup name).txCommit = [] := books.txCommit
  have isRound : (Core.boot setup name).lastCommittedRound = 0 := books.lastCommittedRound
  have isGenesis : (Core.boot setup name).lastCommitted = .genesis := by
    unfold Core.lastCommitted
    rw [empty]
    rfl
  have nothing : (Core.boot setup name).delivered = [] := by
    unfold Core.delivered
    rw [empty]
    rfl
  refine ⟨.inl isGenesis, by rw [isGenesis, isRound]; rfl, fun digest notGenesis => ?_, ?_⟩
  · rw [nothing, isGenesis]
    refine ⟨fun inside => (nomatch inside), fun onChain => ?_⟩
    exact absurd (onChain.elim id collisionFree.ancestor_genesis) notGenesis
  · rw [nothing]
    exact List.nodup_nil

/-- A turn whose commit connects to the last one delivers nothing twice. -/
theorem System.Turned.deliversOnce {system : System} {nodes after : PublicKey → Node}
    {turn : PublicKey × Event} (turned : System.Turned system nodes turn after)
    (safe : System.Safe system nodes) (safeAfter : System.Safe system after)
    (meets : (nodes turn.1).CommitsMeet system.setup Core.Connects turn.2)
    (once : (nodes turn.1).core.DeliversOnce) : (after turn.1).core.DeliversOnce := by
  have sound := Node.reachable_sound (reachable_node safe.reachable turn.1)
  have preserved := (Node.step_turn turned.steps).core_preserve
    (fun core => core.Regular system.setup turn.1 ∧
      (core.Keeps (after turn.1).core → core.DeliversOnce))
    sound (meets.permits Core.connects_reads) ⟨safe.regular turn.1, fun _ => once⟩
    (fun _ _ step holds => ⟨step.regular holds.1, fun keeps =>
      step.deliversOnce safeAfter holds.1.stocked keeps (holds.2 (step.keeps.trans keeps))
        fun _ _ => id⟩)
    fun _ _ fault holds => ⟨fault.regular holds.1, fun keeps =>
      fault.deliversOnce (holds.2 (fault.keeps.trans keeps))⟩
  exact preserved.2 (Core.Keeps.refl _)

/-- While each commit over a committed block has a block of the next round on its chain, every
block on the chain of the last committed one but genesis is delivered once, and no other is. -/
theorem delivered_once (collisionFree : CollisionFree) (system : System)
    (few : 3 * system.faultyStake < system.setup.committee.totalVotes)
    (small : 2 * system.setup.committee.totalVotes < 2 ^ 32)
    (turns : List (PublicKey × Event)) (nodes : PublicKey → Node)
    (run : system.machine.Run (fun nodes turn =>
      (nodes turn.1).CommitsMeet system.setup Core.Connects turn.2) turns nodes)
    (name : PublicKey) (digest : Digest) (notGenesis : digest ≠ Block.genesis.digest) :
    (OnChain (nodes name).core.lastCommitted digest →
      (nodes name).core.delivered.count digest = 1) ∧
      (¬ OnChain (nodes name).core.lastCommitted digest →
        digest ∉ (nodes name).core.delivered) := by
  have once := run.invariant (fun nodes => ∀ name, (nodes name).core.DeliversOnce)
    (fun name => Core.boot_deliversOnce collisionFree) ?_ name
  · refine ⟨fun onChain => ?_, fun offChain inside => ?_⟩
    · have inside := (once.chain digest notGenesis).mpr onChain
      have isOther : decide (digest ≠ Block.genesis.digest) = true := decide_eq_true notGenesis
      rw [← List.count_filter (p := fun digest => decide (digest ≠ Block.genesis.digest)) isOther]
      exact List.count_eq_one_of_mem once.distinct (List.mem_filter.mpr ⟨inside, isOther⟩)
    · exact offChain ((once.chain digest notGenesis).mp inside)
  · intro nodes turn after reachable meets once steps name
    have turned := System.step_turned steps
    by_cases same : name = turn.1
    · subst same
      exact turned.deliversOnce ⟨collisionFree, few, small, reachable⟩
        ⟨collisionFree, few, small, reachable.next steps⟩ meets (once turn.1)
    · rw [turned.others name same]
      exact once name

end

namespace Plain

/-- Every commit over a committed block is of the next round. -/
def commitsNext (core : Core) (b0 : Block) : Bool :=
  decide (core.lastCommittedRound = 0 ∨ b0.round = core.lastCommittedRound + 1)

/-- The computed check of a commit says that it connects. -/
theorem commitsNext_sound (core : Core) (b0 : Block) (next : commitsNext core b0 = true) :
    core.Connects b0 :=
  (of_decide_eq_true next).imp_right fun isNext => ⟨b0, isNext, .inl rfl⟩

/-- The second leader delivers the block that it commits. -/
theorem delivered_once_commitRun : ∃ nodes : Nat → Node,
    four.machine.execute four.machine.initial commitRun = some nodes ∧
      (nodes 2).core.lastCommitted.digest = firstBlock.digest ∧
      (nodes 2).core.delivered.count firstBlock.digest = 1 := by
  have taken : (four.machine.execute four.machine.initial commitRun).map (fun nodes =>
      decide ((nodes (2 : Nat)).core.lastCommitted.digest = firstBlock.digest)) = some true := by
    decide +kernel
  obtain ⟨nodes, executed, observed⟩ := Option.map_eq_some_iff.mp taken
  have isFirst := of_decide_eq_true observed
  have passes : four.machine.Run (fun nodes turn =>
      (nodes turn.1).commitsPass four.setup commitsNext turn.2 = true) commitRun nodes :=
    .of_execute (by decide +kernel) executed
  have run := passes.weaken fun _ _ => Node.commitsMeet_of_pass commitsNext_sound
  have once := delivered_once collisionFree four (by decide) (by decide) commitRun nodes run
    (2 : Nat) firstBlock.digest (by decide)
  exact ⟨nodes, executed, isFirst, once.1 (.inl isFirst.symm)⟩

def fifthBlock : Block := propose (certify firstBlock) (some (expire 4 1)) 1 5

def sixthBlock : Block :=
  Block.new (certify fifthBlock) none (2 : Nat) 6 [hash (.batch [7])] (sign (2 : Nat))

def seventhBlock : Block :=
  Block.new (certify sixthBlock) none (3 : Nat) 7 [hash (.batch [7])] (sign (3 : Nat))

/-- The member with key zero commits the first block on the third one. The other members miss the
third block, and after the timeouts of three rounds the fifth block extends the first one. -/
def skipRun : List (Nat × Event) := [
  (1, .proposer []), (1, .loopback),
  (2, .message (.propose firstBlock)),
  (2, .message (.vote (voteFor firstBlock 1))), (2, .message (.vote (voteFor firstBlock 3))),
  (2, .proposer []), (2, .proposer []), (2, .loopback),
  (1, .message (.propose secondBlock)),
  (0, .message (.propose firstBlock)), (0, .message (.propose secondBlock)),
  (0, .message (.propose thirdBlock)),
  (1, .timer), (2, .timer), (1, .message (.tc (expire 2 1))), (2, .message (.tc (expire 2 1))),
  (1, .timer), (2, .timer), (1, .message (.tc (expire 3 1))), (2, .message (.tc (expire 3 1))),
  (1, .timer), (2, .timer), (1, .message (.tc (expire 4 1))),
  (1, .proposer []), (1, .proposer []), (1, .proposer []), (1, .loopback),
  (2, .message (.propose fifthBlock)), (2, .batch [7]), (2, .digest 0),
  (2, .message (.vote (voteFor fifthBlock 1))), (2, .message (.vote (voteFor fifthBlock 3))),
  (2, .proposer []), (2, .proposer []), (2, .proposer [hash (.batch [7])]), (2, .loopback),
  (1, .batch [7]), (1, .message (.propose sixthBlock)),
  (0, .batch [7]), (0, .message (.propose fifthBlock)), (0, .message (.propose sixthBlock)),
  (0, .message (.propose seventhBlock))]

/-- The walk to the fifth block delivers the first block again. -/
theorem delivered_once_fails : 3 * four.faultyStake < four.setup.committee.totalVotes ∧
    ∃ nodes, four.machine.Reachable nodes ∧ ∃ digest, digest ≠ Block.genesis.digest ∧
      OnChain (nodes (0 : Nat)).core.lastCommitted digest ∧
      (nodes (0 : Nat)).core.delivered.count digest = 2 := by
  have taken : (four.machine.execute four.machine.initial skipRun).map (fun nodes =>
      decide ((nodes (0 : Nat)).core.lastCommitted.digest = fifthBlock.digest ∧
        (nodes (0 : Nat)).core.delivered.count firstBlock.digest = 2)) = some true := by
    decide +kernel
  obtain ⟨nodes, executed, observed⟩ := Option.map_eq_some_iff.mp taken
  obtain ⟨isFifth, twice⟩ := of_decide_eq_true observed
  refine ⟨by decide, nodes, .execute executed, firstBlock.digest, by decide, ?_, twice⟩
  unfold OnChain
  rw [isFifth]
  exact .inr (.single ⟨fifthBlock, rfl, if_neg (by decide)⟩)

end Plain

end DeflHotstuff
