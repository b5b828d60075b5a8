import DeflHotstuff.Proof.Storage
import Mathlib.Data.List.Nodup

namespace DeflHotstuff

open Verification

variable [Crypto] {setup : Setup} {name : PublicKey}

namespace Core

/-- The store, the suspended blocks and the last committed round are as they were. -/
structure SameLedger (core after : Core) : Prop where
  store : after.store = core.store
  innerChannel : after.innerChannel = core.innerChannel
  lastCommittedRound : after.lastCommittedRound = core.lastCommittedRound

instance : Std.Refl SameLedger := ⟨fun _ => ⟨rfl, rfl, rfl⟩⟩

instance : IsTrans Core SameLedger := ⟨fun _ _ _ first second =>
  ⟨second.store.trans first.store, second.innerChannel.trans first.innerChannel,
    second.lastCommittedRound.trans first.lastCommittedRound⟩⟩

/-- Equal books are an equal ledger. -/
theorem SameBooks.ledger {core after : Core} (books : SameBooks core after) :
    SameLedger core after := ⟨books.store, books.innerChannel, books.lastCommittedRound⟩

/-- A block is suspended only when its QC is not the one of genesis. -/
def SuspendsOrphans (core after : Core) : Prop :=
  ∀ block ∈ after.innerChannel, block ∈ core.innerChannel ∨ (block.qc == QC.genesis) = false

instance : Std.Refl SuspendsOrphans := ⟨fun _ _ => .inl⟩

instance : IsTrans Core SuspendsOrphans := ⟨fun _ _ _ first second block inside =>
  (second block inside).elim (first block) .inr⟩

/-- A search leaves the store alone and suspends only blocks with a parent. -/
structure Searches (core after : Core) : Prop where
  store : after.store = core.store
  suspends : core.SuspendsOrphans after

instance : Std.Refl Searches := ⟨fun _ => ⟨rfl, fun _ => .inl⟩⟩

instance : IsTrans Core Searches := ⟨fun core middle after first second =>
  ⟨second.store.trans first.store, IsTrans.trans core middle after first.suspends second.suspends⟩⟩

/-- To leave the ledger alone is a search. -/
theorem SameLedger.searches {core after : Core} (same : SameLedger core after) :
    Searches core after :=
  ⟨same.store, fun _ inside => .inl (same.innerChannel ▸ inside)⟩

variable (setup name) [Rounds]

/-- A vote leaves the ledger alone. -/
theorem handleVote_ledger (vote : Vote) : (handleVote setup name vote).Frames SameLedger := by
  unfold handleVote
  refine .bind .read fun core => ?_
  split
  · exact .return ()
  · refine .bind (.check _) fun _ => .bind ?_ fun found => ?_
    · exact .bind .read fun core => .bind (.update fun _ => ⟨rfl, rfl, rfl⟩) fun _ => .check _
    · cases found with
      | none => exact .return ()
      | some qc =>
          refine .bind (.update fun core => ?_) fun _ => .update fun core => ?_
          · exact ((record_books ..).trans (processQc_books ..)).ledger
          · exact (proposeAsLeader_books ..).ledger

/-- A timeout leaves the ledger alone. -/
theorem handleTimeout_ledger (timeout : Timeout) :
    (handleTimeout setup name timeout).Frames SameLedger := by
  unfold handleTimeout
  refine .bind .read fun core => ?_
  split
  · exact .return ()
  · refine .bind (.check _) fun _ => .bind (.update fun core => ?_) fun _ => .bind ?_ fun found => ?_
    · exact (core.processQc_books timeout.highQc).ledger
    · exact .bind .read fun core => .bind (.update fun _ => ⟨rfl, rfl, rfl⟩) fun _ => .check _
    · cases found with
      | none => exact .return ()
      | some tc =>
          refine .bind (.update fun core => ?_) fun _ => .bind (.update fun core => ?_) fun _ =>
            .update fun core => ?_
          · exact ((record_books ..).trans (advanceRound_books ..)).ledger
          · exact (sendTo_books ..).ledger
          · exact (proposeAsLeader_books ..).ledger

/-- The timer leaves the ledger alone. -/
theorem localTimeoutRound_ledger : (localTimeoutRound setup name).Frames SameLedger := by
  unfold localTimeoutRound
  refine .bind (.update fun core => ⟨rfl, rfl, rfl⟩) fun _ => .bind .read fun core => ?_
  exact .bind (.update fun core => ⟨rfl, rfl, rfl⟩) fun _ => handleTimeout_ledger setup name _

/-- A TC leaves the ledger alone. -/
theorem handleTc_ledger (tc : TC) : (handleTc setup name tc).Frames SameLedger := by
  unfold handleTc
  exact .bind (.update fun core => (core.advanceRound_books tc.round).ledger) fun _ =>
    .update fun core => (proposeAsLeader_books ..).ledger

/-- The vote for a block leaves the ledger alone. -/
theorem makeVote_ledger (block : Block) : (makeVote setup name block).Frames SameLedger := by
  unfold makeVote
  refine .bind .read fun core => .bind ?_ fun rule2 => ?_
  · unfold safetyRule2
    cases block.tc with
    | none => exact .return _
    | some tc =>
        dsimp only
        cases tc.highQcRounds.max? with
        | none => exact .crash _
        | some highest => exact .return _
  · split
    · exact .bind (.update fun core => ⟨rfl, rfl, rfl⟩) fun _ => .return _
    · exact .return none

/-- Voting in the current round leaves the ledger alone. -/
theorem voteInRound_ledger (block : Block) :
    (voteInRound setup name block).Frames SameLedger := by
  unfold voteInRound
  refine .bind .read fun core => ?_
  split
  · exact .return ()
  · refine .bind (makeVote_ledger setup name block) fun found => ?_
    cases found with
    | none => exact .return ()
    | some vote =>
        refine .bind .read fun core => ?_
        dsimp only
        split
        · exact handleVote_ledger setup name vote
        · split
          · exact .crash _
          · exact .update fun core => ⟨rfl, rfl, rfl⟩

/-- Reading the parent searches the store. -/
theorem getParentBlock_searches (block : Block) :
    (getParentBlock setup block).Frames Searches := by
  intro core
  rw [getParentBlock_run]
  split
  · exact ⟨rfl, fun _ => .inl⟩
  · rename_i embedded
    split
    · split <;> exact ⟨rfl, fun _ => .inl⟩
    · refine ⟨rfl, fun other inside => ?_⟩
      rcases List.mem_append.mp inside with old | new
      · exact .inl old
      · cases List.mem_singleton.mp new
        exact .inr (Bool.eq_false_of_not_eq_true embedded)

/-- Reading the ancestors searches the store. -/
theorem getAncestors_searches (block : Block) : (getAncestors setup block).Frames Searches := by
  unfold getAncestors
  refine .bind (getParentBlock_searches setup block) fun found => ?_
  cases found with
  | none => exact .return none
  | some b1 =>
      refine .bind (getParentBlock_searches setup b1) fun found => ?_
      cases found with
      | none => exact .crash _
      | some b0 => exact .return _

/-- The walk over the ancestors searches the store. -/
theorem collectAncestors_searches (bound fuel : Nat) (parent : Block) (toCommit : List Block) :
    (collectAncestors setup bound fuel parent toCommit).Frames Searches := by
  induction fuel generalizing parent toCommit with
  | zero => exact .loop
  | succ fuel ih =>
      unfold collectAncestors
      split
      · refine .bind (getParentBlock_searches setup parent) fun found => ?_
        cases found with
        | none => exact .crash _
        | some ancestor => exact ih ancestor _
      · exact .return toCommit

/-- A commit searches the store. -/
theorem commitTwoChain_searches (b0 b1 : Block) :
    (commitTwoChain setup b0 b1).Frames Searches := by
  unfold commitTwoChain
  split
  · refine .bind (.update fun core => ⟨rfl, fun _ => .inl⟩) fun _ => ?_
    unfold commit
    refine .bind .read fun core => ?_
    split
    · exact .return ()
    · exact .bind (collectAncestors_searches setup _ _ b0 []) fun collected =>
        .update fun core => ⟨rfl, fun _ => .inl⟩
  · exact .return ()

/-- Whatever becomes of the block, a block that it leaves with the synchronizer has a parent. -/
theorem processBlock_suspends (block : Block) :
    (processBlock setup name block).Frames SuspendsOrphans := by
  unfold processBlock
  refine .bind ((getAncestors_searches setup block).weaken fun _ _ => Searches.suspends)
    fun found => ?_
  cases found with
  | none => exact .return ()
  | some pair =>
      refine .bind (.update fun core _ => .inl) fun _ => .bind ?_ fun _ => ?_
      · exact (commitTwoChain_searches setup pair.1 pair.2).weaken fun _ _ => Searches.suspends
      · exact (voteInRound_ledger setup name block).weaken fun _ _ same => same.searches.suspends

/-- No message suspends a block with the QC of genesis. -/
theorem handleMessage_suspends (message : ConsensusMessage) :
    (handleMessage setup name message).Frames SuspendsOrphans := by
  have ofLedger {task : CoreTask Unit} (frames : task.Frames SameLedger) :
      task.Frames SuspendsOrphans := frames.weaken fun _ _ same => same.searches.suspends
  cases message with
  | propose block =>
      refine .bind (.check _) fun _ => .bind (.check _) fun _ =>
        .bind (.update fun core => ?_) fun _ => .bind ?_ fun present => ?_
      · exact (accept_books core block).ledger.searches.suspends
      · refine .bind .read fun core => ?_
        dsimp only
        split
        · exact .return true
        · exact .bind (.update fun core _ => .inl) fun _ => .return false
      · split
        · exact processBlock_suspends setup name block
        · exact .return ()
  | vote vote => exact ofLedger (handleVote_ledger setup name vote)
  | timeout timeout => exact ofLedger (handleTimeout_ledger setup name timeout)
  | tc tc => exact ofLedger (handleTc_ledger setup name tc)
  | syncRequest missing origin => exact .crash _

end Core

namespace Synchronizer

/-- Every pending digest is the one of a waiting block and is listed once. -/
structure Tracked (synchronizer : Synchronizer) : Prop where
  distinct : synchronizer.pending.Nodup
  waits : ∀ digest ∈ synchronizer.pending, ∃ block ∈ synchronizer.waiting, block.digest = digest

/-- A received block is pending as it waits. -/
theorem Tracked.receive {synchronizer after : Synchronizer} {block : Block}
    (tracked : synchronizer.Tracked)
    (received : synchronizer.receive setup name block = some after) : after.Tracked := by
  obtain ⟨_, rfl⟩ | ⟨fresh, pending, waiting⟩ := receive_cases received
  · exact tracked
  · constructor
    · rw [pending]
      exact List.nodup_cons.mpr ⟨fresh, tracked.distinct⟩
    · rw [pending, waiting]
      intro digest inside
      rcases List.mem_cons.mp inside with rfl | old
      · exact ⟨block, by simp, rfl⟩
      · obtain ⟨copy, waits, same⟩ := tracked.waits digest old
        exact ⟨copy, List.mem_append_left _ waits, same⟩

/-- A completed future is pending no more. -/
theorem Tracked.ready {synchronizer after : Synchronizer} {store : Store} {index : Nat}
    {block : Block} (tracked : synchronizer.Tracked)
    (ready : synchronizer.ready store index = some (block, after)) : after.Tracked := by
  obtain ⟨_, _, pending, _⟩ := ready_cases ready
  constructor
  · rw [pending]
    exact tracked.distinct.erase _
  · rw [pending]
    intro digest inside
    obtain ⟨other, old⟩ := (tracked.distinct.mem_erase_iff).mp inside
    obtain ⟨copy, waits, same⟩ := tracked.waits digest old
    rcases ready_keeps ready waits with rfl | stays
    · exact absurd same.symm other
    · exact ⟨copy, stays, same⟩

end Synchronizer

/-- The blocks with the synchronizer have a parent that is not genesis. -/
structure Node.Tended (node : Node) : Prop where
  inner : ∀ block ∈ node.core.innerChannel, (block.qc == QC.genesis) = false
  waiting : ∀ block ∈ node.synchronizer.waiting, (block.qc == QC.genesis) = false
  synchronizer : node.synchronizer.Tracked

namespace Node

/-- No block waits at the boot. -/
theorem boot_tended : (boot setup name).Tended where
  inner block inside := by
    change block ∈ (Core.proposeAsLeader setup name none .new).innerChannel at inside
    rw [(Core.proposeAsLeader_books setup name .new none).innerChannel] at inside
    cases inside
  waiting _ inside := nomatch inside
  synchronizer := ⟨List.nodup_nil, fun _ inside => nomatch inside⟩

variable [Rounds]

/-- What a turn leaves in the inner channel is old or has a parent that is not genesis. -/
theorem Turn.orphans {node after : Node} {event : Event}
    (turn : Turn setup name node event after) : node.core.SuspendsOrphans after.core := by
  have runs {start : Node} {task : CoreTask Unit}
      (same : start.core.innerChannel = node.core.innerChannel)
      (frames : task.Frames Core.SuspendsOrphans) :
      node.core.SuspendsOrphans (start.runCore task).core := by
    rw [runCore_core]
    unfold Core.SuspendsOrphans
    rw [← same]
    exact frames start.core
  cases turn with
  | message message => exact runs rfl (Core.handleMessage_suspends setup name message)
  | loopback block rest => exact runs rfl (Core.processBlock_suspends setup name block)
  | timer =>
      exact runs rfl ((Core.localTimeoutRound_ledger setup name).weaken fun _ _ same =>
        same.searches.suspends)
  | parentMissing block rest synchronizer next =>
      intro other inside
      rw [next]
      exact .inl (List.mem_cons_of_mem _ inside)
  | _ => exact fun _ => .inl

/-- A turn hands the synchronizer only blocks with a parent. -/
theorem Turn.tended {node after : Node} {event : Event}
    (turn : Turn setup name node event after) (tended : node.Tended) : after.Tended := by
  constructor
  · intro block inside
    exact (turn.orphans block inside).elim (tended.inner block) id
  · intro block inside
    exact (turn.suspended inside).elim (tended.waiting block) (tended.inner block)
  · cases turn with
    | message message => simpa using tended.synchronizer
    | loopback block rest => simpa using tended.synchronizer
    | timer => simpa using tended.synchronizer
    | parentMissing block rest synchronizer next received =>
        exact tended.synchronizer.receive received
    | parentReady index block synchronizer ready => exact tended.synchronizer.ready ready
    | retry old synchronizer retried =>
        obtain ⟨pending, waiting⟩ := Synchronizer.retry_cases retried
        exact ⟨pending ▸ tended.synchronizer.distinct, by
          rw [pending, waiting]
          exact tended.synchronizer.waits⟩
    | _ => exact tended.synchronizer

/-- In every reachable state the waiting blocks have a parent. -/
theorem reachable_tended {node : Node} (reachable : (machine setup name).Reachable node) :
    node.Tended :=
  reachable.invariant Tended boot_tended fun _ _ _ _ tended steps =>
    (step_turn steps).tended tended

end Node

end DeflHotstuff
