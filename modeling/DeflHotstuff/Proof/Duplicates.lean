import DeflHotstuff.Proof.Locks
import DeflHotstuff.Proof.Agreement
import DeflHotstuff.Proof.Availability
import DeflHotstuff.Proof.Variants

namespace DeflHotstuff

open Verification

section

variable [Crypto] {setup : Setup} {name : PublicKey} {around : Surroundings}

def Action.isAccepted : Action → Bool
  | .accepted _ => true
  | _ => false

namespace Core

/-- The TC of an accepted block is from an earlier round than the one of the core. -/
def Timed (core : Core) : Prop :=
  ∀ block, .accepted block ∈ core.history → ∀ tc, block.tc = some tc → tc.round < core.round

/-- A step keeps the TCs of accepted blocks in earlier rounds. -/
theorem Step.timed {core after : Core} (step : Step setup name around core after)
    (timed : core.Timed) : after.Timed := by
  intro block accepted tc carried
  have only (action : Action) (chosen : action.isAccepted = true) : action.decision = true := by
    cases action <;> first | rfl | cases chosen
  have old (inside : .accepted block ∈ core.history) : tc.round < after.round :=
    (timed block inside tc carried).trans_le step.monotone.1
  have chosen : .accepted block ∈ after.select Action.isAccepted :=
    mem_select.mpr ⟨accepted, rfl⟩
  obtain same | ⟨other, rfl⟩ | ⟨other, grown, _⟩ | ⟨timeout, grown, _⟩ := step.select_cases only
  · rw [same] at chosen
    exact old (mem_select.mp chosen).1
  · rw [record_select, advanceByTc_select _ fun _ => rfl, processQc_select _ fun _ => rfl] at chosen
    rcases List.mem_append.mp chosen with before | new
    · exact old (mem_select.mp before).1
    · cases List.mem_singleton.mp new
      rw [record_round, advanceByTc_round, carried]
      simp
  · rw [grown] at accepted
    exact old (by simpa using accepted)
  · rw [grown] at accepted
    exact old (by simpa using accepted)

/-- A panic or an endless loop accepts no block. -/
theorem Fault.timed {core after : Core} (fault : Fault setup core after) (timed : core.Timed) :
    after.Timed := by
  rw [fault.same]
  exact timed

/-- At boot no block is accepted. -/
theorem boot_timed : (boot setup name).Timed := by
  intro block accepted
  cases (mem_boot accepted).1

/-- Copies of a block with one digest have one parent where both have one. -/
theorem Stocked.parent_same {core : Core} (collisionFree : CollisionFree) (stocked : core.Stocked)
    {block copy parent parent' : Block} (same : block.digest = copy.digest)
    (found : setup.parentOf core.store block = some parent)
    (found' : setup.parentOf core.store copy = some parent') : parent = parent' := by
  have sameHash := (collisionFree.block_digest same).2.2.2
  have absent : core.store.read default = none := by
    cases present : core.store.read default with
    | none => rfl
    | some value =>
        have kept := stocked.entries _ _ (Store.mem_of_read present)
        generalize isKey : (default : Digest) = key at kept
        cases kept with
        | batch bytes => exact absurd isKey.symm (collisionFree.nonzero _)
        | block stored => exact absurd isKey.symm (collisionFree.nonzero _)
  unfold Setup.parentOf Block.parent at found found'
  by_cases embedded : (block.qc == QC.genesis) = true
  · by_cases embedded' : (copy.qc == QC.genesis) = true
    · rw [if_pos embedded] at found
      rw [if_pos embedded'] at found'
      exact Option.some.inj (found.symm.trans found')
    · rw [if_neg embedded', ← sameHash, (QC.beq_iff.mp embedded).1] at found'
      change (core.store.read default).bind setup.decode = _ at found'
      rw [absent] at found'
      cases found'
  · by_cases embedded' : (copy.qc == QC.genesis) = true
    · rw [if_neg embedded, sameHash, (QC.beq_iff.mp embedded').1] at found
      change (core.store.read default).bind setup.decode = _ at found
      rw [absent] at found
      cases found
    · rw [if_neg embedded, sameHash] at found
      rw [if_neg embedded'] at found'
      exact Option.some.inj (found.symm.trans found')

/-- A parent that was found stays, or a copy with its digest takes its place. -/
theorem Step.parent_kept {core after : Core} (step : Step setup name around core after)
    (collisionFree : CollisionFree) (stocked : core.Stocked) {child parent : Block}
    (found : setup.parentOf core.store child = some parent) :
    ∃ copy, setup.parentOf after.store child = some copy ∧ (copy = parent ∨
      copy.digest = parent.digest ∧ ∃ older, setup.parentOf core.store copy = some older) := by
  by_cases embedded : (child.qc == QC.genesis) = true
  · refine ⟨parent, ?_, .inl rfl⟩
    unfold Setup.parentOf at found ⊢
    rw [if_pos embedded] at found ⊢
    exact found
  · unfold Setup.parentOf at found ⊢
    rw [if_neg embedded] at found ⊢
    obtain ⟨value, present, decoded⟩ := Option.bind_eq_some_iff.mp found
    have kept := stocked.entries _ _ (Store.mem_of_read present)
    obtain same | ⟨_, older, block, _, isOlder, _, written⟩ | ⟨bytes, written⟩ := step.store_cases
    · exact ⟨parent, by rw [same]; exact found, .inl rfl⟩
    · rw [written, Store.read_write]
      by_cases key : child.parent = block.digest
      · rw [if_pos key]
        rw [key] at kept
        generalize isKey : block.digest = digest at kept
        cases kept with
        | batch bytes => exact absurd isKey (collisionFree.block_ne_batch block bytes)
        | block stored =>
            cases decoded
            exact ⟨block, rfl, .inr ⟨isKey, older, isOlder⟩⟩
      · rw [if_neg key]
        exact ⟨parent, found, .inl rfl⟩
    · rw [written, Store.read_write]
      by_cases key : child.parent = sha512 (.batch bytes)
      · rw [if_pos key]
        rw [key] at kept
        generalize isKey : sha512 (.batch bytes) = digest at kept
        cases kept with
        | batch other =>
            rw [collisionFree.batch_digest isKey]
            exact ⟨parent, decoded, .inl rfl⟩
        | block stored => exact absurd isKey.symm (collisionFree.block_ne_batch stored bytes)
      · rw [if_neg key]
        exact ⟨parent, found, .inl rfl⟩

/-- The parent and the grandparent that were found stay with their rounds. -/
theorem Step.ancestors_kept {core after : Core} (step : Step setup name around core after)
    (collisionFree : CollisionFree) (stocked : core.Stocked) {block b1 b0 : Block}
    (parent : setup.parentOf core.store block = some b1)
    (grandparent : setup.parentOf core.store b1 = some b0) :
    ∃ b1' b0', setup.parentOf after.store block = some b1' ∧
      setup.parentOf after.store b1' = some b0' ∧ b1'.round = b1.round ∧ b0'.round = b0.round := by
  have sameRound {first second : Block} (same : first.digest = second.digest) :
      first.round = second.round := (collisionFree.block_digest same).2.1
  obtain ⟨b1', parent', copied⟩ := step.parent_kept collisionFree stocked parent
  have isRound : b1'.round = b1.round := by
    obtain rfl | ⟨same, _⟩ := copied
    · rfl
    · exact sameRound same
  have older : setup.parentOf core.store b1' = some b0 := by
    obtain rfl | ⟨same, older, found⟩ := copied
    · exact grandparent
    · rw [found, stocked.parent_same collisionFree same found grandparent]
  obtain ⟨b0', grandparent', copied'⟩ := step.parent_kept collisionFree stocked older
  refine ⟨b1', b0', parent', grandparent', isRound, ?_⟩
  obtain rfl | ⟨same, _⟩ := copied'
  · rfl
  · exact sameRound same

/-- What a block that `process_block` brought to its end leaves behind: the core votes for it no
more, the commit that it completes is done, and the store holds it or a copy. -/
structure Finished (setup : Setup) (block : Block) (core : Core) : Prop where
  voted : block.Votable → block.round ≤ core.round ∧
    (block.round = core.round → block.round ≤ core.lastVotedRound)
  ancestors : ∃ b1 b0, setup.parentOf core.store block = some b1 ∧
    setup.parentOf core.store b1 = some b0 ∧
      (b0.round + 1 = b1.round → b0.round ≤ core.lastCommittedRound)
  stored : ∃ copy, copy.digest = block.digest ∧
    core.store.read block.digest = some (.block copy)

/-- A finished block stays finished. -/
theorem Finished.step {core after : Core} {block : Block} (finished : core.Finished setup block)
    (step : Step setup name around core after) (collisionFree : CollisionFree) :
    core.Stocked → after.Finished setup block := by
  intro stocked
  obtain ⟨round, _, lastVoted, lastCommitted⟩ := step.monotone
  constructor
  · intro votable
    obtain ⟨below, spent⟩ := finished.voted votable
    exact ⟨below.trans round, fun same => (spent (by omega)).trans lastVoted⟩
  · obtain ⟨b1, b0, parent, grandparent, committed⟩ := finished.ancestors
    obtain ⟨b1', b0', parent', grandparent', round1, round0⟩ :=
      step.ancestors_kept collisionFree stocked parent grandparent
    refine ⟨b1', b0', parent', grandparent', fun consecutive => ?_⟩
    have done := committed (by omega)
    omega
  · obtain ⟨copy, same, present⟩ := finished.stored
    obtain unchanged | ⟨_, _, other, _, _, _, written⟩ | ⟨bytes, written⟩ := step.store_cases
    · exact ⟨copy, same, by rw [unchanged]; exact present⟩
    · rw [written, Store.read_write]
      by_cases key : block.digest = other.digest
      · exact ⟨other, key.symm, if_pos key⟩
      · exact ⟨copy, same, by rw [if_neg key]; exact present⟩
    · rw [written, Store.read_write, if_neg (collisionFree.block_ne_batch block bytes)]
      exact ⟨copy, same, present⟩

/-- A panic or an endless loop leaves a finished block finished. -/
theorem Fault.finished {core after : Core} {block : Block} (fault : Fault setup core after)
    (finished : core.Finished setup block) : after.Finished setup block := by
  rw [fault.same]
  exact ⟨finished.voted, finished.ancestors, finished.stored⟩

/-- The search for the ancestors returns them where they are at hand. -/
theorem getAncestors_found [Rounds] {core : Core} {block b1 b0 : Block}
    (parent : setup.parentOf core.store block = some b1)
    (grandparent : setup.parentOf core.store b1 = some b0) :
    getAncestors setup block core = (.ok (some (b0, b1)), core) := by
  unfold getAncestors
  change Handler.bind _ _ core = _
  unfold Handler.bind
  rw [getParentBlock_found parent]
  change Handler.bind _ _ core = _
  unfold Handler.bind
  rw [getParentBlock_found grandparent]
  rfl

/-- The task continues after the search with the block stored. -/
theorem processBlock_found [Rounds] {core : Core} {block b1 b0 : Block}
    (parent : setup.parentOf core.store block = some b1)
    (grandparent : setup.parentOf core.store b1 = some b0) :
    processBlock setup name block core =
      (commitTwoChain setup b0 b1 >>= fun _ => voteInRound setup name block)
        ((core.storeBlock block).cleanupProposer b0 b1 block) := by
  unfold processBlock
  change Handler.bind _ _ core = _
  unfold Handler.bind
  rw [getAncestors_found parent grandparent]
  rfl

/-- The search of `commit` for ancestors returns with the core as it was. -/
theorem collectAncestors_ok [Rounds] {bound fuel : Nat} {parent : Block}
    {toCommit collected : List Block} {core after : Core}
    (returns : collectAncestors setup bound fuel parent toCommit core = (.ok collected, after)) :
    after = core := by
  induction fuel generalizing parent toCommit with
  | zero => cases returns
  | succ fuel ih =>
      unfold collectAncestors at returns
      split at returns
      · obtain ⟨found, middle, searched, returns⟩ := Handler.bind_ok.mp returns
        obtain ⟨ancestor, _, run⟩ | ⟨failure, run⟩ | ⟨_, _, run⟩ :=
          getParentBlock_cases setup core parent
        · rw [run] at searched
          cases searched
          exact ih returns
        · rw [run] at searched
          cases searched
        · rw [run] at searched
          cases searched
          cases returns
      · cases returns
        rfl

/-- A commit that returns leaves the last committed round at the block or above it. -/
theorem commit_ok {core after : Core} {block : Block}
    (returns : commit setup block core = (.ok (), after)) :
    after.store = core.store ∧ after.round = core.round ∧
      block.round ≤ after.lastCommittedRound := by
  unfold commit at returns
  rw [Handler.read_bind] at returns
  split at returns
  · rename_i reached
    cases returns
    exact ⟨rfl, rfl, reached⟩
  · obtain ⟨collected, middle, searched, returns⟩ := Handler.bind_ok.mp returns
    cases collectAncestors_ok searched
    cases returns
    exact ⟨rfl, rfl, le_rfl⟩

/-- A two-chain that is handled to its end leaves its head committed. -/
theorem commitTwoChain_ok {core after : Core} {b0 b1 : Block}
    (returns : commitTwoChain setup b0 b1 core = (.ok (), after)) :
    after.store = core.store ∧ after.round = core.round ∧
      (b0.round + 1 = b1.round → b0.round ≤ after.lastCommittedRound) := by
  unfold commitTwoChain at returns
  split at returns
  · rw [Handler.update_bind] at returns
    obtain ⟨store, round, reached⟩ := commit_ok returns
    exact ⟨store, round, fun _ => reached⟩
  · rename_i apart
    cases returns
    exact ⟨rfl, rfl, fun consecutive => absurd consecutive apart⟩

/-- The second rule decides the voting rule where it returns. -/
theorem safetyRule2_ok {core after : Core} {block : Block} {rule2 : Bool}
    (returns : safetyRule2 block core = (.ok rule2, after)) :
    after = core ∧ (rule2 = true ↔ block.Votable) := by
  unfold safetyRule2 at returns
  unfold Block.Votable
  cases carried : block.tc with
  | none =>
      rw [carried] at returns
      cases returns
      simp
  | some tc =>
      rw [carried] at returns
      dsimp only at returns
      cases highest : tc.highQcRounds.max? with
      | none =>
          rw [highest] at returns
          cases returns
      | some bound =>
          rw [highest] at returns
          cases returns
          obtain ⟨listed, above⟩ := List.max?_eq_some_iff.mp highest
          refine ⟨rfl, ?_⟩
          rw [decide_eq_true_iff]
          apply or_congr Iff.rfl
          constructor
          · exact fun ⟨next, below⟩ => ⟨tc, rfl, next, fun round inside =>
              (above round inside).trans below⟩
          · rintro ⟨_, same, next, below⟩
            cases same
            exact ⟨next, below bound listed⟩

/-- The second rule returns for a block whose TC has votes. -/
theorem safetyRule2_returns (core : Core) {block : Block}
    (filled : ∀ tc, block.tc = some tc → tc.votes ≠ []) :
    ∃ rule2, safetyRule2 block core = (.ok rule2, core) := by
  unfold safetyRule2
  cases carried : block.tc with
  | none => exact ⟨_, rfl⟩
  | some tc =>
      dsimp only
      cases highest : tc.highQcRounds.max? with
      | some bound => exact ⟨_, rfl⟩
      | none =>
          rw [List.max?_eq_none_iff] at highest
          exact absurd (by simpa [TC.highQcRounds] using highest) (filled tc carried)

/-- The vote of a task that returns is spent before it is sent. -/
theorem voteInRound_ok (around : Surroundings) {core after : Core} {b0 b1 block : Block}
    (processed : .processed b0 b1 block ∈ core.history) (handed : core.Handed block)
    (returns : voteInRound setup name block core = (.ok (), after)) :
    ∃ spent, Relation.ReflTransGen (Step setup name around) core spent ∧
      Relation.ReflTransGen (Step setup name around) spent after ∧ spent.store = core.store ∧
        spent.round = core.round ∧ spent.lastCommittedRound = core.lastCommittedRound ∧
          (block.Votable → block.round = spent.round → block.round ≤ spent.lastVotedRound) := by
  unfold voteInRound at returns
  rw [Handler.read_bind] at returns
  split at returns
  · rename_i outside
    cases returns
    exact ⟨core, .refl, .refl, rfl, rfl, rfl, fun _ same => absurd same outside⟩
  · rename_i inRound
    obtain ⟨found, spent, made, sent⟩ := Handler.bind_ok.mp returns
    obtain ⟨steps, arrived⟩ : Relation.ReflTransGen (Step setup name around) core spent ∧
        ∀ vote, found = some vote → spent.VoteArrived setup name vote :=
      (makeVote_leads core b0 b1 block processed handed (not_not.mp inRound)).of_ok made
    unfold makeVote at made
    rw [Handler.read_bind] at made
    obtain ⟨rule2, same, decided, made⟩ := Handler.bind_ok.mp made
    obtain ⟨rfl, isVotable⟩ := safetyRule2_ok decided
    split at made
    · cases made
      have sends : Relation.ReflTransGen (Step setup name around) _ after :=
        ((sendVote_leads _ _ (arrived _ rfl)).of_ok sent).1
      exact ⟨_, steps, sends, rfl, rfl, rfl, fun _ _ => le_max_right _ _⟩
    · rename_i refused
      cases made
      cases sent
      refine ⟨_, .refl, .refl, rfl, rfl, rfl, fun votable _ => ?_⟩
      by_contra fresh
      exact refused ⟨Nat.not_le.mp fresh, isVotable.mpr votable⟩

/-- The block was checked or built here, so the core is in its round or past it if the voting rule
holds. -/
theorem Tracked.votable_reached {core : Core} (tracked : core.Tracked name) (timed : core.Timed)
    {block : Block} (trusted : core.Trusted block) (votable : block.Votable) :
    block.round ≤ core.round := by
  rcases trusted with accepted | ⟨sent, qc, tc, built⟩
  · rcases votable with consecutive | ⟨tc, carried, next, _⟩
    · have below := (tracked.accepted block accepted).1
      omega
    · have below := timed block accepted tc carried
      omega
  · obtain ⟨_, _, _, made⟩ := tracked.built sent qc tc block built
    exact (tracked.made _ _ _ made).1

/-- From this core `process_block` comes to its end: the ancestors are at hand and no part of the
task fails. -/
structure Completes (setup : Setup) (name : PublicKey) (block : Block) (core : Core) : Prop where
  ancestors : ∃ b1 b0, setup.parentOf core.store block = some b1 ∧
    setup.parentOf core.store b1 = some b0
  returns : (processBlock setup name block core).1 = .ok ()

/-- A task that comes to its end leaves the block finished. -/
theorem Completes.finished {core : Core} {block : Block} (completes : core.Completes setup name block)
    (collisionFree : CollisionFree) (regular : core.Regular setup name) (timed : core.Timed)
    (handed : (.accepted block ∈ core.history ∧
      ∀ digest ∈ block.payload, (core.store.read digest).isSome) ∨
      .resumed block ∈ core.history) :
    (processBlock setup name block core).2.Finished setup block := by
  obtain ⟨⟨b1, b0, parent, grandparent⟩, returns⟩ := completes
  have trusted := regular.tracked.handed (handed.imp_left And.left)
  generalize outcome : processBlock setup name block core = result at returns ⊢
  obtain ⟨exit, after⟩ := result
  cases returns
  rw [processBlock_found parent grandparent] at outcome
  obtain ⟨_, committed, decided, voted⟩ := Handler.bind_ok.mp outcome
  have process : Step setup name Node.unrestricted core
      ((core.storeBlock block).cleanupProposer b0 b1 block) :=
    .process b0 b1 block handed parent grandparent
  have recorded : Action.processed b0 b1 block ∈
      ((core.storeBlock block).cleanupProposer b0 b1 block).history :=
    List.mem_append_right _ (List.mem_singleton.mpr rfl)
  have commits : Relation.ReflTransGen (Step setup name Node.unrestricted) _ committed :=
    ((commitTwoChain_leads _ b0 b1 block recorded fun _ _ _ _ _ _ => trivial).of_ok decided).1
  have toCommitted := commits.head process
  have keeps {action : Action} (inside : action ∈ core.history) : action ∈ committed.history :=
    steps_history_subset toCommitted inside
  obtain ⟨sameStore, sameRound, covered⟩ := commitTwoChain_ok decided
  obtain ⟨spent, toSpent, toAfter, spentStore, spentRound, spentCommitted, exhausted⟩ :=
    voteInRound_ok Node.unrestricted (steps_history_subset commits recorded)
      ((handed.imp_left And.left).imp keeps keeps) voted
  have isStore : spent.store = core.store.write block.digest (.block block) :=
    spentStore.trans sameStore
  have isRound : spent.round = core.round := spentRound.trans sameRound
  have finished : spent.Finished setup block := by
    constructor
    · intro votable
      refine ⟨?_, exhausted votable⟩
      rw [isRound]
      exact regular.tracked.votable_reached timed trusted votable
    · obtain ⟨b1', b0', parent', grandparent', round1, round0⟩ :=
        process.ancestors_kept collisionFree regular.stocked parent grandparent
      refine ⟨b1', b0', ?_, ?_, ?_⟩
      · rw [isStore]
        exact parent'
      · rw [isStore]
        exact grandparent'
      · rw [round1, round0, spentCommitted]
        exact covered
    · refine ⟨block, rfl, ?_⟩
      rw [isStore, Store.read_write, if_pos rfl]
  have regularSpent := steps_preserve (toCommitted.trans toSpent) regular fun _ _ step =>
    step.regular
  let invariant (core : Core) : Prop := core.Regular setup name ∧ core.Finished setup block
  have initially : invariant spent := ⟨regularSpent, finished⟩
  exact (steps_preserve toAfter initially fun _ _ step holds =>
    ⟨step.regular holds.1, holds.2.step step collisionFree holds.1.stocked⟩).2

/-- The core stands where it stood, no vote, timeout or commit left it, and it suspended no block. -/
structure Steady (core after : Core) : Prop where
  round : after.round = core.round
  lastVotedRound : after.lastVotedRound = core.lastVotedRound
  lastCommittedRound : after.lastCommittedRound = core.lastCommittedRound
  highQc : after.highQc = core.highQc
  aggregator : after.aggregator = core.aggregator
  network : after.network = core.network
  txCommit : after.txCommit = core.txCommit
  innerChannel : after.innerChannel = core.innerChannel
  pledges : after.pledges = core.pledges

/-- What a finished block sends to the other tasks of the node when it is handled again: the
proposer drops the payloads of its family, and the mempool and the payload waiter clean up to the
round of its grandparent when its parent is in the next round. -/
def SendsCleanup (setup : Setup) (block : Block) (core after : Core) : Prop :=
  ∃ b0 b1, setup.parentOf core.store block = some b1 ∧ setup.parentOf core.store b1 = some b0 ∧
    after.txProposer.map Stamped.message = core.txProposer.map Stamped.message ++
      [.cleanup (b0.payload ++ b1.payload ++ block.payload)] ∧
    after.txMempool = core.txMempool ++
      (if b0.round + 1 = b1.round then [.cleanup b0.round] else []) ∧
    after.txPayloadWaiter = core.txPayloadWaiter ++
      (if b0.round + 1 = b1.round then [.cleanup b0.round] else [])

/-- The store differs at most under the digest of the block, where a copy gives way to the block. -/
structure Restored (block : Block) (core after : Core) : Prop where
  others : ∀ key, key ≠ block.digest → after.store.read key = core.store.read key
  before : ∃ copy, copy.digest = block.digest ∧
    core.store.read block.digest = some (.block copy)
  now : after.store.read block.digest = some (.block block)

/-- A vote that is spent is not cast again. -/
theorem voteInRound_spent {core : Core} {block : Block}
    (filled : ∀ tc, block.tc = some tc → tc.votes ≠ [])
    (spent : block.Votable → block.round = core.round → block.round ≤ core.lastVotedRound) :
    voteInRound setup name block core = (.ok (), core) := by
  unfold voteInRound
  rw [Handler.read_bind]
  split
  · rfl
  · rename_i inRound
    obtain ⟨rule2, decided⟩ := safetyRule2_returns core filled
    have votable := (safetyRule2_ok decided).2
    have refused : ¬ (core.lastVotedRound < block.round ∧ rule2 = true) := fun ⟨fresh, holds⟩ =>
      absurd (spent (votable.mp holds) (not_not.mp inRound)) (Nat.not_le.mpr fresh)
    have none : makeVote setup name block core = (.ok none, core) := by
      unfold makeVote
      rw [Handler.read_bind]
      change Handler.bind _ _ core = _
      unfold Handler.bind
      rw [decided]
      dsimp only
      rw [if_neg refused]
      rfl
    change Handler.bind _ _ core = _
    unfold Handler.bind
    rw [none]
    rfl

/-- A commit that was done is not done again. -/
theorem commitTwoChain_done (setup : Setup) (core : Core) {b0 b1 : Block}
    (committed : b0.round + 1 = b1.round → b0.round ≤ core.lastCommittedRound) :
    ∃ after, commitTwoChain setup b0 b1 core = (.ok (), after) ∧ Steady core after ∧
      after.store = core.store ∧ after.txProposer = core.txProposer ∧
        after.txMempool = core.txMempool ++
          (if b0.round + 1 = b1.round then [.cleanup b0.round] else []) ∧
        after.txPayloadWaiter = core.txPayloadWaiter ++
          (if b0.round + 1 = b1.round then [.cleanup b0.round] else []) := by
  unfold commitTwoChain
  rw [Rounds.next_unbounded]
  split
  · rename_i consecutive
    rw [Handler.update_bind]
    unfold commit
    rw [Handler.read_bind, if_pos (committed consecutive)]
    refine ⟨_, rfl, ⟨rfl, rfl, rfl, rfl, rfl, rfl, rfl, rfl, ?_⟩, rfl, rfl, rfl, rfl⟩
    exact core.record_other (show Action.pledge (.committed b0) = false from rfl)
  · exact ⟨core, rfl, ⟨rfl, rfl, rfl, rfl, rfl, rfl, rfl, rfl, rfl⟩, rfl, rfl,
      (List.append_nil _).symm, (List.append_nil _).symm⟩

/-- A core that stands in two steps stands over both. -/
theorem Steady.trans {core middle after : Core} (first : Steady core middle)
    (second : Steady middle after) : Steady core after where
  round := second.round.trans first.round
  lastVotedRound := second.lastVotedRound.trans first.lastVotedRound
  lastCommittedRound := second.lastCommittedRound.trans first.lastCommittedRound
  highQc := second.highQc.trans first.highQc
  aggregator := second.aggregator.trans first.aggregator
  network := second.network.trans first.network
  txCommit := second.txCommit.trans first.txCommit
  innerChannel := second.innerChannel.trans first.innerChannel
  pledges := second.pledges.trans first.pledges

/-- An action that is not signed leaves the core where it stands. -/
theorem record_steady (core : Core) {action : Action} (unsigned : action.pledge = false) :
    Steady core (core.record action) :=
  ⟨rfl, rfl, rfl, rfl, rfl, rfl, rfl, rfl, core.record_other unsigned⟩

/-- A finished block goes through `process_block` again. It changes nothing but its own entry and
sends nothing but the cleanups. -/
theorem Finished.again (name : PublicKey) {core : Core} {block : Block}
    (finished : core.Finished setup block)
    (filled : ∀ tc, block.tc = some tc → tc.votes ≠ []) :
    ∃ after, processBlock setup name block core = (.ok (), after) ∧ Steady core after ∧
      after.store = core.store.write block.digest (.block block) ∧
        core.SendsCleanup setup block after := by
  obtain ⟨b1, b0, parent, grandparent, committed⟩ := finished.ancestors
  have stored : Steady core ((core.storeBlock block).cleanupProposer b0 b1 block) :=
    ⟨rfl, rfl, rfl, rfl, rfl, rfl, rfl, rfl,
      record_other _ (show Action.pledge (.processed b0 b1 block) = false from rfl)⟩
  obtain ⟨after, decided, steady, sameStore, proposer, mempool, payloadWaiter⟩ :=
    commitTwoChain_done setup ((core.storeBlock block).cleanupProposer b0 b1 block) committed
  refine ⟨after, ?_, stored.trans steady, sameStore, b0, b1, parent, grandparent, ?_, mempool,
    payloadWaiter⟩
  swap
  · rw [proposer]
    exact List.map_append
  rw [processBlock_found parent grandparent]
  change Handler.bind _ _ _ = _
  unfold Handler.bind
  rw [decided]
  apply voteInRound_spent filled
  rw [steady.round, steady.lastVotedRound]
  exact fun votable => (finished.voted votable).2

/-- The checks succeed, so the block goes on to `process_block`. -/
theorem handleProposal_ready [Rounds] {core : Core} {block : Block} (ready : core.Ready setup block) :
    handleProposal setup name block core = processBlock setup name block
      ((advanceByTc block.tc (core.processQc block.qc)).record (.accepted block)) := by
  let accepted := (advanceByTc block.tc (core.processQc block.qc)).record (.accepted block)
  have books : SameBooks core accepted := accept_books ..
  have leads : ensure (block.author = setup.committee.getLeader block.round)
      (.wrongLeader block.digest block.author block.round) = .ok () :=
    ensure_ok.mpr (decide_eq_true ready.leader)
  have present : verifyPayload block accepted = (.ok true, accepted) := by
    have none : (block.payload.filter fun digest => (accepted.store.read digest).isNone) = [] := by
      rw [List.filter_eq_nil_iff, books.store]
      intro digest inside
      simp [Option.isSome_iff_ne_none.mp (ready.payload digest inside)]
    unfold verifyPayload
    rw [Handler.read_bind, if_pos none]
    rfl
  unfold handleProposal
  rw [leads, ready.verified]
  change Handler.bind (verifyPayload block) _ accepted = _
  unfold Handler.bind
  rw [present]
  rfl

/-- A QC that was taken up before changes nothing. -/
theorem processQc_known (core : Core) {qc : QC} (reached : qc.round < core.round)
    (covered : qc.round ≤ core.highQc.round) : core.processQc qc = core := by
  unfold processQc
  rw [advanceRound_eq, if_pos reached]
  unfold updateHighQc
  exact if_neg (Nat.not_lt.mpr covered)

/-- A TC of an earlier round changes nothing. -/
theorem advanceByTc_known {core : Core} {tc : Option TC}
    (reached : ∀ cert, tc = some cert → cert.round < core.round) : advanceByTc tc core = core := by
  cases tc with
  | none => rfl
  | some cert => exact (core.advanceRound_eq cert.round).trans (if_pos (reached cert rfl))

end Core

/-- The event takes the block into `process_block`, which starts from the core. -/
inductive Node.Enters [Rounds] (setup : Setup) (node : Node) : Event → Block → Core → Prop
  | proposal (block : Block) (ready : node.core.Ready setup block) :
      Enters setup node (.message (.propose block)) block
        ((Core.advanceByTc block.tc ((node.core.record
          (.received (.propose block))).processQc block.qc)).record (.accepted block))
  | resumed (block : Block) (rest : List Block) (next : node.rxLoopback = block :: rest) :
      Enters setup node .loopback block (node.core.record (.resumed block))

namespace Node

/-- The turn runs the task of the block. -/
theorem Enters.processed [Rounds] {node after : Node} {event : Event} {block : Block} {start : Core}
    (enters : node.Enters setup event block start) (turn : Turn setup name node event after) :
    after.core = (Core.processBlock setup name block start).2 := by
  cases enters with
  | proposal block ready =>
      cases turn with
      | message message running forCore =>
          have received : (node.core.record (.received (.propose block))).Ready setup block :=
            ⟨ready.leader, ready.verified, ready.payload⟩
          exact (runCore_core ..).trans
            (congrArg Prod.snd (Core.handleProposal_ready received))
  | resumed block rest next =>
      cases turn with
      | loopback other rest' running next' =>
          rw [next] at next'
          cases next'
          exact runCore_core ..

/-- The core still runs after the turn only when the task of the block came back. -/
theorem Enters.returns [Rounds] {node after : Node} {event : Event} {block : Block} {start : Core}
    (enters : node.Enters setup event block start) (turn : Turn setup name node event after)
    (running : after.halted = false) : (Core.processBlock setup name block start).1.Returns := by
  cases enters with
  | proposal block ready =>
      cases turn with
      | message message wasRunning forCore =>
          have received : (node.core.record (.received (.propose block))).Ready setup block :=
            ⟨ready.leader, ready.verified, ready.payload⟩
          rw [← Core.handleProposal_ready received]
          exact runCore_returns running
  | resumed block rest next =>
      cases turn with
      | loopback other rest' wasRunning next' =>
          rw [next] at next'
          cases next'
          exact runCore_returns running

/-- Only a core that runs takes up a block. -/
theorem Enters.running {node after : Node} {event : Event} {block : Block} {start : Core}
    (enters : node.Enters setup event block start) (turn : Turn setup name node event after) :
    node.halted = false := by
  cases enters with
  | proposal block ready =>
      cases turn with
      | message message running => exact running
  | resumed block rest next => exact turn.running rfl

/-- Where the event leads into `process_block`, the block was checked or resumed, and the core
took steps. -/
theorem Enters.regular {node : Node} {event : Event} {block : Block} {start : Core}
    (enters : node.Enters setup event block start)
    (reachable : (machine setup name).Reachable node) (running : node.halted = false) :
    start.Regular setup name ∧ start.Timed ∧
      ((.accepted block ∈ start.history ∧
        ∀ digest ∈ block.payload, (start.store.read digest).isSome) ∨
        .resumed block ∈ start.history) := by
  have regular := reachable_regular reachable
  have timed := reachable_core reachable Core.Timed Core.boot_timed (fun _ _ step => step.timed)
    fun _ _ fault => fault.timed
  cases enters with
  | proposal block ready =>
      have receive : Core.Step setup name unrestricted node.core _ :=
        .receive (.propose block) trivial
      have received : Action.received (.propose block) ∈
          (node.core.record (.received (.propose block))).history :=
        List.mem_append_right _ (List.mem_singleton.mpr rfl)
      have accept : Core.Step setup name unrestricted _ _ :=
        .accept block received ready.leader ready.verified
      refine ⟨accept.regular (receive.regular regular), accept.timed (receive.timed timed),
        .inl ⟨List.mem_append_right _ (List.mem_singleton.mpr rfl), ?_⟩⟩
      rw [(Core.accept_books ..).store]
      exact ready.payload
  | resumed block rest next =>
      have trusted := (reachable_sound reachable).inFlight running block
        (.loopback block (next ▸ List.mem_cons_self ..))
      have resume : Core.Step setup name unrestricted node.core _ :=
        .resume block trusted trivial
      exact ⟨resume.regular regular, resume.timed timed,
        .inr (List.mem_append_right _ (List.mem_singleton.mpr rfl))⟩

/-- What is finished stays finished over any later run. -/
theorem finished_run {node later : Node} {events : List Event} {block : Block}
    (collisionFree : CollisionFree) (reachable : (machine setup name).Reachable node)
    (executed : (machine setup name).execute node events = some later)
    (finished : node.core.Finished setup block) :
    (machine setup name).Reachable later ∧ later.core.Finished setup block := by
  induction events generalizing node with
  | nil =>
      cases executed
      exact ⟨reachable, finished⟩
  | cons event rest ih =>
      obtain ⟨after, steps, executed⟩ := Option.bind_eq_some_iff.mp executed
      have kept := (step_turn steps).core_preserve
        (fun core => core.Regular setup name ∧ core.Finished setup block)
        (reachable_sound reachable) (permits_unrestricted node event)
        ⟨reachable_regular reachable, finished⟩
        (fun _ _ step holds => ⟨step.regular holds.1,
          holds.2.step step collisionFree holds.1.stocked⟩)
        fun _ _ fault holds => ⟨fault.regular holds.1, fault.finished holds.2⟩
      exact ih (reachable.next steps) executed kept.2

end Node

/-- A finished block that was accepted goes through `handle_proposal` again. -/
theorem Core.Finished.proposed {core : Core} {block : Block} (finished : core.Finished setup block)
    (regular : core.Regular setup name) (timed : core.Timed)
    (accepted : .accepted block ∈ core.history)
    (payload : ∀ digest ∈ block.payload, (core.store.read digest).isSome) :
    ∃ after, Core.handleProposal setup name block
        (core.record (.received (.propose block))) = (.ok (), after) ∧
      core.Steady after ∧ core.Restored block after ∧ core.SendsCleanup setup block after := by
  obtain ⟨_, verified, leader⟩ := regular.evidenced.accepted block accepted
  obtain ⟨reached, covered⟩ := regular.tracked.accepted block accepted
  let received := core.record (.received (.propose block))
  have ready : received.Ready setup block := ⟨leader, verified, payload⟩
  have known : Core.advanceByTc block.tc (received.processQc block.qc) = received := by
    rw [Core.processQc_known received reached covered]
    exact Core.advanceByTc_known (timed block accepted)
  have finishedAgain : (received.record (.accepted block)).Finished setup block :=
    ⟨finished.voted, finished.ancestors, finished.stored⟩
  obtain ⟨after, runs, steady, isStore, sendsCleanup⟩ := finishedAgain.again name fun tc carried =>
    TC.votes_ne_nil ((Block.verify_ok.mp verified).2.2.2.1 tc carried)
  refine ⟨after, ?_, ?_, ?_, sendsCleanup⟩
  · rw [Core.handleProposal_ready ready, known]
    exact runs
  · exact ((core.record_steady rfl).trans (Core.record_steady _ rfl)).trans steady
  · constructor
    · intro key other
      rw [isStore, Store.read_write, if_neg other]
      rfl
    · exact finished.stored
    · rw [isStore, Store.read_write, if_pos rfl]

/-- A block that was handled to its end is handled again without any effect but on its own entry
of the store, which may have held a copy of it, and the node's own tasks are told to clean up. -/
theorem duplicate_harmless (collisionFree : CollisionFree) (setup : Setup) (name : PublicKey)
    {node after later again : Node} {event : Event} {events : List Event} {block : Block}
    {start : Core} (reachable : (Node.machine setup name).Reachable node)
    (enters : node.Enters setup event block start)
    (completes : start.Completes setup name block)
    (processed : node.step setup name event = some after)
    (executed : (Node.machine setup name).execute after events = some later)
    (accepted : .accepted block ∈ later.core.history)
    (payload : ∀ digest ∈ block.payload, (later.core.store.read digest).isSome)
    (handled : later.step setup name (.message (.propose block)) = some again) :
    again.halted = false ∧ later.core.Steady again.core ∧
      later.core.Restored block again.core ∧ later.core.SendsCleanup setup block again.core := by
  have turn := Node.step_turn processed
  obtain ⟨regular, timed, handed⟩ := enters.regular reachable (enters.running turn)
  have finishedAfter := completes.finished collisionFree regular timed handed
  rw [← enters.processed turn] at finishedAfter
  obtain ⟨reachableLater, finished⟩ :=
    Node.finished_run collisionFree (reachable.next processed) executed finishedAfter
  have regularLater := Node.reachable_regular reachableLater
  have timedLater := Node.reachable_core reachableLater Core.Timed Core.boot_timed
    (fun _ _ step => step.timed) fun _ _ fault => fault.timed
  obtain ⟨last, runs, steady, restored, sendsCleanup⟩ :=
    finished.proposed regularLater timedLater accepted payload
  cases Node.step_turn handled with
  | message message running forCore =>
      have same := Node.runCore_ok
        { later with core := later.core.record (.received (.propose block)) } runs
      change (Node.runCore _ (Core.handleProposal setup name block)).halted = false ∧
        later.core.Steady (Node.runCore _ (Core.handleProposal setup name block)).core ∧
          later.core.Restored block (Node.runCore _ (Core.handleProposal setup name block)).core ∧
            later.core.SendsCleanup setup block
              (Node.runCore _ (Core.handleProposal setup name block)).core
      rw [same]
      exact ⟨running, steady, restored, sendsCleanup⟩

end

namespace Plain

instance : DecidableEq QC := fun qc other =>
  decidable_of_iff (qc.hash = other.hash ∧ qc.round = other.round ∧ qc.votes = other.votes) (by
    cases qc
    cases other
    simp)

instance : DecidableEq TC := fun tc other =>
  decidable_of_iff (tc.round = other.round ∧ tc.votes = other.votes) (by
    cases tc
    cases other
    simp)

instance : DecidableEq Block := fun block other =>
  decidable_of_iff (block.qc = other.qc ∧ block.tc = other.tc ∧ block.author = other.author ∧
    block.round = other.round ∧ block.payload = other.payload ∧
      block.signature = other.signature) (by
    cases block
    cases other
    simp)

/-- The store holds this copy under its digest. -/
def keeps (core : Core) (copy : Block) : Bool :=
  match core.store.read copy.digest with
  | some (.block stored) => decide (stored = copy)
  | _ => false

/-- The computed check of the store finds the copy. -/
theorem of_keeps {core : Core} {copy : Block} (kept : keeps core copy = true) :
    core.store.read copy.digest = some (.block copy) := by
  unfold keeps at kept
  split at kept
  · rename_i stored present
    rw [present, of_decide_eq_true kept]
  · cases kept

/-- The core accepted this copy. -/
def takes (core : Core) (copy : Block) : Bool :=
  core.history.any fun action => match action with
    | .accepted block => decide (block = copy)
    | _ => false

/-- The computed check of the record finds the accepted copy. -/
theorem of_takes {core : Core} {copy : Block} (taken : takes core copy = true) :
    .accepted copy ∈ core.history := by
  obtain ⟨action, inside, isAccepted⟩ := List.any_eq_true.mp taken
  split at isAccepted
  · rw [← of_decide_eq_true isAccepted]
    exact inside
  · cases isAccepted

/-- The node finishes the leader's block, stores a copy without the TC and handles the block
again. -/
theorem handled_again : ∃ after later again,
    Node.step four.setup (1 : Nat) (Node.boot four.setup (1 : Nat))
      (.message (.propose signedByLeader)) = some after ∧
    (Node.machine four.setup (1 : Nat)).execute after [.message (.propose stripped)] =
      some later ∧
    .accepted signedByLeader ∈ later.core.history ∧
    later.core.store.read stripped.digest = some (.block stripped) ∧
    Node.step four.setup (1 : Nat) later (.message (.propose signedByLeader)) = some again ∧
    again.core.store.read signedByLeader.digest = some (.block signedByLeader) := by
  have taken : ((Node.step four.setup (1 : Nat) (Node.boot four.setup (1 : Nat))
      (.message (.propose signedByLeader))).bind fun after =>
        ((Node.machine four.setup (1 : Nat)).execute after [.message (.propose stripped)]).bind
          fun later => (Node.step four.setup (1 : Nat) later
            (.message (.propose signedByLeader))).map fun again =>
              takes later.core signedByLeader && keeps later.core stripped &&
                keeps again.core signedByLeader) = some true := by
    decide +kernel
  obtain ⟨after, first, taken⟩ := Option.bind_eq_some_iff.mp taken
  obtain ⟨later, second, taken⟩ := Option.bind_eq_some_iff.mp taken
  obtain ⟨again, third, observed⟩ := Option.map_eq_some_iff.mp taken
  rw [Bool.and_eq_true, Bool.and_eq_true] at observed
  obtain ⟨⟨recorded, before⟩, now⟩ := observed
  exact ⟨after, later, again, first, second, of_takes recorded, of_keeps before, third,
    of_keeps now⟩

/-- The core in which `process_block` takes up the leader's block. -/
def takenUp : Core := (Core.advanceByTc signedByLeader.tc
  (((Node.boot four.setup (1 : Nat)).core.record (.received (.propose signedByLeader))).processQc
    signedByLeader.qc)).record (.accepted signedByLeader)

/-- The leader's block passes the checks and goes on to `process_block`. -/
theorem enters_takenUp : (Node.boot four.setup (1 : Nat)).Enters four.setup
    (.message (.propose signedByLeader)) signedByLeader takenUp := by
  apply Node.Enters.proposal
  constructor
  · decide +kernel
  · rw [← accepts_iff]
    decide +kernel
  · exact fun _ inside => nomatch inside

/-- The task of the leader's block comes to its end. -/
theorem completes_takenUp : takenUp.Completes four.setup (1 : Nat) signedByLeader := by
  constructor
  · exact ⟨.genesis, .genesis, rfl, rfl⟩
  · rfl

/-- The block is handled again after a copy of it. -/
theorem duplicate_harmless_again : ∃ after later again : Node,
    Node.step four.setup (1 : Nat) (Node.boot four.setup (1 : Nat))
      (.message (.propose signedByLeader)) = some after ∧
    (Node.machine four.setup (1 : Nat)).execute after [.message (.propose stripped)] =
      some later ∧
    Node.step four.setup (1 : Nat) later (.message (.propose signedByLeader)) = some again ∧
    .accepted signedByLeader ∈ later.core.history ∧ later.core.Steady again.core ∧
      later.core.Restored signedByLeader again.core ∧
        later.core.SendsCleanup four.setup signedByLeader again.core := by
  obtain ⟨after, later, again, first, second, accepted, _, third, _⟩ := handled_again
  have harmless := duplicate_harmless collisionFree four.setup (1 : Nat) .start enters_takenUp
    completes_takenUp first second accepted (fun _ inside => nomatch inside) third
  exact ⟨after, later, again, first, second, third, accepted, harmless.2⟩

/-- A copy without the TC that came in between gives way to the block when it is handled again. -/
theorem duplicate_harmless_fails : ∃ node after later again : Node,
    (Node.machine four.setup (1 : Nat)).Reachable node ∧
    node.Enters four.setup (.message (.propose signedByLeader)) signedByLeader takenUp ∧
    takenUp.Completes four.setup (1 : Nat) signedByLeader ∧
    node.step four.setup (1 : Nat) (.message (.propose signedByLeader)) = some after ∧
    (Node.machine four.setup (1 : Nat)).execute after [.message (.propose stripped)] =
      some later ∧
    later.step four.setup (1 : Nat) (.message (.propose signedByLeader)) = some again ∧
    again.core.store.read signedByLeader.digest ≠
      later.core.store.read signedByLeader.digest := by
  obtain ⟨after, later, again, first, second, _, before, third, now⟩ := handled_again
  refine ⟨_, after, later, again, .start, enters_takenUp, completes_takenUp, first, second, third,
    ?_⟩
  have sameDigest : stripped.digest = signedByLeader.digest := rfl
  rw [now, ← sameDigest, before]
  intro same
  cases same

end Plain

end DeflHotstuff
