import DeflHotstuff.Proof.Duplicates
import DeflHotstuff.Proof.Overflow
import DeflHotstuff.Proof.Progress
import DeflHotstuff.Proof.Suspension

namespace DeflHotstuff

open Verification

section

variable [Crypto] {setup : Setup} {name : PublicKey} {around : Surroundings}

namespace Core

/-- A task keeps the record and the keys of the store, however it ends. -/
theorem leads_keeps {Value : Type} {task : CoreTask Value} {core : Core} {post : Value → Core → Prop}
    (leads : task.Leads (Step setup name around) (Fault setup) core post) :
    core.Keeps (task core).2 := by
  have ofSteps {after : Core} (steps : Relation.ReflTransGen (Step setup name around) core after) :
      core.Keeps after :=
    steps_preserve steps (.refl core) fun _ _ step keeps => keeps.trans step.keeps
  unfold Handler.Leads at leads
  rcases outcome : task core with ⟨result, after⟩
  rw [outcome] at leads
  cases result with
  | ok value => exact ofSteps leads.1
  | error failure => exact ofSteps leads
  | panic message =>
      obtain ⟨last, steps, fault⟩ := leads
      exact (ofSteps steps).trans fault.keeps
  | diverge =>
      obtain ⟨last, steps, fault⟩ := leads
      exact (ofSteps steps).trans fault.keeps

/-- The head of a two-chain is recorded as committed, whatever comes of the commit and the vote. -/
theorem commitTwoChain_recorded {core : Core} {b0 b1 block : Block}
    (consecutive : b0.round + 1 = b1.round) (recorded : .processed b0 b1 block ∈ core.history)
    (handed : core.Handed block) : .committed b0 ∈ ((commitTwoChain setup b0 b1 >>= fun _ =>
      voteInRound setup name block) core).2.history := by
  let decided : Core := { core with
    txMempool := core.txMempool ++ [.cleanup b0.round]
    txPayloadWaiter := core.txPayloadWaiter ++ [.cleanup b0.round]
    history := core.history ++ [.committed b0] }
  have isCommitted : Action.committed b0 ∈ decided.history :=
    List.mem_append_right _ (List.mem_singleton.mpr rfl)
  have kept {last : Core}
      (steps : Relation.ReflTransGen (Step setup name Node.unrestricted) decided last) :
      core.history ⊆ last.history := fun _ inside =>
    steps_history_subset steps (List.mem_append_left _ inside)
  have unfolded : (commitTwoChain setup b0 b1 >>= fun _ => voteInRound setup name block) core =
      (commit setup b0 >>= fun _ => voteInRound setup name block) decided := by
    unfold commitTwoChain
    rw [Rounds.next_unbounded, if_pos consecutive]
    rfl
  have leads : Handler.Leads (Step setup name Node.unrestricted) (Fault setup)
      (commit setup b0 >>= fun _ => voteInRound setup name block) decided fun _ _ => True := by
    refine .bind ((commit_leads decided b0 isCommitted fun _ => trivial).weaken ?_)
    intro _ last steps _
    exact voteInRound_leads last b0 b1 block (kept steps recorded) (handed.mono (kept steps))
  rw [unfolded]
  exact (leads_keeps leads).history _ isCommitted

/-- A commit spends no vote. -/
theorem commitTwoChain_unspent {core after : Core} {b0 b1 : Block}
    (returns : commitTwoChain setup b0 b1 core = (.ok (), after)) :
    after.lastVotedRound = core.lastVotedRound := by
  unfold commitTwoChain at returns
  split at returns
  · rw [Handler.update_bind] at returns
    unfold commit at returns
    rw [Handler.read_bind] at returns
    split at returns
    · cases returns
      rfl
    · obtain ⟨collected, middle, searched, returns⟩ := Handler.bind_ok.mp returns
      cases collectAncestors_ok searched
      cases returns
      rfl
  · cases returns
    rfl

/-- A fresh block of the current round that meets the voting rule gets the vote of the core. -/
theorem voteInRound_votes {core : Core} {block : Block} (inRound : block.round = core.round)
    (fresh : core.lastVotedRound < block.round) (votable : block.Votable)
    (filled : ∀ tc, block.tc = some tc → tc.votes ≠ []) :
    .voted block ∈ (voteInRound setup name block core).2.history := by
  let voted := (core.increaseLastVotedRound block.round).record (.voted block)
  have recorded : .voted block ∈ voted.history :=
    List.mem_append_right _ (List.mem_singleton.mpr rfl)
  obtain ⟨rule2, decided⟩ := safetyRule2_returns core filled
  have allowed : rule2 = true := (safetyRule2_ok decided).2.mpr votable
  have made : makeVote setup name block core =
      (.ok (some (Vote.new block name (setup.sign name))), voted) := by
    unfold makeVote
    rw [Handler.read_bind]
    change Handler.bind _ _ core = _
    unfold Handler.bind
    rw [decided]
    dsimp only
    rw [if_pos ⟨fresh, allowed⟩]
    rfl
  have runs : voteInRound setup name block core =
      sendVote setup name (Vote.new block name (setup.sign name)) voted := by
    unfold voteInRound
    rw [Handler.read_bind, if_neg (not_not.mpr inRound)]
    change Handler.bind _ _ core = _
    unfold Handler.bind
    rw [made]
  have sends : Handler.Leads (Step setup name Node.unrestricted) (Fault setup)
      (sendVote setup name (Vote.new block name (setup.sign name))) voted fun _ _ => True :=
    sendVote_leads voted _ (.inr ⟨block, recorded, rfl⟩)
  rw [runs]
  exact (leads_keeps sends).history _ recorded

/-- The core is not past the round of the block, has not spent its vote, and has the parent. -/
structure Welcomes (core : Core) (block : Block) : Prop where
  inRound : core.round ≤ block.round
  fresh : core.lastVotedRound < block.round
  rooted : core.Rooted block

end Core

namespace System.Safe

variable {system : System} {nodes : PublicKey → Node} (safe : System.Safe system nodes)

include safe

/-- Before the turn ends, the parent of a rooted block that is checked in it is at hand. -/
theorem parent_at_hand {name : PublicKey} {core : Core} (stocked : core.Stocked)
    {block : Block} (trusted : (nodes name).core.Trusted block) (rooted : core.Rooted block) :
    ∃ parent, system.setup.parentOf core.store block = some parent ∧
      (parent = .genesis ∨ core.Trusted parent ∧ core.Rooted parent) := by
  unfold Setup.parentOf
  cases embedded : (block.qc == QC.genesis) with
  | true => exact ⟨.genesis, rfl, .inl rfl⟩
  | false =>
      obtain ⟨value, present⟩ := Option.isSome_iff_exists.mp
        (rooted.resolve_left (by simp [embedded]))
      have kept := stocked.entries _ _ (Store.mem_of_read present)
      rw [if_neg Bool.false_ne_true, present]
      generalize isKey : block.parent = key at kept present
      cases kept with
      | batch bytes => exact absurd ⟨embedded, bytes, isKey⟩ (safe.not_fromBatch trusted)
      | block parent trusted rooted =>
          exact ⟨parent, rfl, .inr ⟨trusted, rooted⟩⟩

/-- The commit of a two-chain returns when its head is committed in a state with the same store. -/
theorem commits {name : PublicKey} {core : Core} {b0 b1 : Block}
    (sameStore : (nodes name).core.store = core.store)
    (committed : b0.round + 1 = b1.round → .committed b0 ∈ (nodes name).core.history) :
    ∃ middle, Core.commitTwoChain system.setup b0 b1 core = (.ok (), middle) ∧
      middle.store = core.store ∧ middle.innerChannel = core.innerChannel ∧
        middle.lastCommittedRound = if b0.round + 1 = b1.round
          then max core.lastCommittedRound b0.round else core.lastCommittedRound := by
  unfold Core.commitTwoChain
  rw [Rounds.next_unbounded]
  split
  · rename_i consecutive
    rw [Handler.update_bind]
    unfold Core.commit
    rw [Handler.read_bind]
    split
    · rename_i reached
      exact ⟨_, rfl, rfl, rfl, (max_eq_left reached).symm⟩
    · rename_i above
      obtain ⟨ancestors, collects, few⟩ :=
        safe.walk_collects (committed consecutive) core.lastCommittedRound
      rw [sameStore] at collects few
      let decided : Core := { core with
        txMempool := core.txMempool ++ [.cleanup b0.round]
        txPayloadWaiter := core.txPayloadWaiter ++ [.cleanup b0.round]
        history := core.history ++ [.committed b0] }
      have walked : Collects system.setup decided.store core.lastCommittedRound b0 ancestors :=
        collects
      have collected := Core.collectAncestors_collects walked _ few []
      change ∃ middle, Handler.bind _ _ decided = _ ∧ _
      unfold Handler.bind
      rw [collected]
      exact ⟨_, rfl, rfl, rfl, (max_eq_right (Nat.not_le.mp above).le).symm⟩
  · exact ⟨core, rfl, rfl, rfl, rfl⟩

/-- Then its parent and grandparent are found, and they are the blocks that the QCs certify. -/
theorem family_at_hand {name : PublicKey} {core : Core} (stocked : core.Stocked) {block : Block}
    (trusted : (nodes name).core.Trusted block) (rooted : core.Rooted block)
    (keeps : core.Keeps (nodes name).core) :
    ∃ b0 b1, system.setup.parentOf core.store block = some b1 ∧
      system.setup.parentOf core.store b1 = some b0 ∧
        b1.digest = block.parentDigest ∧ b0.digest = b1.parentDigest := by
  have certifies {child parent : Block} (trusted : (nodes name).core.Trusted child)
      (found : system.setup.parentOf core.store child = some parent) :
      parent.digest = child.parentDigest :=
    (safe.parent trusted ((stocked.parentOf found).mono keeps)).1.1
  obtain ⟨b1, parent, known⟩ := safe.parent_at_hand stocked trusted rooted
  rcases known with rfl | ⟨trusted1, rooted1⟩
  · exact ⟨.genesis, .genesis, parent, if_pos (QC.beq_iff.mpr ⟨rfl, rfl⟩),
      certifies trusted parent, genesis_parentDigest.symm⟩
  · have later := trusted1.mono keeps.history
    obtain ⟨b0, grandparent, _⟩ := safe.parent_at_hand stocked later rooted1
    exact ⟨b0, b1, parent, grandparent, certifies trusted parent, certifies later grandparent⟩

end System.Safe

namespace System

variable {system : System}

/-- In one of the turns the member came to `process_block` with the block in time. -/
def TakenInTime (system : System) (turns : List (PublicKey × Event)) (member : PublicKey)
    (block : Block) : Prop :=
  ∃ before event rest earlier start, turns = before ++ (member, event) :: rest ∧
    system.machine64.execute system.machine64.initial before = some earlier ∧
    (earlier member).Enters system.setup event block start ∧ start.Welcomes block

/-- The turn in which the member took the block up, on the way to these nodes. -/
theorem TakenInTime.turn {turns : List (PublicKey × Event)} {nodes : PublicKey → Node}
    {member : PublicKey} {block : Block} (taken : system.TakenInTime turns member block)
    (run : system.machine64.Run (fun nodes turn => system.roundsFit nodes turn = true) turns nodes) :
    ∃ earlier after event start rest, system.machine.Reachable earlier ∧
      system.machine.step earlier (member, event) = some after ∧
      system.machine.execute after rest = some nodes ∧
      (earlier member).Enters system.setup event block start ∧ start.Welcomes block := by
  obtain ⟨before, event, rest, earlier, start, rfl, executed, enters, welcomes⟩ := taken
  obtain ⟨reached, former, -⟩ := run.split
  cases Option.some.inj (executed.symm.trans former.executed)
  have unbounded := (run64 fun _ _ => id).mp former
  obtain ⟨middle, before, latter⟩ := ((run64 fun _ _ => id).mp run).split
  cases Option.some.inj (unbounded.executed.symm.trans before.executed)
  rw [Machine.execute, Option.bind_eq_some_iff] at latter
  obtain ⟨after, steps, last⟩ := latter
  exact ⟨earlier, after, event, start, rest, unbounded.reachable, steps, last, enters, welcomes⟩

/-- Where the parent is at hand, the commit of `process_block` is done before the vote is cast. -/
theorem Safe.takes {nodes : PublicKey → Node} (safe : System.Safe system nodes) {start : Core}
    {block : Block} (regular : start.Regular system.setup name)
    (handed : (.accepted block ∈ start.history ∧
      ∀ digest ∈ block.payload, (start.store.read digest).isSome) ∨
      .resumed block ∈ start.history) (rooted : start.Rooted block)
    (result : (Core.processBlock system.setup name block start).2 = (nodes name).core) :
    ∃ (b0 b1 : Block) (middle : Core), b1.digest = block.parentDigest ∧
      b0.digest = b1.parentDigest ∧
      middle.round = start.round ∧ middle.lastVotedRound = start.lastVotedRound ∧
      (Core.voteInRound system.setup name block middle).2 = (nodes name).core ∧
      (b0.round + 1 = b1.round → .committed b0 ∈ (nodes name).core.history ∧
        b0.round ≤ (nodes name).core.lastCommittedRound) := by
  have isHanded : start.Handed block := handed.imp_left And.left
  have keeps : start.Keeps (nodes name).core := by
    have leads : Handler.Leads (Core.Step system.setup name Node.unrestricted)
        (Core.Fault system.setup) (Core.processBlock system.setup name block) start
          fun _ _ => True :=
      Core.processBlock_leads start block handed fun _ _ _ _ => trivial
    rw [← result]
    exact Core.leads_keeps leads
  have trusted := (regular.tracked.handed isHanded).mono keeps.history
  obtain ⟨b0, b1, parent, grandparent, isParent, isGrandparent⟩ :=
    safe.family_at_hand regular.stocked trusted rooted keeps
  rw [Core.processBlock_found parent grandparent] at result
  let processed := (start.storeBlock block).cleanupProposer b0 b1 block
  have searches : processed.Searches (nodes name).core := by
    rw [← result]
    exact Handler.Frames.bind (Core.commitTwoChain_searches system.setup b0 b1)
      (fun _ => (Core.voteInRound_ledger system.setup name block).weaken fun _ _ same =>
        same.searches) processed
  have committed (consecutive : b0.round + 1 = b1.round) :
      .committed b0 ∈ (nodes name).core.history := by
    rw [← result]
    refine Core.commitTwoChain_recorded consecutive
      (List.mem_append_right _ (List.mem_singleton.mpr rfl)) (isHanded.mono fun action inside => ?_)
    exact List.mem_append_left _ inside
  obtain ⟨middle, runs, _⟩ := safe.commits searches.store committed
  have votes : (Core.voteInRound system.setup name block middle).2 = (nodes name).core := by
    rw [← result]
    change _ = (Handler.bind _ _ processed).2
    unfold Handler.bind
    rw [runs]
  obtain ⟨_, sameRound, covered⟩ := Core.commitTwoChain_ok runs
  have unspent : middle.lastVotedRound = processed.lastVotedRound :=
    Core.commitTwoChain_unspent runs
  refine ⟨b0, b1, middle, isParent, isGrandparent, sameRound, unspent, votes,
    fun consecutive => ⟨committed consecutive, ?_⟩⟩
  have same : middle.SameLedger (nodes name).core := by
    rw [← votes]
    exact Core.voteInRound_ledger system.setup name block middle
  rw [same.lastCommittedRound]
  exact covered consecutive

/-- What every turn only adds to holds at the end of a run if it holds on the way. -/
theorem keeps_of_execute {nodes later : PublicKey → Node} {turns : List (PublicKey × Event)}
    (reachable : system.machine.Reachable nodes)
    (executed : system.machine.execute nodes turns = some later) (member : PublicKey) :
    (∀ action ∈ (nodes member).core.history, action ∈ (later member).core.history) ∧
      (nodes member).core.lastCommittedRound ≤ (later member).core.lastCommittedRound := by
  let invariant (last : PublicKey → Node) : Prop := system.machine.Reachable last ∧
    (∀ action ∈ (nodes member).core.history, action ∈ (last member).core.history) ∧
      (nodes member).core.lastCommittedRound ≤ (last member).core.lastCommittedRound
  refine (Machine.execute_preserves invariant ?_ ⟨reachable, fun _ => id, le_rfl⟩ executed).2
  rintro last turn after ⟨reached, kept, above⟩ steps
  have turned := step_turned steps
  have sound := Node.reachable_sound (reachable_node reached turn.1)
  refine ⟨reached.next steps, fun action inside =>
    turned.keeps sound member action (kept action inside), above.trans ?_⟩
  by_cases same : member = turn.1
  · subst same
    exact (Node.step_turn turned.steps).core_preserve
      (fun core => (last turn.1).core.lastCommittedRound ≤ core.lastCommittedRound) sound
      (Node.permits_unrestricted _ _) le_rfl
      (fun _ _ step below => below.trans step.monotone.2.2.2)
      fun _ _ fault below => by rwa [fault.same]
  · rw [turned.others member same]

/-- A member that took the block up in time voted for it, and it committed the head of the two-chain
below it. -/
theorem TakenInTime.outcome {turns : List (PublicKey × Event)} {nodes : PublicKey → Node}
    {member : PublicKey} {block : Block} (taken : system.TakenInTime turns member block)
    (run : system.machine64.Run (fun nodes turn => system.roundsFit nodes turn = true) turns nodes)
    (collisionFree : CollisionFree)
    (few : 3 * system.faultyStake < system.setup.committee.totalVotes)
    (small : 2 * system.setup.committee.totalVotes < 2 ^ 32) :
    (block.verify system.setup.committee = .ok () → block.Votable →
      .voted block ∈ (nodes member).core.history) ∧
    ∃ b0 b1 : Block, b1.digest = block.parentDigest ∧ b0.digest = b1.parentDigest ∧
      (b0.round + 1 = b1.round → .committed b0 ∈ (nodes member).core.history ∧
        b0.round ≤ (nodes member).core.lastCommittedRound) := by
  obtain ⟨earlier, after, event, start, rest, reachable, steps, executed, enters, welcomes⟩ :=
    taken.turn run
  have reachableAfter := reachable.next steps
  have safe : System.Safe system after := ⟨collisionFree, few, small, reachableAfter⟩
  have turn := Node.step_turn (step_turned steps).steps
  obtain ⟨regular, timed, handed⟩ :=
    enters.regular (reachable_node reachable member) (enters.running turn)
  obtain ⟨b0, b1, middle, isParent, isGrandparent, sameRound, unspent, votes, commits⟩ :=
    safe.takes regular handed welcomes.rooted (enters.processed turn).symm
  obtain ⟨kept, above⟩ := keeps_of_execute reachableAfter executed member
  refine ⟨fun verified votable => kept _ ?_, b0, b1, isParent, isGrandparent,
    fun consecutive => ?_⟩
  · have trusted := regular.tracked.handed (handed.imp_left And.left)
    have reached := regular.tracked.votable_reached timed trusted votable
    have inRound : block.round = middle.round :=
      (le_antisymm reached welcomes.inRound).trans sameRound.symm
    have fresh : middle.lastVotedRound < block.round := unspent ▸ welcomes.fresh
    rw [← votes]
    exact Core.voteInRound_votes inRound fresh votable fun tc carried =>
      TC.votes_ne_nil ((Block.verify_ok.mp verified).2.2.2.1 tc carried)
  · obtain ⟨committed, reached⟩ := commits consecutive
    exact ⟨kept _ committed, reached.trans above⟩

/-- A block that all honest members took up in time, with the votes that reached the next leader. -/
structure GoodRound (system : System) (turns : List (PublicKey × Event))
    (nodes : PublicKey → Node) (block : Block) : Prop where
  verified : block.verify system.setup.committee = .ok ()
  votable : block.Votable
  taken : ∀ member, system.honest member = true → system.TakenInTime turns member block
  votes : ∀ member, system.honest member = true →
    member ≠ system.setup.committee.getLeader (block.round + 1) →
      .received (.vote (Vote.new block member (system.setup.sign member))) ∈
        (nodes (system.setup.committee.getLeader (block.round + 1))).core.history

end System

/-- While the rounds fit `u64`, in a good round all honest members vote for the block and the next
leader passes the round. The block of a third good round commits the first one at every honest
member. -/
theorem good_rounds (collisionFree : CollisionFree) (system : System)
    (few : 3 * system.faultyStake < system.setup.committee.totalVotes)
    (small : 2 * system.setup.committee.totalVotes < 2 ^ 32)
    (turns : List (PublicKey × Event)) (nodes : PublicKey → Node)
    (run : system.machine64.Run (fun nodes turn => system.roundsFit nodes turn = true) turns nodes)
    (block : Block) (good : system.GoodRound turns nodes block) :
    (∀ member, system.honest member = true → .voted block ∈ (nodes member).core.history) ∧
    block.round < (nodes (system.setup.committee.getLeader (block.round + 1))).core.round ∧
    ∀ b0 b1 : Block, b1.digest = block.parentDigest → b0.digest = b1.parentDigest →
      b0.round + 1 = b1.round → ∀ member, system.honest member = true →
        b0.round ≤ (nodes member).core.lastCommittedRound ∧
          ∃ copy, copy.digest = b0.digest ∧ .committed copy ∈ (nodes member).core.history := by
  have voted (member : PublicKey) (honest : system.honest member = true) :
      .voted block ∈ (nodes member).core.history :=
    ((good.taken member honest).outcome run collisionFree few small).1 good.verified good.votable
  refine ⟨voted, ?_, ?_⟩
  · have reachable := ((System.run64 fun _ _ => id).mp run).reachable
    have attentive := Node.reachable_attentive
      (System.reachable_node reachable (system.setup.committee.getLeader (block.round + 1)))
    have enough := System.electorate_quorum few small
    have heard : (nodes (system.setup.committee.getLeader (block.round + 1))).core.HeardVotes
        system.setup (system.setup.committee.getLeader (block.round + 1)) system.electorate
        block.digest block.round := by
      intro author inside
      obtain ⟨honest, rights⟩ := System.mem_electorate.mp inside
      refine ⟨Vote.new block author (system.setup.sign author), ?_,
        Vote.verify_ok.mpr ⟨rights, system.setup.sign_verifies ..⟩, rfl, rfl, rfl⟩
      by_cases leads : author = system.setup.committee.getLeader (block.round + 1)
      · rw [← leads]
        exact .inr ⟨block, voted author honest, leads.symm, rfl⟩
      · exact .inl (good.votes author honest leads)
    exact attentive.votes_pass enough heard
  · intro b0 b1 isParent isGrandparent consecutive member honest
    obtain ⟨-, c0, c1, isParent', isGrandparent', commits⟩ :=
      (good.taken member honest).outcome run collisionFree few small
    have same1 : c1.digest = b1.digest := isParent'.trans isParent.symm
    have same0 : c0.digest = b0.digest :=
      isGrandparent'.trans ((collisionFree.parentDigest same1).trans isGrandparent.symm)
    have round1 := (collisionFree.block_digest same1).2.1
    have round0 := (collisionFree.block_digest same0).2.1
    rw [← round0, ← round1] at consecutive
    obtain ⟨committed, reached⟩ := commits consecutive
    exact ⟨round0 ▸ reached, c0, same0, committed⟩

end

namespace Plain

/-- All honest members take up the third block, and two votes for it reach the next leader. -/
def goodRun : List (Nat × Event) := commitRun ++ [
  (0, .message (.propose firstBlock)), (0, .message (.propose secondBlock)),
  (0, .message (.propose thirdBlock)),
  (0, .message (.vote (voteFor thirdBlock 1))), (0, .message (.vote (voteFor thirdBlock 2)))]

/-- The core from which `process_block` would take up the third block. -/
def thirdStart (node : Node) : Core := (Core.advanceByTc thirdBlock.tc
  ((node.core.record (.received (.propose thirdBlock))).processQc thirdBlock.qc)).record
    (.accepted thirdBlock)

/-- An executable form of the condition on that core. -/
def welcomesThird (node : Node) : Bool :=
  decide ((thirdStart node).round ≤ 3 ∧ (thirdStart node).lastVotedRound < 3) &&
    ((thirdStart node).store.read thirdBlock.parent).isSome

/-- A checked part of the run hands the third block to the member in time. -/
theorem taken_third (before rest : List (Nat × Event)) {member : Nat}
    (checked : ((four.machine64.execute four.machine64.initial before).map fun nodes =>
      welcomesThird (nodes member)) = some true) :
    four.TakenInTime (before ++ (member, .message (.propose thirdBlock)) :: rest) member
      thirdBlock := by
  obtain ⟨earlier, first, welcomes⟩ := Option.map_eq_some_iff.mp checked
  rw [welcomesThird, Bool.and_eq_true, decide_eq_true_eq] at welcomes
  have ready : (earlier member).core.Ready four.setup thirdBlock := by
    constructor
    · decide +kernel
    · rw [← accepts_iff]
      decide +kernel
    · intro digest inside
      cases inside
  exact ⟨before, _, rest, earlier, _, rfl, first, .proposal thirdBlock ready,
    welcomes.1.1, welcomes.1.2, .inr welcomes.2⟩

/-- The votes that a core received, by their fields. -/
def receivedVotes (core : Core) : List (List Nat × Nat × Nat × Nat × List Nat) :=
  core.history.filterMap fun action => match action with
    | .received (.vote vote) => some (vote.hash, vote.round, vote.author, vote.signature)
    | _ => none

/-- A listed vote was received. -/
theorem of_receivedVotes {core : Core} {vote : Vote}
    (inside : (vote.hash, vote.round, vote.author, vote.signature) ∈ receivedVotes core) :
    .received (.vote vote) ∈ core.history := by
  obtain ⟨action, recorded, observed⟩ := List.mem_filterMap.mp inside
  split at observed
  · rename_i other
    obtain ⟨hash, round, author, signature⟩ := other
    cases observed
    exact recorded
  · cases observed

/-- The leader of the fourth round got past the third one, and every honest member committed the
first block. -/
theorem good_rounds_thirdBlock : ∃ nodes : Nat → Node,
    four.machine64.execute four.machine64.initial goodRun = some nodes ∧
    3 < (nodes 0).core.round ∧
      ∀ member, four.honest member = true → 1 ≤ (nodes member).core.lastCommittedRound := by
  have taken : (four.machine64.execute four.machine64.initial goodRun).map (fun nodes =>
      receivedVotes (nodes (0 : Nat)).core) = some ([voteFor thirdBlock 1, voteFor thirdBlock 2].map
        fun vote => (vote.hash, vote.round, vote.author, vote.signature)) := by
    decide +kernel
  obtain ⟨nodes, executed, received⟩ := Option.map_eq_some_iff.mp taken
  have good : four.GoodRound goodRun nodes thirdBlock := by
    constructor
    · rw [← accepts_iff]
      decide +kernel
    · decide +kernel
    · intro member honest
      have inside := honest_members member honest
      simp only [List.mem_cons, List.not_mem_nil, or_false] at inside
      rcases inside with rfl | rfl | rfl
      · exact taken_third (goodRun.take 13) (goodRun.drop 14) (by decide +kernel)
      · exact taken_third (goodRun.take 9) (goodRun.drop 10) (by decide +kernel)
      · exact taken_third (goodRun.take 10) (goodRun.drop 11) (by decide +kernel)
    · intro member honest notLeader
      have leader : four.setup.committee.getLeader (thirdBlock.round + 1) = (0 : Nat) := rfl
      rw [leader] at notLeader ⊢
      apply of_receivedVotes
      rw [received]
      have inside := honest_members member honest
      simp only [List.mem_cons, List.not_mem_nil, or_false] at inside
      rcases inside with rfl | rfl | rfl
      · exact absurd rfl notLeader
      · exact List.mem_cons_self
      · exact List.mem_cons_of_mem _ List.mem_cons_self
  obtain ⟨_, passed, commits⟩ := good_rounds collisionFree four (by decide) (by decide) goodRun
    nodes (.of_execute (by decide +kernel) executed) thirdBlock good
  exact ⟨nodes, executed, passed, fun member honest =>
    (commits firstBlock secondBlock rfl rfl rfl member honest).1⟩

end Plain

end DeflHotstuff
