import DeflHotstuff.Proof.Effects
import DeflHotstuff.Proof.NodeSteps

namespace DeflHotstuff

open Verification

variable [Crypto] {setup : Setup} {name : PublicKey} {around : Surroundings}

namespace Core

/-- The QCs that the core handled are below its round and covered by its high QC,
and each own block goes back to a proposal request. -/
structure Tracked (name : PublicKey) (core : Core) : Prop where
  highQc : core.highQc.round < core.round
  resumed : ∀ block, .resumed block ∈ core.history → core.Trusted block
  accepted : ∀ block, .accepted block ∈ core.history →
    block.qc.round < core.round ∧ block.qc.round ≤ core.highQc.round
  expired : ∀ timeout, .expired timeout ∈ core.history → timeout.highQc.round < core.round
  made : ∀ round qc tc, .made round qc tc ∈ core.history →
    round ≤ core.round ∧ qc.round < round ∧ qc.round ≤ core.highQc.round
  queued : ∀ sent round qc tc, ⟨sent, .make round qc tc⟩ ∈ core.txProposer →
    .made round qc tc ∈ core.history
  built : ∀ sent qc tc block, .built sent qc tc block ∈ core.history →
    block.author = name ∧ block.qc = qc ∧ block.tc = tc ∧ .made block.round qc tc ∈ core.history

/-- The QC of a checked or own block is below the round and covered by the high QC. -/
theorem Tracked.trusted {core : Core} (tracked : core.Tracked name) {block : Block}
    (trusted : core.Trusted block) :
    block.qc.round < core.round ∧ block.qc.round ≤ core.highQc.round := by
  rcases trusted with accepted | ⟨sent, qc, tc, built⟩
  · exact tracked.accepted block accepted
  · obtain ⟨_, rfl, _, made⟩ := tracked.built sent qc tc block built
    have bounds := tracked.made block.round block.qc tc made
    omega

/-- A block that the core handles was checked or built here. -/
theorem Tracked.handed {core : Core} (tracked : core.Tracked name) {block : Block}
    (handed : core.Handed block) : core.Trusted block :=
  handed.elim .inl (tracked.resumed block)

/-- The rounds of the core cover every QC that a step takes up. -/
theorem Step.highQc_below {core after : Core} (step : Step setup name around core after)
    (below : core.highQc.round < core.round) : after.highQc.round < after.round := by
  cases step with
  | accept block =>
      rw [record_round, record_highQc, advanceByTc_round, advanceByTc_highQc, processQc_round,
        processQc_highQc_round]
      omega
  | assembleQc vote qc =>
      rw [(proposeAsLeader_same ..).1, (proposeAsLeader_same ..).2.1, processQc_round,
        processQc_highQc_round, record_round, record_highQc, setAggregator_round,
        setAggregator_highQc]
      omega
  | collectTimeout timeout =>
      rw [setAggregator_round, setAggregator_highQc, processQc_round, processQc_highQc_round]
      omega
  | assembleTc timeout tc =>
      rw [(proposeAsLeader_same ..).1, (proposeAsLeader_same ..).2.1, broadcast_eq, sendTo_round,
        sendTo_highQc, advanceRound_round, advanceRound_highQc, record_round, record_highQc,
        setAggregator_round, setAggregator_highQc, processQc_round, processQc_highQc_round]
      omega
  | takeTc tc =>
      rw [(proposeAsLeader_same ..).1, (proposeAsLeader_same ..).2.1, advanceRound_round,
        advanceRound_highQc]
      omega
  | _ => exact below

/-- Every request in the proposer channel is on record. -/
theorem Step.queued_made {core after : Core} (step : Step setup name around core after)
    (queued : ∀ sent round qc tc, ⟨sent, .make round qc tc⟩ ∈ core.txProposer →
      .made round qc tc ∈ core.history) (sent round : Nat) (qc : QC) (tc : Option TC)
    (inside : ⟨sent, .make round qc tc⟩ ∈ after.txProposer) :
    .made round qc tc ∈ after.history := by
  have keeps : Action.made round qc tc ∈ core.history → _ ∈ after.history := step.history_subset
  cases step.effect with
  | quiet new silent grown same => exact keeps (queued _ _ _ _ (same ▸ inside))
  | votes block grown same => exact keeps (queued _ _ _ _ (same ▸ inside))
  | asks new qc' tc' silent grown sentMessage leader makes =>
      rw [sentMessage] at inside
      rcases List.mem_append.mp inside with old | asked
      · exact keeps (queued _ _ _ _ old)
      · cases List.mem_singleton.mp asked
        rw [grown]
        exact List.mem_append_right _ (List.mem_singleton.mpr rfl)
  | processes b0 b1 block grown sentMessage =>
      rw [sentMessage] at inside
      rcases List.mem_append.mp inside with old | asked
      · exact keeps (queued _ _ _ _ old)
      · cases List.mem_singleton.mp asked
  | cleans _ _ _ next => exact keeps (queued _ _ _ _ (next ▸ List.mem_cons_of_mem _ inside))
  | skips _ _ _ _ next => exact keeps (queued _ _ _ _ (next ▸ List.mem_cons_of_mem _ inside))
  | builds _ _ _ _ _ _ _ next => exact keeps (queued _ _ _ _ (next ▸ List.mem_cons_of_mem _ inside))

/-- A step keeps the rounds of the certificates below the one of the core. -/
theorem Step.tracked {core after : Core} (step : Step setup name around core after)
    (tracked : core.Tracked name) : after.Tracked name := by
  have keeps : ∀ action ∈ core.history, action ∈ after.history := fun _ => step.history_subset
  obtain ⟨round, highQc, _, _⟩ := step.monotone
  have below := step.highQc_below tracked.highQc
  constructor
  · exact below
  · intro block resumed
    obtain old | trusted := step.new_action resumed
    · exact (tracked.resumed block old).mono keeps
    · exact Trusted.mono trusted.1 keeps
  · intro block accepted
    obtain old | ⟨_, _, _, cause⟩ := step.new_action accepted
    · have bounds := tracked.accepted block old
      omega
    · exact cause
  · intro timeout expired
    obtain old | ⟨rfl, _⟩ := step.new_action expired
    · exact (tracked.expired timeout old).trans_le round
    · exact tracked.highQc.trans_le round
  · intro made qc tc inside
    obtain old | ⟨_, _, rfl, rfl⟩ := step.new_action inside
    · have bounds := tracked.made made qc tc old
      omega
    · exact ⟨le_rfl, below, le_rfl⟩
  · exact step.queued_made tracked.queued
  · intro sent qc tc block built
    obtain old | ⟨_, made, payload, rest, next, rfl, _⟩ := step.new_action built
    · obtain ⟨author, isQc, isTc, made⟩ := tracked.built sent qc tc block old
      exact ⟨author, isQc, isTc, keeps _ made⟩
    · refine ⟨rfl, rfl, rfl, keeps _ (tracked.queued sent made qc tc ?_)⟩
      rw [next]
      exact List.mem_cons_self ..

/-- A faulty step of the core keeps what does not speak about the inner channel. -/
theorem Fault.tracked {core after : Core} (fault : Fault setup core after)
    (tracked : core.Tracked name) : after.Tracked name := by
  cases fault <;> exact { tracked with }

/-- The record of a fresh core holds at most its request for the first block. -/
theorem mem_boot {action : Action} (inside : action ∈ (boot setup name).history) :
    action = .made 1 .genesis none ∧ name = setup.committee.getLeader 1 := by
  unfold boot at inside
  obtain old | ⟨leader, rfl⟩ := mem_proposeAsLeader inside
  · cases old
  · exact ⟨rfl, leader⟩

/-- At boot only the first request is on record. -/
theorem boot_tracked : (boot setup name).Tracked name := by
  have same := proposeAsLeader_same setup name .new none
  have isRound : (boot setup name).round = 1 := same.1
  have isHighQc : (boot setup name).highQc = .genesis := same.2.1
  constructor
  · rw [isRound, isHighQc]
    exact Nat.one_pos
  · intro block inside
    cases (mem_boot inside).1
  · intro block inside
    cases (mem_boot inside).1
  · intro timeout inside
    cases (mem_boot inside).1
  · intro round qc tc inside
    cases (mem_boot inside).1
    rw [isRound, isHighQc]
    exact ⟨le_rfl, Nat.one_pos, le_rfl⟩
  · intro sent round qc tc inside
    unfold boot at inside ⊢
    rw [proposeAsLeader_txProposer] at inside
    rw [proposeAsLeader_history]
    split at inside
    · rename_i leader
      rw [if_pos leader]
      cases List.mem_singleton.mp inside
      exact List.mem_singleton.mpr rfl
    · cases inside
  · intro sent qc tc block inside
    cases (mem_boot inside).1

/-- The core votes once a round, never after its timeout, and never against its lock. -/
structure Disciplined (core : Core) : Prop where
  voted : ∀ block, .voted block ∈ core.history → block.round ≤ core.lastVotedRound ∧
    block.round ≤ core.round ∧ block.qc.round < block.round ∧ block.Votable ∧ core.Trusted block
  once : ∀ block other, .voted block ∈ core.history → .voted other ∈ core.history →
    block.round = other.round → block = other
  expired : ∀ timeout, .expired timeout ∈ core.history → timeout.round ≤ core.lastVotedRound ∧
    ∀ block, .voted block ∈ core.history → block.round ≤ timeout.round →
      block.qc.round ≤ timeout.highQc.round
  made : ∀ round qc tc, .made round qc tc ∈ core.history →
    ∀ block, .voted block ∈ core.history → block.round < round → block.qc.round ≤ qc.round

/-- One step records at most one vote. -/
theorem Step.voted_once {core after : Core} (step : Step setup name around core after)
    {block other : Block} (voted : .voted block ∈ after.history)
    (fresh : .voted block ∉ core.history) (voted' : .voted other ∈ after.history)
    (fresh' : .voted other ∉ core.history) : block = other := by
  have only (new : List Action) (grown : after.history = core.history ++ new)
      (silent : ∀ action ∈ new, ∀ block, action ≠ .voted block) : False := by
    rw [grown] at voted
    rcases List.mem_append.mp voted with old | new
    · exact fresh old
    · exact silent _ new block rfl
  have quiet {new : List Action} (silent : ∀ action ∈ new, action.Quiet) :
      ∀ action ∈ new, ∀ block, action ≠ .voted block := by
    rintro action inside block rfl
    exact silent _ inside
  cases step.effect with
  | quiet new silent grown _ => exact (only new grown (quiet silent)).elim
  | votes vote grown _ =>
      rw [grown] at voted voted'
      have first := (mem_history_append voted).resolve_left fresh
      have second := (mem_history_append voted').resolve_left fresh'
      cases first
      cases second
      rfl
  | asks new qc tc silent grown _ _ _ =>
      rw [List.append_assoc] at grown
      exact (only _ grown (List.forall_mem_append.mpr ⟨quiet silent, by simp⟩)).elim
  | processes b0 b1 vote grown _ => exact (only _ grown (by simp)).elim
  | cleans sent digests grown _ => exact (only _ grown (by simp)).elim
  | skips sent round qc same _ => exact (fresh (same ▸ voted)).elim
  | builds sent round qc tc payload full grown _ => exact (only _ grown (by simp)).elim

/-- A step keeps the order of the votes and the timeouts. -/
theorem Step.disciplined {core after : Core} (step : Step setup name around core after)
    (tracked : core.Tracked name) (disciplined : core.Disciplined) : after.Disciplined := by
  have keeps : ∀ action ∈ core.history, action ∈ after.history := fun _ => step.history_subset
  obtain ⟨round, highQc, lastVoted, _⟩ := step.monotone
  -- a vote of this step is for the current round and above every earlier vote
  have newVote {block : Block} (voted : .voted block ∈ after.history)
      (fresh : .voted block ∉ core.history) : block.round = core.round ∧
        core.lastVotedRound < block.round ∧ block.Votable ∧ core.Trusted block ∧
        block.round = after.lastVotedRound := by
    obtain ⟨_, handed, inRound, above, votable, last⟩ := (step.new_action voted).resolve_left fresh
    exact ⟨inRound, above, votable, tracked.handed handed, last.symm⟩
  have covered {block : Block} (voted : .voted block ∈ after.history) :
      block.qc.round ≤ core.highQc.round := by
    by_cases old : .voted block ∈ core.history
    · exact (tracked.trusted (disciplined.voted block old).2.2.2.2).2
    · exact (tracked.trusted (newVote voted old).2.2.2.1).2
  constructor
  · intro block voted
    by_cases old : .voted block ∈ core.history
    · obtain ⟨below, inRound, increasing, votable, trusted⟩ := disciplined.voted block old
      exact ⟨by omega, by omega, increasing, votable, trusted.mono keeps⟩
    · obtain ⟨inRound, above, votable, trusted, last⟩ := newVote voted old
      have bounds := tracked.trusted trusted
      exact ⟨by omega, by omega, by omega, votable, trusted.mono keeps⟩
  · intro block other voted voted' same
    by_cases old : .voted block ∈ core.history
    · by_cases old' : .voted other ∈ core.history
      · exact disciplined.once block other old old' same
      · have above := (newVote voted' old').2.1
        have below := (disciplined.voted block old).1
        omega
    · by_cases old' : .voted other ∈ core.history
      · have above := (newVote voted old).2.1
        have below := (disciplined.voted other old').1
        omega
      · exact step.voted_once voted old voted' old'
  · intro timeout expired
    by_cases old : .expired timeout ∈ core.history
    · obtain ⟨below, locked⟩ := disciplined.expired timeout old
      refine ⟨by omega, fun block voted within => ?_⟩
      by_cases oldVote : .voted block ∈ core.history
      · exact locked block oldVote within
      · have above := (newVote voted oldVote).2.1
        omega
    · obtain ⟨rfl, last⟩ := (step.new_action expired).resolve_left old
      refine ⟨?_, fun block voted within => covered voted⟩
      rw [last]
      exact le_max_right _ _
  · intro made qc tc inside block voted below
    by_cases old : .made made qc tc ∈ core.history
    · by_cases oldVote : .voted block ∈ core.history
      · exact disciplined.made made qc tc old block oldVote below
      · have bound := (tracked.made made qc tc old).1
        have inRound := (newVote voted oldVote).1
        omega
    · obtain ⟨_, _, _, rfl⟩ := (step.new_action inside).resolve_left old
      have bound := covered voted
      omega

/-- A panic or an endless loop signs nothing. -/
theorem Fault.disciplined {core after : Core} (fault : Fault setup core after)
    (disciplined : core.Disciplined) : after.Disciplined := by
  cases fault <;> exact { disciplined with }

/-- At boot nothing is signed. -/
theorem boot_disciplined : (boot setup name).Disciplined := by
  constructor
  · intro block inside
    cases (mem_boot inside).1
  · intro block other inside
    cases (mem_boot inside).1
  · intro timeout inside
    cases (mem_boot inside).1
  · intro round qc tc _ block inside
    cases (mem_boot inside).1

end Core

end DeflHotstuff
