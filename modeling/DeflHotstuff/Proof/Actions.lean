import DeflHotstuff.Proof.CoreSteps

namespace DeflHotstuff

open Verification

variable [Crypto]

/-- A step that takes a vote out of the aggregator as a QC. -/
structure AssemblesQc (setup : Setup) (name : PublicKey) (core : Core) (vote : Vote) (qc : QC) :
    Prop where
  arrived : core.VoteArrived setup name vote
  current : core.round ≤ vote.round
  verified : vote.verify setup.committee = .ok ()
  assembled : (core.aggregator.addVote vote setup.committee).1 = .ok (some qc)

/-- A step that takes a timeout out of the aggregator as a TC. -/
structure AssemblesTc (setup : Setup) (core : Core) (timeout : Timeout) (tc : TC) : Prop where
  arrived : core.TimeoutArrived timeout
  current : core.round ≤ timeout.round
  verified : timeout.verify setup.committee = .ok ()
  assembled : ((core.processQc timeout.highQc).aggregator.addTimeout timeout
    setup.committee).1 = .ok (some tc)

/-- The certificate behind a call of `advance_round` for the round. -/
inductive AdvancesBy (setup : Setup) (name : PublicKey) (around : Surroundings)
    (core after : Core) (round : Nat) : Prop
  | proposalQc (block : Block) (arrived : .received (.propose block) ∈ core.history)
      (verified : block.verify setup.committee = .ok ()) (isRound : block.qc.round = round)
  | proposalTc (block : Block) (tc : TC) (arrived : .received (.propose block) ∈ core.history)
      (verified : block.verify setup.committee = .ok ()) (carried : block.tc = some tc)
      (isRound : tc.round = round)
  | assembledQc (vote : Vote) (qc : QC) (assembles : AssemblesQc setup name core vote qc)
      (recorded : .assembledQc qc ∈ after.history) (isRound : qc.round = round)
  | timeoutQc (timeout : Timeout) (arrived : core.TimeoutArrived timeout)
      (verified : timeout.verify setup.committee = .ok ()) (isRound : timeout.highQc.round = round)
  | assembledTc (timeout : Timeout) (tc : TC) (assembles : AssemblesTc setup core timeout tc)
      (recorded : .assembledTc tc ∈ after.history) (isRound : tc.round = round)
  | takenTc (tc : TC) (arrived : .received (.tc tc) ∈ core.history)
      (admits : around.admits core tc) (isRound : tc.round = round)

/-- The trigger of a proposal request. -/
inductive MakesBy (setup : Setup) (name : PublicKey) (around : Surroundings)
    (core after : Core) : Nat → QC → Option TC → Prop
  | assembledQc (vote : Vote) (qc : QC) (assembles : AssemblesQc setup name core vote qc)
      (recorded : .assembledQc qc ∈ after.history) :
      MakesBy setup name around core after (core.processQc qc).round (core.processQc qc).highQc none
  | assembledTc (timeout : Timeout) (tc : TC) (assembles : AssemblesTc setup core timeout tc)
      (recorded : .assembledTc tc ∈ after.history) :
      MakesBy setup name around core after
        ((core.processQc timeout.highQc).advanceRound tc.round).round
        (core.processQc timeout.highQc).highQc (some tc)
  | takenTc (tc : TC) (arrived : .received (.tc tc) ∈ core.history)
      (admits : around.admits core tc) :
      MakesBy setup name around core after (core.advanceRound tc.round).round core.highQc (some tc)

/-- What the code checked before the step that records the action. -/
def Core.Caused (setup : Setup) (name : PublicKey) (around : Surroundings) (core after : Core) :
    Action → Prop
  | .received message => around.arrives message
  | .resumed block => core.Trusted block ∧ around.resumes core block
  | .accepted block => .received (.propose block) ∈ core.history ∧
      block.author = setup.committee.getLeader block.round ∧
      block.verify setup.committee = .ok () ∧
      block.qc.round < after.round ∧ block.qc.round ≤ after.highQc.round
  | .processed b0 b1 block =>
      ((.accepted block ∈ core.history ∧
        ∀ digest ∈ block.payload, (core.store.read digest).isSome) ∨
        .resumed block ∈ core.history) ∧
      setup.parentOf core.store block = some b1 ∧ setup.parentOf core.store b1 = some b0
  | .committed b0 => ∃ b1 block, .processed b0 b1 block ∈ core.history ∧ b0.round + 1 = b1.round
  | .voted block => (∃ b0 b1, .processed b0 b1 block ∈ core.history) ∧ core.Handed block ∧
      block.round = core.round ∧ core.lastVotedRound < block.round ∧ block.Votable ∧
      after.lastVotedRound = block.round
  | .expired timeout => timeout = Timeout.new core.highQc core.round name (setup.sign name) ∧
      after.lastVotedRound = max core.lastVotedRound core.round
  | .assembledQc qc => ∃ vote, AssemblesQc setup name core vote qc
  | .assembledTc tc => ∃ timeout, AssemblesTc setup core timeout tc
  | .advanced round => core.round ≤ round ∧ AdvancesBy setup name around core after round
  | .made round qc tc => name = setup.committee.getLeader round ∧
      MakesBy setup name around core after round qc tc ∧ round = after.round ∧
      qc = after.highQc
  | .announced digest => around.announces core digest
  | .cleaned digests => around.proposing ∧
      ∃ sent rest, core.txProposer = ⟨sent, .cleanup digests⟩ :: rest
  | .built sent qc tc block => around.proposing ∧ ∃ round payload rest,
      core.txProposer = ⟨sent, .make round qc tc⟩ :: rest ∧
      block = Block.new qc tc name round payload (setup.sign name) ∧
      (tc = none → 5 < round → payload ≠ [])

namespace Core

variable {setup : Setup} {name : PublicKey} {around : Surroundings} {core after : Core}

/-- The record only grows. -/
theorem Step.history_prefix (step : Step setup name around core after) :
    core.history <+: after.history := by
  cases step <;>
    simp [advanceByTc_history, processQc_history, advanceRound_history, proposeAsLeader_history,
      broadcast_eq, cleanupProposer, storeBlock, sendProposer, increaseLastVotedRound,
      List.append_assoc]

/-- What was recorded stays recorded. -/
theorem Step.history_subset (step : Step setup name around core after) {action : Action}
    (inside : action ∈ core.history) : action ∈ after.history :=
  step.history_prefix.subset inside

/-- The three round counters and the round of the high QC never decrease. -/
theorem Step.monotone (step : Step setup name around core after) :
    core.round ≤ after.round ∧ core.highQc.round ≤ after.highQc.round ∧
      core.lastVotedRound ≤ after.lastVotedRound ∧
      core.lastCommittedRound ≤ after.lastCommittedRound := by
  have sameBooks {after : Core} (books : SameBooks core after) (round : core.round ≤ after.round)
      (highQc : core.highQc.round ≤ after.highQc.round) :
      core.round ≤ after.round ∧ core.highQc.round ≤ after.highQc.round ∧
        core.lastVotedRound ≤ after.lastVotedRound ∧
        core.lastCommittedRound ≤ after.lastCommittedRound :=
    ⟨round, highQc, books.lastVotedRound.ge, books.lastCommittedRound.ge⟩
  cases step with
  | accept block =>
      apply sameBooks (accept_books ..)
      · rw [record_round, advanceByTc_round, processQc_round]
        omega
      · rw [record_highQc, advanceByTc_highQc, processQc_highQc_round]
        omega
  | commit block ancestors decided commits above => exact ⟨le_rfl, le_rfl, le_rfl, above.le⟩
  | vote b0 b1 block => exact ⟨le_rfl, le_rfl, le_max_left _ _, le_rfl⟩
  | assembleQc vote qc =>
      apply sameBooks (assembleQc_books ..)
      · rw [(proposeAsLeader_same ..).1, processQc_round, record_round, setAggregator_round]
        omega
      · rw [(proposeAsLeader_same ..).2.1, processQc_highQc_round, record_highQc,
          setAggregator_highQc]
        omega
  | expire timeout => exact ⟨le_rfl, le_rfl, le_max_left _ _, le_rfl⟩
  | collectTimeout timeout =>
      apply sameBooks (collectTimeout_books ..)
      · rw [setAggregator_round, processQc_round]
        omega
      · rw [setAggregator_highQc, processQc_highQc_round]
        omega
  | assembleTc timeout tc =>
      apply sameBooks (assembleTc_books ..)
      · rw [(proposeAsLeader_same ..).1, broadcast_eq, sendTo_round, advanceRound_round,
          record_round, setAggregator_round, processQc_round]
        omega
      · rw [(proposeAsLeader_same ..).2.1, broadcast_eq, sendTo_highQc, advanceRound_highQc,
          record_highQc, setAggregator_highQc, processQc_highQc_round]
        omega
  | takeTc tc =>
      apply sameBooks (takeTc_books ..)
      · rw [(proposeAsLeader_same ..).1, advanceRound_round]
        omega
      · rw [(proposeAsLeader_same ..).2.1, advanceRound_highQc]
  | _ => exact ⟨le_rfl, le_rfl, le_rfl, le_rfl⟩

/-- An element of a list with one more entry is old or the new entry. -/
theorem mem_history_append {actions : List Action} {new action : Action}
    (inside : action ∈ actions ++ [new]) : action ∈ actions ∨ action = new := by
  simpa using inside

/-- The rounds that `advance_round` records carry its argument. -/
theorem mem_advanceRound {action : Action} {round : Nat}
    (inside : action ∈ (core.advanceRound round).history) :
    action ∈ core.history ∨ (core.round ≤ round ∧ action = .advanced round) := by
  rw [advanceRound_history] at inside
  split at inside
  · exact .inl (by simpa using inside)
  · rename_i reached
    exact (mem_history_append inside).imp_right fun same => ⟨Nat.not_lt.mp reached, same⟩

/-- A call of `process_qc` records at most that the round advanced. -/
theorem mem_processQc {action : Action} {qc : QC} (inside : action ∈ (core.processQc qc).history) :
    action ∈ core.history ∨ (core.round ≤ qc.round ∧ action = .advanced qc.round) := by
  rw [processQc_history, ← advanceRound_history] at inside
  exact mem_advanceRound inside

/-- The TC of a block records at most that the round advanced. -/
theorem mem_advanceByTc {action : Action} {tc : Option TC}
    (inside : action ∈ (advanceByTc tc core).history) :
    action ∈ core.history ∨ ∃ carried, tc = some carried ∧ core.round ≤ carried.round ∧
      action = .advanced carried.round := by
  cases tc with
  | none => exact .inl inside
  | some carried => exact (mem_advanceRound inside).imp_right fun new => ⟨carried, rfl, new⟩

/-- The proposal request that a leader records carries its round, its QC and the TC. -/
theorem mem_proposeAsLeader {action : Action} {tc : Option TC}
    (inside : action ∈ (proposeAsLeader setup name tc core).history) :
    action ∈ core.history ∨ (name = setup.committee.getLeader core.round ∧
      action = .made core.round core.highQc tc) := by
  rw [proposeAsLeader_history] at inside
  split at inside
  · rename_i leader
    exact (mem_history_append inside).imp_right fun same => ⟨leader, same⟩
  · exact .inl (by simpa using inside)

/-- The round and the high QC with which a leader proposes on a QC that it assembled. -/
theorem assembleQc_proposes (core : Core) (aggregator : Aggregator) (qc : QC) :
    (((core.setAggregator aggregator).record (.assembledQc qc)).processQc qc).round =
        (core.processQc qc).round ∧
      (((core.setAggregator aggregator).record (.assembledQc qc)).processQc qc).highQc =
        (core.processQc qc).highQc := by
  rw [processQc_round, processQc_round, processQc_highQc, processQc_highQc]
  exact ⟨rfl, rfl⟩

/-- The round and the high QC with which a leader proposes on a TC that it assembled. -/
theorem assembleTc_proposes (setup : Setup) (name : PublicKey) (core : Core)
    (aggregator : Aggregator) (tc : TC) :
    (broadcast setup name (.tc tc) (((core.setAggregator aggregator).record
          (.assembledTc tc)).advanceRound tc.round)).round = (core.advanceRound tc.round).round ∧
      (broadcast setup name (.tc tc) (((core.setAggregator aggregator).record
          (.assembledTc tc)).advanceRound tc.round)).highQc = core.highQc := by
  rw [broadcast_eq, sendTo_round, sendTo_highQc, advanceRound_round, advanceRound_round,
    advanceRound_highQc]
  exact ⟨rfl, rfl⟩

/-- Every action that a step records has passed the checks of the code. -/
theorem Step.new_action (step : Step setup name around core after) {action : Action}
    (inside : action ∈ after.history) :
    action ∈ core.history ∨ Caused setup name around core after action := by
  cases step with
  | receive message arrives =>
      obtain old | rfl := mem_history_append inside
      · exact .inl old
      · exact .inr arrives
  | resume block trusted resumes =>
      obtain old | rfl := mem_history_append inside
      · exact .inl old
      · exact .inr ⟨trusted, resumes⟩
  | suspend block handed => exact .inl inside
  | accept block arrived leader verified =>
      obtain old | rfl := mem_history_append inside
      · obtain old | ⟨tc, carried, reached, rfl⟩ := mem_advanceByTc old
        · obtain old | ⟨reached, rfl⟩ := mem_processQc old
          · exact .inl old
          · exact .inr ⟨reached, .proposalQc block arrived verified rfl⟩
        · rw [processQc_round] at reached
          exact .inr ⟨by omega, .proposalTc block tc arrived verified carried rfl⟩
      · refine .inr ⟨arrived, leader, verified, ?_, ?_⟩
        · rw [record_round, advanceByTc_round, processQc_round]
          omega
        · rw [record_highQc, advanceByTc_highQc, processQc_highQc_round]
          omega
  | awaitPayload block missing => exact .inl inside
  | process b0 b1 block handed parent grandparent =>
      obtain old | rfl := mem_history_append inside
      · exact .inl old
      · exact .inr ⟨handed, parent, grandparent⟩
  | decide b0 b1 block processed consecutive =>
      obtain old | rfl := mem_history_append inside
      · exact .inl old
      · exact .inr ⟨b1, block, processed, consecutive⟩
  | commit block => exact .inl inside
  | vote b0 b1 block processed handed inRound fresh votable =>
      obtain old | rfl := mem_history_append inside
      · exact .inl old
      · refine .inr ⟨⟨b0, b1, processed⟩, handed, inRound, fresh, votable, ?_⟩
        change max core.lastVotedRound block.round = block.round
        omega
  | send addresses message => exact .inl inside
  | collectVote vote => exact .inl inside
  | assembleQc vote qc arrived current verified assembled =>
      have assembles : AssemblesQc setup name core vote qc := ⟨arrived, current, verified, assembled⟩
      have recorded : .assembledQc qc ∈ (proposeAsLeader setup name none
          (((core.setAggregator (core.aggregator.addVote vote setup.committee).2).record
            (.assembledQc qc)).processQc qc)).history := by
        rw [proposeAsLeader_history, processQc_history]
        simp
      obtain old | ⟨leader, rfl⟩ := mem_proposeAsLeader inside
      · obtain old | ⟨reached, rfl⟩ := mem_processQc old
        · obtain old | rfl := mem_history_append old
          · exact .inl old
          · exact .inr ⟨vote, assembles⟩
        · exact .inr ⟨reached, .assembledQc vote qc assembles recorded rfl⟩
      · obtain ⟨sameRound, sameQc⟩ := assembleQc_proposes core
          (core.aggregator.addVote vote setup.committee).2 qc
        refine .inr ⟨leader, ?_, (proposeAsLeader_same ..).1.symm,
          (proposeAsLeader_same ..).2.1.symm⟩
        rw [sameRound, sameQc]
        exact .assembledQc vote qc assembles recorded
  | expire timeout isNew =>
      obtain old | rfl := mem_history_append inside
      · exact .inl old
      · exact .inr ⟨isNew, rfl⟩
  | collectTimeout timeout arrived current verified =>
      obtain old | ⟨reached, rfl⟩ := mem_processQc inside
      · exact .inl old
      · exact .inr ⟨reached, .timeoutQc timeout arrived verified rfl⟩
  | assembleTc timeout tc arrived current verified assembled =>
      have assembles : AssemblesTc setup core timeout tc := ⟨arrived, current, verified, assembled⟩
      have recorded : .assembledTc tc ∈ (proposeAsLeader setup name (some tc)
          (broadcast setup name (.tc tc) ((((core.processQc timeout.highQc).setAggregator
            ((core.processQc timeout.highQc).aggregator.addTimeout timeout
              setup.committee).2).record (.assembledTc tc)).advanceRound tc.round))).history := by
        rw [proposeAsLeader_history, broadcast_eq, sendTo_history, advanceRound_history]
        simp
      obtain old | ⟨leader, rfl⟩ := mem_proposeAsLeader inside
      · rw [broadcast_eq, sendTo_history] at old
        obtain old | ⟨reached, rfl⟩ := mem_advanceRound old
        · obtain old | rfl := mem_history_append old
          · obtain old | ⟨reached, rfl⟩ := mem_processQc old
            · exact .inl old
            · exact .inr ⟨reached, .timeoutQc timeout arrived verified rfl⟩
          · exact .inr ⟨timeout, assembles⟩
        · rw [record_round, setAggregator_round, processQc_round] at reached
          exact .inr ⟨by omega, .assembledTc timeout tc assembles recorded rfl⟩
      · obtain ⟨sameRound, sameQc⟩ := assembleTc_proposes setup name
          (core.processQc timeout.highQc)
          ((core.processQc timeout.highQc).aggregator.addTimeout timeout setup.committee).2 tc
        refine .inr ⟨leader, ?_, (proposeAsLeader_same ..).1.symm,
          (proposeAsLeader_same ..).2.1.symm⟩
        rw [sameRound, sameQc]
        exact .assembledTc timeout tc assembles recorded
  | takeTc tc arrived admits =>
      obtain old | ⟨leader, rfl⟩ := mem_proposeAsLeader inside
      · obtain old | ⟨reached, rfl⟩ := mem_advanceRound old
        · exact .inl old
        · exact .inr ⟨reached, .takenTc tc arrived admits rfl⟩
      · refine .inr ⟨leader, ?_, (proposeAsLeader_same ..).1.symm,
          (proposeAsLeader_same ..).2.1.symm⟩
        rw [advanceRound_highQc]
        exact .takenTc tc arrived admits
  | announce digest announces =>
      obtain old | rfl := mem_history_append inside
      · exact .inl old
      · exact .inr announces
  | clean sent digests rest proposing next =>
      obtain old | rfl := mem_history_append inside
      · exact .inl old
      · exact .inr ⟨proposing, sent, rest, next⟩
  | skip sent round qc rest proposing next => exact .inl inside
  | build sent round qc tc rest payload proposing next full =>
      obtain old | rfl := mem_history_append inside
      · exact .inl old
      · exact .inr ⟨proposing, round, payload, rest, next, rfl, full⟩
  | awaited message rest next => exact .inl inside
  | suspended block rest next => exact .inl inside
  | storeBatch bytes => exact .inl inside

end Core

end DeflHotstuff
