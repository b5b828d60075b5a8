import DeflHotstuff.Construction.Plain
import DeflHotstuff.Proof.Overflow
import DeflHotstuff.Proof.Storage

namespace DeflHotstuff

open Verification

section

variable [Crypto] {setup : Setup} {name : PublicKey} {around : Surroundings}

namespace Core

/-- The QC came with a proposal or a timeout, or the node assembled it. -/
inductive HasQc (core : Core) : QC → Prop
  | proposal (block : Block) (received : .received (.propose block) ∈ core.history) :
      HasQc core block.qc
  | timeout (timeout : Timeout) (received : .received (.timeout timeout) ∈ core.history) :
      HasQc core timeout.highQc
  | assembled (qc : QC) (assembled : .assembledQc qc ∈ core.history) : HasQc core qc

/-- The TC came with a proposal or on its own, or the node assembled it. -/
inductive HasTc (core : Core) : TC → Prop
  | proposal (block : Block) (tc : TC) (received : .received (.propose block) ∈ core.history)
      (carried : block.tc = some tc) : HasTc core tc
  | message (tc : TC) (received : .received (.tc tc) ∈ core.history) : HasTc core tc
  | assembled (tc : TC) (assembled : .assembledTc tc ∈ core.history) : HasTc core tc

/-- The node has a verified certificate for the round. -/
def Certifies (setup : Setup) (core : Core) (round : Nat) : Prop :=
  (∃ qc, core.HasQc qc ∧ qc.round = round ∧ qc.verify setup.committee = .ok ()) ∨
    ∃ tc, core.HasTc tc ∧ tc.round = round ∧ tc.verify setup.committee = .ok ()

/-- A proposal request comes from the boot, from an assembled QC or from a verified TC. -/
def Triggered (setup : Setup) (core : Core) (round : Nat) (qc : QC) : Option TC → Prop
  | none => round = 1 ∧ qc = .genesis ∨
      .assembledQc qc ∈ core.history ∧ qc.round + 1 = round ∧ qc.verify setup.committee = .ok ()
  | some tc => core.HasTc tc ∧ tc.verify setup.committee = .ok ()

section Mono

variable {core after : Core} (keeps : ∀ action ∈ core.history, action ∈ after.history)

include keeps

/-- A QC that the core has stays in the record. -/
theorem HasQc.mono {qc : QC} (has : core.HasQc qc) : after.HasQc qc := by
  cases has with
  | proposal block received => exact .proposal block (keeps _ received)
  | timeout timeout received => exact .timeout timeout (keeps _ received)
  | assembled qc assembled => exact .assembled qc (keeps _ assembled)

/-- A TC that the core has stays in the record. -/
theorem HasTc.mono {tc : TC} (has : core.HasTc tc) : after.HasTc tc := by
  cases has with
  | proposal block tc received carried => exact .proposal block tc (keeps _ received) carried
  | message tc received => exact .message tc (keeps _ received)
  | assembled tc assembled => exact .assembled tc (keeps _ assembled)

/-- A certified round stays certified. -/
theorem Certifies.mono {round : Nat} (certifies : core.Certifies setup round) :
    after.Certifies setup round :=
  certifies.imp (fun ⟨qc, has, verified⟩ => ⟨qc, has.mono keeps, verified⟩)
    fun ⟨tc, has, verified⟩ => ⟨tc, has.mono keeps, verified⟩

/-- What triggered a proposal stays in the record. -/
theorem Triggered.mono {round : Nat} {qc : QC} {tc : Option TC}
    (triggered : core.Triggered setup round qc tc) : after.Triggered setup round qc tc := by
  cases tc with
  | none => exact triggered.imp_right fun ⟨assembled, rest⟩ => ⟨keeps _ assembled, rest⟩
  | some tc => exact ⟨triggered.1.mono keeps, triggered.2⟩

end Mono

/-- A changed round has its certificate round in the record. -/
def RoundRecorded (core after : Core) : Prop :=
  after.round = core.round ∨ .advanced (after.round - 1) ∈ after.history

/-- Two stretches that record their rounds make one. -/
theorem RoundRecorded.trans {core middle after : Core} (first : RoundRecorded core middle)
    (second : RoundRecorded middle after)
    (keeps : ∀ action ∈ middle.history, action ∈ after.history) : RoundRecorded core after := by
  rcases second with same | recorded
  · rcases first with same' | recorded
    · exact .inl (same.trans same')
    · exact .inr (same ▸ keeps _ recorded)
  · exact .inr recorded

/-- An advance is recorded with the round of its certificate. -/
theorem advanceRound_recorded (core : Core) (round : Nat) :
    RoundRecorded core (core.advanceRound round) := by
  rw [advanceRound_eq]
  split
  · exact .inl rfl
  · exact .inr (List.mem_append_right _ (List.mem_singleton.mpr rfl))

/-- A processed QC is recorded with its round. -/
theorem processQc_recorded (core : Core) (qc : QC) : RoundRecorded core (core.processQc qc) := by
  unfold RoundRecorded processQc
  rw [(updateHighQc_other _ _).1, (updateHighQc_other _ _).2.1]
  exact core.advanceRound_recorded qc.round

/-- An advance keeps the record. -/
theorem advanceRound_keeps (core : Core) (round : Nat) :
    ∀ action ∈ core.history, action ∈ (core.advanceRound round).history := by
  intro action inside
  rw [advanceRound_history]
  exact List.mem_append_left _ inside

/-- A proposal request changes no round. -/
theorem proposeAsLeader_recorded {core middle : Core} (tc : Option TC)
    (recorded : RoundRecorded core middle) :
    RoundRecorded core (proposeAsLeader setup name tc middle) := by
  unfold RoundRecorded
  rw [(proposeAsLeader_same ..).1, proposeAsLeader_history]
  exact recorded.imp_right (List.mem_append_left _)

/-- A step that changes the round records the certificate. -/
theorem Step.recorded {core after : Core} (step : Step setup name around core after) :
    RoundRecorded core after := by
  cases step with
  | accept block =>
      have second : RoundRecorded (core.processQc block.qc)
          (advanceByTc block.tc (core.processQc block.qc)) := by
        cases block.tc with
        | none => exact .inl rfl
        | some tc => exact advanceRound_recorded _ tc.round
      have both := (core.processQc_recorded block.qc).trans second fun action inside => by
        rw [advanceByTc_history]
        exact List.mem_append_left _ inside
      exact both.imp_right (List.mem_append_left _)
  | assembleQc vote qc =>
      exact proposeAsLeader_recorded none
        (processQc_recorded ((core.setAggregator _).record (.assembledQc qc)) qc)
  | collectTimeout timeout => exact core.processQc_recorded timeout.highQc
  | assembleTc timeout tc =>
      apply proposeAsLeader_recorded (some tc)
      have first : RoundRecorded core (((core.processQc timeout.highQc).setAggregator
          ((core.processQc timeout.highQc).aggregator.addTimeout timeout
            setup.committee).2).record (.assembledTc tc)) :=
        (core.processQc_recorded timeout.highQc).imp_right (List.mem_append_left _)
      exact first.trans (advanceRound_recorded _ tc.round) (advanceRound_keeps _ tc.round)
  | takeTc tc => exact proposeAsLeader_recorded (some tc) (core.advanceRound_recorded tc.round)
  | _ => exact .inl rfl

/-- The round, the record of advances and the proposal requests rest on certificates. -/
structure Grounded (setup : Setup) (core : Core) : Prop where
  round : core.round = 1 ∨ .advanced (core.round - 1) ∈ core.history
  advanced : ∀ round, .advanced round ∈ core.history → core.Certifies setup round
  made : ∀ round qc tc, .made round qc tc ∈ core.history → core.Triggered setup round qc tc

/-- A TC message verifies, or it is old and the node does not lead its current round. -/
def AdmitsVerified (setup : Setup) (name : PublicKey) (core : Core) (tc : TC) : Prop :=
  tc.verify setup.committee = .ok () ∨
    tc.round < core.round ∧ name ≠ setup.committee.getLeader core.round

/-- An advance of the round has a verified certificate behind it. -/
theorem advances_certifies {core after : Core} {round : Nat}
    (advances : AdvancesBy setup name around core after round) (reached : core.round ≤ round)
    (regular : core.Regular setup name)
    (keeps : ∀ action ∈ core.history, action ∈ after.history)
    (verifies : ∀ tc, around.admits core tc → core.AdmitsVerified setup name tc) :
    after.Certifies setup round := by
  have positive := regular.tracked.highQc
  have embedded {qc : QC} (verified : qc.verifyEmbedded setup.committee = .ok ())
      (late : core.round ≤ qc.round) : qc.verify setup.committee = .ok () := by
    rcases QC.verifyEmbedded_ok.mp verified with isGenesis | isVerified
    · have zero := (QC.beq_iff.mp isGenesis).2
      change qc.round = 0 at zero
      omega
    · exact isVerified
  cases advances with
  | proposalQc block arrived verified isRound =>
      subst isRound
      exact .inl ⟨block.qc, .proposal block (keeps _ arrived), rfl,
        embedded (Block.verify_ok.mp verified).2.2.1 reached⟩
  | proposalTc block tc arrived verified carried isRound =>
      exact .inr ⟨tc, .proposal block tc (keeps _ arrived) carried, isRound,
        (Block.verify_ok.mp verified).2.2.2.1 tc carried⟩
  | assembledQc vote qc assembles recorded isRound =>
      exact .inl ⟨qc, .assembled qc recorded, isRound,
        (regular.evidenced.backed_assembledQc assembles).1⟩
  | timeoutQc timeout arrived verified isRound =>
      subst isRound
      rcases arrived with received | expired
      · exact .inl ⟨timeout.highQc, .timeout timeout (keeps _ received), rfl,
          embedded (Timeout.verify_ok.mp verified).2.2 reached⟩
      · have below := regular.tracked.expired timeout expired
        omega
  | assembledTc timeout tc assembles recorded isRound =>
      exact .inr ⟨tc, .assembled tc recorded, isRound,
        ((regular.evidenced.addTimeout assembles.arrived assembles.verified).2 tc
          assembles.assembled).1⟩
  | takenTc tc arrived admits isRound =>
      rcases verifies tc admits with verified | ⟨old, _⟩
      · exact .inr ⟨tc, .message tc (keeps _ arrived), isRound, verified⟩
      · omega

/-- The assembled QC becomes the high QC of the round that it opens. -/
theorem assembledQc_opens {core : Core} {vote : Vote} {qc : QC}
    (assembles : AssemblesQc setup name core vote qc) (regular : core.Regular setup name) :
    (core.processQc qc).highQc = qc ∧ (core.processQc qc).round = qc.round + 1 := by
  have isRound := (regular.evidenced.backed_assembledQc assembles).2.2.2
  have current := assembles.current
  have below := regular.tracked.highQc
  constructor
  · rw [processQc_highQc, if_pos (by omega)]
  · rw [processQc_round]
    omega

/-- A request that a step makes has a trigger. -/
theorem makes_triggered {core after : Core} {round : Nat} {qc : QC} {tc : Option TC}
    (makes : MakesBy setup name around core after round qc tc)
    (leader : name = setup.committee.getLeader round) (regular : core.Regular setup name)
    (keeps : ∀ action ∈ core.history, action ∈ after.history)
    (verifies : ∀ tc, around.admits core tc → core.AdmitsVerified setup name tc) :
    after.Triggered setup round qc tc := by
  cases makes with
  | assembledQc vote qc assembles recorded =>
      obtain ⟨isHighQc, isRound⟩ := assembledQc_opens assembles regular
      rw [isHighQc, isRound]
      exact .inr ⟨recorded, rfl, (regular.evidenced.backed_assembledQc assembles).1⟩
  | assembledTc timeout tc assembles recorded =>
      exact ⟨.assembled tc recorded, ((regular.evidenced.addTimeout assembles.arrived
        assembles.verified).2 tc assembles.assembled).1⟩
  | takenTc tc arrived admits =>
      refine ⟨.message tc (keeps _ arrived), ?_⟩
      rcases verifies tc admits with verified | ⟨old, notLeader⟩
      · exact verified
      · rw [advanceRound_round, max_eq_left (by omega)] at leader
        exact absurd leader notLeader

/-- A step keeps the rounds grounded where TCs are verified. -/
theorem Step.grounded {core after : Core} (step : Step setup name around core after)
    (regular : core.Regular setup name) (grounded : core.Grounded setup)
    (verifies : ∀ core tc, around.admits core tc → core.AdmitsVerified setup name tc) :
    after.Grounded setup := by
  have keeps : ∀ action ∈ core.history, action ∈ after.history := fun _ => step.history_subset
  constructor
  · rcases step.recorded with same | recorded
    · rw [same]
      exact grounded.round.imp_right (keeps _)
    · exact .inr recorded
  · intro round inside
    obtain old | ⟨reached, advances⟩ := step.new_action inside
    · exact (grounded.advanced round old).mono keeps
    · exact advances_certifies advances reached regular keeps (verifies core)
  · intro round qc tc inside
    obtain old | ⟨leader, makes, _⟩ := step.new_action inside
    · exact (grounded.made round qc tc old).mono keeps
    · exact makes_triggered makes leader regular keeps (verifies core)

/-- A failed handler keeps the rounds grounded. -/
theorem Fault.grounded {core after : Core} (fault : Fault setup core after)
    (grounded : core.Grounded setup) : after.Grounded setup := by
  have keeps : ∀ action ∈ core.history, action ∈ after.history := by
    rw [fault.same]
    exact fun _ => id
  have same : after.round = core.round ∧ after.history = core.history := by
    rw [fault.same]
    exact ⟨rfl, rfl⟩
  constructor
  · rw [same.1, same.2]
    exact grounded.round
  · intro round inside
    exact (grounded.advanced round (same.2 ▸ inside)).mono keeps
  · intro round qc tc inside
    exact (grounded.made round qc tc (same.2 ▸ inside)).mono keeps

end Core

end

namespace Plain

end Plain

end DeflHotstuff
