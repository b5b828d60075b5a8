import DeflHotstuff.Proof.Aggregation
import DeflHotstuff.Proof.Discipline

namespace DeflHotstuff

open Verification

variable [Crypto] {setup : Setup} {name : PublicKey} {around : Surroundings}

namespace Core

/-- The signature came in a message or belongs to a digest that the node signed itself. -/
def Holds (name : PublicKey) (core : Core) (claim : SignatureClaim) : Prop :=
  (∃ message, .received message ∈ core.history ∧ claim ∈ message.claims) ∨
    (claim.author = name ∧ ∃ action ∈ core.history, action.signs = some claim.digest)

/-- A QC is the genesis QC or verifies with signatures that the core holds. -/
def Backed (setup : Setup) (name : PublicKey) (core : Core) (qc : QC) : Prop :=
  (qc == QC.genesis) = true ∨
    (qc.verify setup.committee = .ok () ∧ ∀ claim ∈ qc.claims, core.Holds name claim)

def BackedTc (setup : Setup) (name : PublicKey) (core : Core) (tc : TC) : Prop :=
  tc.verify setup.committee = .ok () ∧ ∀ claim ∈ tc.claims, core.Holds name claim

/-- A signature that is held stays held. -/
theorem Holds.mono {core after : Core} {claim : SignatureClaim} (holds : core.Holds name claim)
    (keeps : ∀ action ∈ core.history, action ∈ after.history) : after.Holds name claim :=
  holds.imp (fun ⟨message, received, inside⟩ => ⟨message, keeps _ received, inside⟩)
    fun ⟨author, action, recorded, signs⟩ => ⟨author, action, keeps _ recorded, signs⟩

/-- A QC that is backed stays backed. -/
theorem Backed.mono {core after : Core} {qc : QC} (backed : core.Backed setup name qc)
    (keeps : ∀ action ∈ core.history, action ∈ after.history) : after.Backed setup name qc :=
  backed.imp_right fun ⟨verified, holds⟩ =>
    ⟨verified, fun claim inside => (holds claim inside).mono keeps⟩

/-- A TC that is backed stays backed. -/
theorem BackedTc.mono {core after : Core} {tc : TC} (backed : core.BackedTc setup name tc)
    (keeps : ∀ action ∈ core.history, action ∈ after.history) : after.BackedTc setup name tc :=
  ⟨backed.1, fun claim inside => (backed.2 claim inside).mono keeps⟩

/-- A backed QC passes the check of an embedded one. -/
theorem Backed.verifyEmbedded {core : Core} {qc : QC} (backed : core.Backed setup name qc) :
    qc.verifyEmbedded setup.committee = .ok () :=
  QC.verifyEmbedded_ok.mpr (backed.imp_right And.left)

/-- The embedded QC of a verified message is backed by its signatures. -/
theorem backed_of_message {core : Core} {qc : QC} {message : ConsensusMessage}
    (received : .received message ∈ core.history)
    (verified : qc.verifyEmbedded setup.committee = .ok ())
    (carried : ∀ claim ∈ qc.claims, claim ∈ message.claims) : core.Backed setup name qc :=
  (QC.verifyEmbedded_ok.mp verified).imp_right fun isVerified =>
    ⟨isVerified, fun claim inside => .inl ⟨message, received, carried claim inside⟩⟩

/-- The QC of a verified block is backed by the message that brought it. -/
theorem backed_of_block {core : Core} {block : Block}
    (received : .received (.propose block) ∈ core.history)
    (verified : block.verify setup.committee = .ok ()) : core.Backed setup name block.qc :=
  backed_of_message received (Block.verify_ok.mp verified).2.2.1 fun _ inside =>
    List.mem_cons_of_mem _ (List.mem_append_left _ inside)

/-- The TC of a verified block is backed by the message that brought it. -/
theorem backedTc_of_block {core : Core} {block : Block} {tc : TC}
    (received : .received (.propose block) ∈ core.history)
    (verified : block.verify setup.committee = .ok ()) (carried : block.tc = some tc) :
    core.BackedTc setup name tc := by
  refine ⟨(Block.verify_ok.mp verified).2.2.2.1 tc carried, fun claim inside =>
    .inl ⟨_, received, List.mem_cons_of_mem _ (List.mem_append_right _ ?_)⟩⟩
  rw [carried]
  exact inside

/-- Every certificate that the core works with is backed by signatures that it holds. -/
structure Evidenced (setup : Setup) (name : PublicKey) (core : Core) : Prop where
  highQc : core.Backed setup name core.highQc
  accepted : ∀ block, .accepted block ∈ core.history →
    .received (.propose block) ∈ core.history ∧ block.verify setup.committee = .ok () ∧
      block.author = setup.committee.getLeader block.round
  expired : ∀ timeout, .expired timeout ∈ core.history →
    timeout.author = name ∧ core.Backed setup name timeout.highQc
  made : ∀ round qc tc, .made round qc tc ∈ core.history → core.Backed setup name qc ∧
    ∀ cert, tc = some cert →
      core.BackedTc setup name cert ∨ .received (.tc cert) ∈ core.history
  aggregator : core.aggregator.Sound setup.committee (core.Holds name) core.highQc.round

/-- The signature of a vote that arrived is held. -/
theorem holds_vote {core : Core} {vote : Vote} (arrived : core.VoteArrived setup name vote) :
    core.Holds name ⟨vote.author, vote.digest, vote.signature⟩ := by
  rcases arrived with received | ⟨block, voted, rfl⟩
  · exact .inl ⟨_, received, List.mem_singleton.mpr rfl⟩
  · exact .inr ⟨rfl, _, voted, rfl⟩

/-- The signature of a timeout that arrived is held. -/
theorem Evidenced.holds_timeout {core : Core} (evidenced : core.Evidenced setup name)
    {timeout : Timeout} (arrived : core.TimeoutArrived timeout) :
    core.Holds name ⟨timeout.author, timeout.digest, timeout.signature⟩ := by
  rcases arrived with received | expired
  · exact .inl ⟨_, received, List.mem_cons_self ..⟩
  · exact .inr ⟨(evidenced.expired timeout expired).1, _, expired, rfl⟩

/-- The high QC of a verified timeout is backed. -/
theorem Evidenced.backed_timeout {core : Core} (evidenced : core.Evidenced setup name)
    {timeout : Timeout} (arrived : core.TimeoutArrived timeout)
    (verified : timeout.verify setup.committee = .ok ()) :
    core.Backed setup name timeout.highQc := by
  rcases arrived with received | expired
  · exact backed_of_message received (Timeout.verify_ok.mp verified).2.2 fun _ inside =>
      List.mem_cons_of_mem _ inside
  · exact (evidenced.expired timeout expired).2

/-- A QC that is assembled is valid, held and for the block of its votes. -/
theorem Evidenced.backed_assembledQc {core : Core} (evidenced : core.Evidenced setup name)
    {vote : Vote} {qc : QC} (assembles : AssemblesQc setup name core vote qc) :
    qc.verify setup.committee = .ok () ∧ (∀ claim ∈ qc.claims, core.Holds name claim) ∧
      qc.hash = vote.hash ∧ qc.round = vote.round :=
  (evidenced.aggregator.addVote assembles.verified (holds_vote assembles.arrived)).2 qc
    assembles.assembled

/-- Processing a QC keeps the aggregator sound. -/
theorem sound_processQc (core : Core) (qc : QC) {held : SignatureClaim → Prop}
    (sound : core.aggregator.Sound setup.committee held core.highQc.round) :
    (core.processQc qc).aggregator.Sound setup.committee held (core.processQc qc).highQc.round := by
  rw [processQc_aggregator, processQc_highQc_round]
  have raised := sound.mono (fun _ => id) (le_max_left core.highQc.round qc.round)
  rw [advanceRound_eq]
  split
  · exact raised
  · exact raised.cleanup _

/-- A change of the round keeps the aggregator sound. -/
theorem sound_advanceRound {core : Core} {round bound : Nat} {held : SignatureClaim → Prop}
    (sound : core.aggregator.Sound setup.committee held bound) :
    (core.advanceRound round).aggregator.Sound setup.committee held bound := by
  rw [advanceRound_eq]
  split
  · exact sound
  · exact sound.cleanup _

/-- A verified timeout leaves a sound aggregator, and the TC that it completes is backed. -/
theorem Evidenced.addTimeout {core : Core} (evidenced : core.Evidenced setup name)
    {timeout : Timeout} (arrived : core.TimeoutArrived timeout)
    (verified : timeout.verify setup.committee = .ok ()) :
    ((core.processQc timeout.highQc).aggregator.addTimeout timeout setup.committee).2.Sound
        setup.committee (core.Holds name) (core.processQc timeout.highQc).highQc.round ∧
      ∀ tc, ((core.processQc timeout.highQc).aggregator.addTimeout timeout
          setup.committee).1 = .ok (some tc) →
        tc.verify setup.committee = .ok () ∧ (∀ claim ∈ tc.claims, core.Holds name claim) ∧
          tc.round = timeout.round ∧
          ∀ round ∈ tc.highQcRounds, round ≤ (core.processQc timeout.highQc).highQc.round := by
  refine (sound_processQc core timeout.highQc evidenced.aggregator).addTimeout verified
    (evidenced.holds_timeout arrived) ?_
  rw [processQc_highQc_round]
  exact le_max_right _ _

/-- The high QC after a step is the old one or the QC that the step took up. -/
theorem Step.highQc_backed {core after : Core} (step : Step setup name around core after)
    (evidenced : core.Evidenced setup name) : core.Backed setup name after.highQc := by
  have taken {middle : Core} {qc : QC} (same : middle.highQc = core.highQc)
      (backed : core.Backed setup name qc) :
      core.Backed setup name (middle.processQc qc).highQc := by
    rw [processQc_highQc, same]
    split
    · exact backed
    · exact evidenced.highQc
  cases step with
  | accept block arrived leader verified =>
      rw [record_highQc, advanceByTc_highQc]
      exact taken rfl (backed_of_block arrived verified)
  | assembleQc vote qc arrived current verified assembled =>
      rw [(proposeAsLeader_same ..).2.1]
      obtain ⟨isVerified, holds, _, _⟩ :=
        evidenced.backed_assembledQc ⟨arrived, current, verified, assembled⟩
      exact taken rfl (.inr ⟨isVerified, holds⟩)
  | collectTimeout timeout arrived current verified =>
      exact taken rfl (evidenced.backed_timeout arrived verified)
  | assembleTc timeout tc arrived current verified =>
      rw [(proposeAsLeader_same ..).2.1, broadcast_eq, sendTo_highQc, advanceRound_highQc]
      exact taken rfl (evidenced.backed_timeout arrived verified)
  | takeTc tc =>
      rw [(proposeAsLeader_same ..).2.1, advanceRound_highQc]
      exact evidenced.highQc
  | _ => exact evidenced.highQc

/-- A step keeps the aggregator sound for the signatures that are held. -/
theorem Step.aggregator_sound {core after : Core} (step : Step setup name around core after)
    (evidenced : core.Evidenced setup name) :
    after.aggregator.Sound setup.committee (core.Holds name) after.highQc.round := by
  cases step with
  | accept block =>
      rw [record_aggregator, record_highQc, advanceByTc_highQc]
      have sound := sound_processQc core block.qc evidenced.aggregator
      cases block.tc with
      | none => exact sound
      | some tc => exact sound_advanceRound sound
  | collectVote vote arrived current verified =>
      exact (evidenced.aggregator.addVote verified (holds_vote arrived)).1
  | assembleQc vote qc arrived current verified =>
      rw [(proposeAsLeader_same ..).2.1, (proposeAsLeader_same ..).2.2]
      have sound := (evidenced.aggregator.addVote verified (holds_vote arrived)).1
      exact sound_processQc ((core.setAggregator
        (core.aggregator.addVote vote setup.committee).2).record (.assembledQc qc)) qc sound
  | collectTimeout timeout arrived current verified =>
      exact (evidenced.addTimeout arrived verified).1
  | assembleTc timeout tc arrived current verified =>
      rw [(proposeAsLeader_same ..).2.1, (proposeAsLeader_same ..).2.2, broadcast_eq,
        sendTo_highQc, sendTo_aggregator, advanceRound_highQc]
      exact sound_advanceRound (evidenced.addTimeout arrived verified).1
  | takeTc tc =>
      rw [(proposeAsLeader_same ..).2.1, (proposeAsLeader_same ..).2.2, advanceRound_highQc]
      exact sound_advanceRound evidenced.aggregator
  | _ => exact evidenced.aggregator

/-- A step keeps every certificate of the core backed. -/
theorem Step.evidenced {core after : Core} (step : Step setup name around core after)
    (evidenced : core.Evidenced setup name) : after.Evidenced setup name := by
  have keeps : ∀ action ∈ core.history, action ∈ after.history := fun _ => step.history_subset
  have highQc := (step.highQc_backed evidenced).mono keeps
  constructor
  · exact highQc
  · intro block inside
    obtain old | ⟨received, leader, verified, _⟩ := step.new_action inside
    · obtain ⟨received, verified, leader⟩ := evidenced.accepted block old
      exact ⟨keeps _ received, verified, leader⟩
    · exact ⟨keeps _ received, verified, leader⟩
  · intro timeout inside
    obtain old | ⟨rfl, _⟩ := step.new_action inside
    · obtain ⟨author, backed⟩ := evidenced.expired timeout old
      exact ⟨author, backed.mono keeps⟩
    · exact ⟨rfl, evidenced.highQc.mono keeps⟩
  · intro round qc tc inside
    obtain old | ⟨_, makes, _, isHighQc⟩ := step.new_action inside
    · obtain ⟨backed, certs⟩ := evidenced.made round qc tc old
      exact ⟨backed.mono keeps, fun cert same =>
        (certs cert same).imp (fun backed => backed.mono keeps) (keeps _)⟩
    · refine ⟨isHighQc ▸ highQc, fun cert same => ?_⟩
      cases makes with
      | assembledQc vote qc => cases same
      | assembledTc timeout tc assembles =>
          cases same
          obtain ⟨verified, holds, _⟩ :=
            (evidenced.addTimeout assembles.arrived assembles.verified).2 cert assembles.assembled
          exact .inl (BackedTc.mono ⟨verified, holds⟩ keeps)
      | takenTc tc arrived =>
          cases same
          exact .inr (keeps _ arrived)
  · exact (step.aggregator_sound evidenced).mono (fun _ holds => holds.mono keeps) le_rfl

/-- A panic or an endless loop takes up no certificate. -/
theorem Fault.evidenced {core after : Core} (fault : Fault setup core after)
    (evidenced : core.Evidenced setup name) : after.Evidenced setup name := by
  cases fault <;> exact { evidenced with }

/-- At boot the only QC is the one of genesis. -/
theorem boot_evidenced : (boot setup name).Evidenced setup name := by
  have same := proposeAsLeader_same setup name .new none
  have isHighQc : (boot setup name).highQc = .genesis := same.2.1
  have backed : (boot setup name).Backed setup name .genesis := .inl (QC.beq_iff.mpr ⟨rfl, rfl⟩)
  constructor
  · rw [isHighQc]
    exact backed
  · intro block inside
    cases (mem_boot inside).1
  · intro timeout inside
    cases (mem_boot inside).1
  · intro round qc tc inside
    cases (mem_boot inside).1
    exact ⟨backed, fun _ same => nomatch same⟩
  · have fresh : (boot setup name).aggregator = .new := same.2.2
    rw [fresh]
    exact Aggregator.new_sound

end Core

end DeflHotstuff
