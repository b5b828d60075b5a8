import DeflHotstuff.Construction.Core

namespace DeflHotstuff.Core

open Verification

variable [Crypto] (setup : Setup) (name : PublicKey) (core : Core)

/-- The fields that `advance_round`, `process_qc` and a proposal leave alone. -/
structure SameBooks (core after : Core) : Prop where
  store : after.store = core.store
  txMempool : after.txMempool = core.txMempool
  txPayloadWaiter : after.txPayloadWaiter = core.txPayloadWaiter
  innerChannel : after.innerChannel = core.innerChannel
  txCommit : after.txCommit = core.txCommit
  lastVotedRound : after.lastVotedRound = core.lastVotedRound
  lastCommittedRound : after.lastCommittedRound = core.lastCommittedRound

/-- A core has the books that it has. -/
theorem SameBooks.refl : SameBooks core core := ⟨rfl, rfl, rfl, rfl, rfl, rfl, rfl⟩

/-- Books that stay in two steps stay over both. -/
theorem SameBooks.trans {core middle after : Core} (first : SameBooks core middle)
    (second : SameBooks middle after) : SameBooks core after where
  store := second.store.trans first.store
  txMempool := second.txMempool.trans first.txMempool
  txPayloadWaiter := second.txPayloadWaiter.trans first.txPayloadWaiter
  innerChannel := second.innerChannel.trans first.innerChannel
  txCommit := second.txCommit.trans first.txCommit
  lastVotedRound := second.lastVotedRound.trans first.lastVotedRound
  lastCommittedRound := second.lastCommittedRound.trans first.lastCommittedRound

section Record

variable (action : Action)

@[simp] theorem record_history : (core.record action).history = core.history ++ [action] := rfl
@[simp] theorem record_round : (core.record action).round = core.round := rfl
@[simp] theorem record_highQc : (core.record action).highQc = core.highQc := rfl
@[simp] theorem record_aggregator : (core.record action).aggregator = core.aggregator := rfl
@[simp] theorem record_txProposer : (core.record action).txProposer = core.txProposer := rfl

/-- The record is none of the books. -/
theorem record_books : SameBooks core (core.record action) := ⟨rfl, rfl, rfl, rfl, rfl, rfl, rfl⟩

end Record

section SetAggregator

variable (aggregator : Aggregator)

@[simp] theorem setAggregator_history : (core.setAggregator aggregator).history = core.history := rfl
@[simp] theorem setAggregator_round : (core.setAggregator aggregator).round = core.round := rfl
@[simp] theorem setAggregator_highQc : (core.setAggregator aggregator).highQc = core.highQc := rfl
@[simp] theorem setAggregator_aggregator :
    (core.setAggregator aggregator).aggregator = aggregator := rfl
@[simp] theorem setAggregator_txProposer :
    (core.setAggregator aggregator).txProposer = core.txProposer := rfl

/-- The aggregator is none of the books. -/
theorem setAggregator_books : SameBooks core (core.setAggregator aggregator) :=
  ⟨rfl, rfl, rfl, rfl, rfl, rfl, rfl⟩

end SetAggregator

section SendTo

variable (addresses : List SocketAddr) (message : ConsensusMessage)

@[simp] theorem sendTo_history : (core.sendTo addresses message).history = core.history := rfl
@[simp] theorem sendTo_round : (core.sendTo addresses message).round = core.round := rfl
@[simp] theorem sendTo_highQc : (core.sendTo addresses message).highQc = core.highQc := rfl
@[simp] theorem sendTo_aggregator :
    (core.sendTo addresses message).aggregator = core.aggregator := rfl
@[simp] theorem sendTo_txProposer :
    (core.sendTo addresses message).txProposer = core.txProposer := rfl

/-- The network is none of the books. -/
theorem sendTo_books : SameBooks core (core.sendTo addresses message) :=
  ⟨rfl, rfl, rfl, rfl, rfl, rfl, rfl⟩

end SendTo

/-- The high QC changes only to a QC of a later round. -/
theorem updateHighQc_highQc (qc : QC) :
    (core.updateHighQc qc).highQc = if core.highQc.round < qc.round then qc else core.highQc := by
  unfold updateHighQc
  split <;> rfl

/-- The round of the high QC never falls. -/
theorem updateHighQc_round (qc : QC) :
    (core.updateHighQc qc).highQc.round = max core.highQc.round qc.round := by
  rw [updateHighQc_highQc]
  split <;> omega

/-- A new high QC changes neither the round nor the record, the aggregator or the proposer channel.
-/
@[simp] theorem updateHighQc_other (qc : QC) :
    (core.updateHighQc qc).round = core.round ∧
      (core.updateHighQc qc).history = core.history ∧
      (core.updateHighQc qc).aggregator = core.aggregator ∧
      (core.updateHighQc qc).txProposer = core.txProposer := by
  unfold updateHighQc
  split <;> exact ⟨rfl, rfl, rfl, rfl⟩

/-- A new high QC leaves the books alone. -/
theorem updateHighQc_books (qc : QC) : SameBooks core (core.updateHighQc qc) := by
  unfold updateHighQc
  split <;> exact ⟨rfl, rfl, rfl, rfl, rfl, rfl, rfl⟩

/-- A leader's proposal request goes to the proposer and to the record, nothing else changes. -/
theorem proposeAsLeader_eq (tc : Option TC) :
    proposeAsLeader setup name tc core =
      if name = setup.committee.getLeader core.round then { core with
        txProposer := core.txProposer ++ [⟨core.history.length, .make core.round core.highQc tc⟩]
        history := core.history ++ [.made core.round core.highQc tc] }
      else core := rfl

/-- A request for a block changes neither the round nor the high QC or the aggregator. -/
@[simp] theorem proposeAsLeader_same (tc : Option TC) :
    (proposeAsLeader setup name tc core).round = core.round ∧
      (proposeAsLeader setup name tc core).highQc = core.highQc ∧
      (proposeAsLeader setup name tc core).aggregator = core.aggregator := by
  rw [proposeAsLeader_eq]
  split <;> exact ⟨rfl, rfl, rfl⟩

/-- A request for a block leaves the books alone. -/
theorem proposeAsLeader_books (tc : Option TC) :
    SameBooks core (proposeAsLeader setup name tc core) := by
  rw [proposeAsLeader_eq]
  split <;> exact ⟨rfl, rfl, rfl, rfl, rfl, rfl, rfl⟩

/-- The leader records its request. -/
theorem proposeAsLeader_history (tc : Option TC) :
    (proposeAsLeader setup name tc core).history =
      core.history ++ if name = setup.committee.getLeader core.round
        then [.made core.round core.highQc tc] else [] := by
  rw [proposeAsLeader_eq]
  split <;> simp

/-- The leader sends its request to the proposer. -/
theorem proposeAsLeader_txProposer (tc : Option TC) :
    (proposeAsLeader setup name tc core).txProposer =
      core.txProposer ++ if name = setup.committee.getLeader core.round
        then [⟨core.history.length, .make core.round core.highQc tc⟩] else [] := by
  rw [proposeAsLeader_eq]
  split <;> simp

/-- A broadcast goes to all other members. -/
theorem broadcast_eq (message : ConsensusMessage) :
    broadcast setup name message core =
      core.sendTo ((setup.committee.broadcastAddresses name).map Prod.snd) message := rfl

section Certificates

variable [Rounds]

/-- A change of the round leaves the high QC alone. -/
@[simp] theorem advanceRound_highQc (round : Nat) :
    (core.advanceRound round).highQc = core.highQc := by
  unfold advanceRound
  split <;> rfl

/-- A change of the round sends nothing to the proposer. -/
@[simp] theorem advanceRound_txProposer (round : Nat) :
    (core.advanceRound round).txProposer = core.txProposer := by
  unfold advanceRound
  split <;> rfl

/-- A change of the round leaves the books alone. -/
theorem advanceRound_books (round : Nat) : SameBooks core (core.advanceRound round) := by
  unfold advanceRound
  split
  · exact .refl core
  · exact ⟨rfl, rfl, rfl, rfl, rfl, rfl, rfl⟩

/-- A change of the round is recorded, and a stale certificate is not. -/
theorem advanceRound_history (round : Nat) :
    (core.advanceRound round).history =
      core.history ++ if round < core.round then [] else [.advanced round] := by
  unfold advanceRound
  split <;> simp

/-- A QC that is processed becomes the high QC if it is of a later round. -/
theorem processQc_highQc (qc : QC) :
    (core.processQc qc).highQc = if core.highQc.round < qc.round then qc else core.highQc := by
  rw [processQc, updateHighQc_highQc, advanceRound_highQc]

/-- The round of the high QC covers every QC that was processed. -/
theorem processQc_highQc_round (qc : QC) :
    (core.processQc qc).highQc.round = max core.highQc.round qc.round := by
  rw [processQc, updateHighQc_round, advanceRound_highQc]

/-- A QC that is processed records at most the change of the round. -/
theorem processQc_history (qc : QC) :
    (core.processQc qc).history =
      core.history ++ if qc.round < core.round then [] else [.advanced qc.round] := by
  rw [processQc, (updateHighQc_other _ _).2.1, advanceRound_history]

/-- The aggregator changes only with the round. -/
theorem processQc_aggregator (qc : QC) :
    (core.processQc qc).aggregator = (core.advanceRound qc.round).aggregator := by
  rw [processQc, (updateHighQc_other _ _).2.2.1]

/-- A QC that is processed sends nothing to the proposer. -/
@[simp] theorem processQc_txProposer (qc : QC) :
    (core.processQc qc).txProposer = core.txProposer := by
  rw [processQc, (updateHighQc_other _ _).2.2.2, advanceRound_txProposer]

/-- A QC that is processed leaves the books alone. -/
theorem processQc_books (qc : QC) : SameBooks core (core.processQc qc) :=
  (core.advanceRound_books qc.round).trans (updateHighQc_books _ qc)

/-- The TC of a block leaves the high QC alone. -/
@[simp] theorem advanceByTc_highQc (tc : Option TC) :
    (advanceByTc tc core).highQc = core.highQc := by
  cases tc with
  | none => rfl
  | some tc => exact core.advanceRound_highQc tc.round

/-- The TC of a block sends nothing to the proposer. -/
@[simp] theorem advanceByTc_txProposer (tc : Option TC) :
    (advanceByTc tc core).txProposer = core.txProposer := by
  cases tc with
  | none => rfl
  | some tc => exact core.advanceRound_txProposer tc.round

/-- The TC of a block leaves the books alone. -/
theorem advanceByTc_books (tc : Option TC) : SameBooks core (advanceByTc tc core) := by
  cases tc with
  | none => exact .refl core
  | some tc => exact core.advanceRound_books tc.round

/-- The TC of a block records at most the change of the round. -/
theorem advanceByTc_history (tc : Option TC) :
    (advanceByTc tc core).history = core.history ++ match tc with
      | none => []
      | some tc => if tc.round < core.round then [] else [.advanced tc.round] := by
  cases tc with
  | none => simp [advanceByTc]
  | some tc => exact core.advanceRound_history tc.round

/-- The steps that take up a certificate leave the books alone. -/
theorem accept_books (block : Block) :
    SameBooks core ((advanceByTc block.tc (core.processQc block.qc)).record (.accepted block)) :=
  ((core.processQc_books block.qc).trans (advanceByTc_books _ block.tc)).trans (record_books ..)

/-- An assembled QC leaves the books alone. -/
theorem assembleQc_books (aggregator : Aggregator) (qc : QC) :
    SameBooks core (proposeAsLeader setup name none
      (((core.setAggregator aggregator).record (.assembledQc qc)).processQc qc)) :=
  (((setAggregator_books ..).trans (record_books ..)).trans (processQc_books ..)).trans
    (proposeAsLeader_books ..)

/-- A collected timeout leaves the books alone. -/
theorem collectTimeout_books (qc : QC) (aggregator : Aggregator) :
    SameBooks core ((core.processQc qc).setAggregator aggregator) :=
  (core.processQc_books qc).trans (setAggregator_books ..)

/-- An assembled TC leaves the books alone. -/
theorem assembleTc_books (qc : QC) (aggregator : Aggregator) (tc : TC) :
    SameBooks core (proposeAsLeader setup name (some tc) (broadcast setup name (.tc tc)
      ((((core.processQc qc).setAggregator aggregator).record (.assembledTc tc)).advanceRound
        tc.round))) :=
  ((((core.collectTimeout_books qc aggregator).trans (record_books ..)).trans
    (advanceRound_books ..)).trans (sendTo_books ..)).trans (proposeAsLeader_books ..)

/-- A TC that arrives leaves the books alone. -/
theorem takeTc_books (tc : TC) :
    SameBooks core (proposeAsLeader setup name (some tc) (core.advanceRound tc.round)) :=
  (core.advanceRound_books tc.round).trans (proposeAsLeader_books ..)

end Certificates

section Unbounded

/-- A changed round records the certificate round that it came from. -/
theorem advanceRound_eq (round : Nat) :
    core.advanceRound round =
      if round < core.round then core
      else { core with
        round := round + 1
        aggregator := core.aggregator.cleanup (round + 1)
        history := core.history ++ [.advanced round] } := rfl

/-- With unbounded rounds the core is past every certificate that it advanced by. -/
theorem advanceRound_round (round : Nat) :
    (core.advanceRound round).round = max core.round (round + 1) := by
  rw [advanceRound_eq]
  split
  · omega
  · simp only
    omega

/-- With unbounded rounds the core is past every QC that it processed. -/
theorem processQc_round (qc : QC) :
    (core.processQc qc).round = max core.round (qc.round + 1) := by
  rw [processQc, (updateHighQc_other _ _).1, advanceRound_round]

/-- The optional TC advances the round after the QC did. -/
theorem advanceByTc_round (tc : Option TC) :
    (advanceByTc tc core).round = max core.round ((tc.map fun tc => tc.round + 1).getD 0) := by
  cases tc with
  | none => simp [advanceByTc]
  | some tc => simpa [advanceByTc] using core.advanceRound_round tc.round

end Unbounded

/-- The actions of the record that the predicate selects. -/
def select (selected : Action → Bool) (core : Core) : List Action := core.history.filter selected

variable {selected : Action → Bool}

/-- The selected actions are those of the record that the predicate holds of. -/
theorem mem_select {core : Core} {action : Action} :
    action ∈ core.select selected ↔ action ∈ core.history ∧ selected action = true :=
  List.mem_filter

/-- A new action is selected if the predicate holds of it. -/
theorem record_select (action : Action) :
    (core.record action).select selected = core.select selected ++ [action].filter selected :=
  List.filter_append ..

/-- An action that is not selected does not show. -/
theorem record_other {action : Action} (other : selected action = false) :
    (core.record action).select selected = core.select selected := by
  simp [record_select, other]

/-- A selection without the advances does not see a call of `advance_round`. -/
theorem advanceRound_select [Rounds] (silent : ∀ round, selected (.advanced round) = false)
    (round : Nat) :
    (core.advanceRound round).select selected = core.select selected := by
  unfold select
  rw [advanceRound_history]
  split
  · rw [List.append_nil]
  · simp [silent]

/-- Nor a QC that is processed. -/
theorem processQc_select [Rounds] (silent : ∀ round, selected (.advanced round) = false) (qc : QC) :
    (core.processQc qc).select selected = core.select selected := by
  unfold select processQc
  rw [(updateHighQc_other _ _).2.1]
  exact core.advanceRound_select silent qc.round

/-- Nor the TC of a block. -/
theorem advanceByTc_select [Rounds] (silent : ∀ round, selected (.advanced round) = false)
    (tc : Option TC) : (advanceByTc tc core).select selected = core.select selected := by
  cases tc with
  | none => rfl
  | some tc => exact core.advanceRound_select silent tc.round

/-- A selection without the requests does not see the leader's. -/
theorem proposeAsLeader_select (silent : ∀ round qc tc, selected (.made round qc tc) = false)
    (tc : Option TC) : (proposeAsLeader setup name tc core).select selected =
      core.select selected := by
  unfold select
  rw [proposeAsLeader_history]
  split
  · simp [silent]
  · rw [List.append_nil]

end DeflHotstuff.Core
