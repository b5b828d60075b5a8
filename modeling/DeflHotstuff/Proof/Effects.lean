import DeflHotstuff.Proof.Actions

namespace DeflHotstuff

open Verification

variable [Crypto]

/-- The action is neither a vote nor does it concern the proposer. -/
def Action.Quiet : Action → Prop
  | .voted _ => False
  | .processed _ _ _ => False
  | .made _ _ _ => False
  | .cleaned _ => False
  | .built _ _ _ _ => False
  | _ => True

/-- What a step adds to the record and does to the channel of the proposer. -/
inductive Core.Effect (setup : Setup) (name : PublicKey) (around : Surroundings)
    (core after : Core) : Prop
  | quiet (new : List Action) (silent : ∀ action ∈ new, action.Quiet)
      (grown : after.history = core.history ++ new) (same : after.txProposer = core.txProposer)
  | votes (block : Block) (grown : after.history = core.history ++ [.voted block])
      (same : after.txProposer = core.txProposer)
  | asks (new : List Action) (qc : QC) (tc : Option TC) (silent : ∀ action ∈ new, action.Quiet)
      (grown : after.history = core.history ++ new ++ [.made after.round qc tc])
      (sent : after.txProposer = core.txProposer ++
        [⟨(core.history ++ new).length, .make after.round qc tc⟩])
      (leader : name = setup.committee.getLeader after.round)
      (makes : MakesBy setup name around core after after.round qc tc)
  | processes (b0 b1 block : Block) (grown : after.history = core.history ++ [.processed b0 b1 block])
      (sent : after.txProposer = core.txProposer ++ [⟨core.history.length + 1,
        .cleanup (b0.payload ++ b1.payload ++ block.payload)⟩])
  | cleans (sent : Nat) (digests : List Digest)
      (grown : after.history = core.history ++ [.cleaned digests])
      (next : core.txProposer = ⟨sent, .cleanup digests⟩ :: after.txProposer)
  | skips (sent round : Nat) (qc : QC) (same : after.history = core.history)
      (next : core.txProposer = ⟨sent, .make round qc none⟩ :: after.txProposer)
  | builds (sent round : Nat) (qc : QC) (tc : Option TC) (payload : List Digest)
      (full : tc = none → 5 < round → payload ≠ [])
      (grown : after.history = core.history ++
        [.built sent qc tc (Block.new qc tc name round payload (setup.sign name))])
      (next : core.txProposer = ⟨sent, .make round qc tc⟩ :: after.txProposer)

namespace Core

variable {setup : Setup} {name : PublicKey} {around : Surroundings} {core after : Core}

/-- No actions are quiet. -/
theorem quiet_nil : ∀ action ∈ ([] : List Action), action.Quiet := fun _ inside => nomatch inside

/-- A quiet action is quiet on its own. -/
theorem quiet_singleton (action : Action) (silent : action.Quiet) :
    ∀ other ∈ [action], other.Quiet := by
  simpa using silent

/-- The record of a call of `advance_round` is silent. -/
theorem quiet_advanced (condition : Prop) [Decidable condition] (round : Nat) :
    ∀ action ∈ (if condition then [] else [.advanced round] : List Action), action.Quiet := by
  split
  · exact quiet_nil
  · exact quiet_singleton _ trivial

/-- Quiet actions are quiet one after the other. -/
theorem quiet_append {first second : List Action} (quiet : ∀ action ∈ first, action.Quiet)
    (quiet' : ∀ action ∈ second, action.Quiet) : ∀ action ∈ first ++ second, action.Quiet :=
  List.forall_mem_append.mpr ⟨quiet, quiet'⟩

/-- The TC of a block records quiet actions only. -/
theorem advanceByTc_grows (core : Core) (tc : Option TC) :
    ∃ new, (∀ action ∈ new, action.Quiet) ∧ (advanceByTc tc core).history = core.history ++ new := by
  cases tc with
  | none => exact ⟨[], quiet_nil, (List.append_nil _).symm⟩
  | some tc => exact ⟨_, quiet_advanced _ _, core.advanceRound_history tc.round⟩

/-- A proposal request after silent actions is the only loud one. -/
theorem proposeAsLeader_effect {middle : Core} (tc : Option TC) (new : List Action)
    (silent : ∀ action ∈ new, action.Quiet) (grown : middle.history = core.history ++ new)
    (same : middle.txProposer = core.txProposer)
    (makes : MakesBy setup name around core (proposeAsLeader setup name tc middle) middle.round
      middle.highQc tc) :
    Effect setup name around core (proposeAsLeader setup name tc middle) := by
  have sameRound := (proposeAsLeader_same setup name middle tc).1
  by_cases leader : name = setup.committee.getLeader middle.round
  · refine .asks new middle.highQc tc silent ?_ ?_ ?_ ?_
    · rw [proposeAsLeader_history, if_pos leader, grown, sameRound]
    · rw [proposeAsLeader_txProposer, if_pos leader, grown, same, sameRound]
    · rw [sameRound]
      exact leader
    · rw [sameRound]
      exact makes
  · refine .quiet new silent ?_ ?_
    · rw [proposeAsLeader_history, if_neg leader, grown, List.append_nil]
    · rw [proposeAsLeader_txProposer, if_neg leader, same, List.append_nil]

/-- Every step has one of the listed effects. -/
theorem Step.effect (step : Step setup name around core after) :
    Effect setup name around core after := by
  cases step with
  | receive message => exact .quiet _ (quiet_singleton (.received message) trivial) rfl rfl
  | resume block => exact .quiet _ (quiet_singleton (.resumed block) trivial) rfl rfl
  | accept block =>
      obtain ⟨new, silent, grown⟩ := advanceByTc_grows (core.processQc block.qc) block.tc
      refine .quiet ((if block.qc.round < core.round then [] else [.advanced block.qc.round]) ++
        new ++ [.accepted block]) (quiet_append (quiet_append (quiet_advanced _ _) silent)
          (quiet_singleton (.accepted block) trivial)) ?_ ?_
      · rw [record_history, grown, processQc_history]
        simp only [List.append_assoc]
      · rw [record_txProposer, advanceByTc_txProposer, processQc_txProposer]
  | process b0 b1 block =>
      refine .processes b0 b1 block rfl ?_
      simp [cleanupProposer, sendProposer, storeBlock]
  | decide b0 b1 block => exact .quiet _ (quiet_singleton (.committed b0) trivial) rfl rfl
  | vote b0 b1 block => exact .votes block rfl rfl
  | assembleQc vote qc arrived current verified assembled =>
      refine proposeAsLeader_effect none ([.assembledQc qc] ++
        if qc.round < core.round then [] else [.advanced qc.round])
        (quiet_append (quiet_singleton (.assembledQc qc) trivial) (quiet_advanced _ _)) ?_ ?_ ?_
      · rw [processQc_history, record_history, setAggregator_history, List.append_assoc]
        rfl
      · rw [processQc_txProposer]
        rfl
      · rw [processQc_round, processQc_highQc, record_round, setAggregator_round, record_highQc,
          setAggregator_highQc, ← processQc_round, ← processQc_highQc]
        refine .assembledQc vote qc ⟨arrived, current, verified, assembled⟩ ?_
        rw [proposeAsLeader_history, processQc_history]
        simp
  | expire timeout => exact .quiet _ (quiet_singleton (.expired timeout) trivial) rfl rfl
  | collectTimeout timeout =>
      exact .quiet _ (quiet_advanced _ _) (core.processQc_history timeout.highQc)
        (core.processQc_txProposer timeout.highQc)
  | assembleTc timeout tc arrived current verified assembled =>
      refine proposeAsLeader_effect (some tc)
        ((if timeout.highQc.round < core.round then [] else [.advanced timeout.highQc.round]) ++
          [.assembledTc tc] ++
          if tc.round < (core.processQc timeout.highQc).round then [] else [.advanced tc.round])
        (quiet_append (quiet_append (quiet_advanced _ _)
          (quiet_singleton (.assembledTc tc) trivial)) (quiet_advanced _ _)) ?_ ?_ ?_
      · rw [broadcast_eq, sendTo_history, advanceRound_history, record_history,
          setAggregator_history, processQc_history]
        simp only [List.append_assoc]
        rfl
      · rw [broadcast_eq, sendTo_txProposer, advanceRound_txProposer, record_txProposer,
          setAggregator_txProposer, processQc_txProposer]
      · rw [broadcast_eq, sendTo_round, sendTo_highQc, advanceRound_highQc, record_highQc,
          setAggregator_highQc, advanceRound_round, record_round, setAggregator_round,
          ← advanceRound_round]
        refine .assembledTc timeout tc ⟨arrived, current, verified, assembled⟩ ?_
        rw [proposeAsLeader_history, sendTo_history, advanceRound_history]
        simp
  | takeTc tc arrived admits =>
      refine proposeAsLeader_effect (some tc) _ (quiet_advanced _ _)
        (core.advanceRound_history tc.round) (core.advanceRound_txProposer tc.round) ?_
      rw [advanceRound_highQc]
      exact .takenTc tc arrived admits
  | announce digest => exact .quiet _ (quiet_singleton (.announced digest) trivial) rfl rfl
  | clean sent digests rest proposing next => exact .cleans sent digests rfl next
  | skip sent round qc rest proposing next => exact .skips sent round qc rfl next
  | build sent round qc tc rest payload proposing next full =>
      exact .builds sent round qc tc payload full rfl next
  | _ => exact .quiet [] quiet_nil (List.append_nil _).symm rfl

end Core

end DeflHotstuff
