import DeflHotstuff.Proof.Availability

namespace DeflHotstuff

open Verification

section

variable [Crypto] {setup : Setup} {name : PublicKey} {around : Surroundings}

/-- The node signs the action as a vote or as a timeout. -/
def Action.pledge : Action → Bool
  | .voted _ => true
  | .expired _ => true
  | _ => false

/-- The node checked a proposal or signs the action. -/
def Action.decision : Action → Bool
  | .accepted _ => true
  | action => action.pledge

/-- The order that the lock asks of two signed votes or timeouts. -/
def Action.Before : Action → Action → Prop
  | .voted block, .voted other => block.round < other.round
  | .expired timeout, .voted block => timeout.round < block.round
  | .voted block, .expired timeout => block.qc.round ≤ timeout.highQc.round
  | _, _ => True

namespace Core

/-- The votes and timeouts that the core signed, in their order. -/
def pledges (core : Core) : List Action := core.select Action.pledge

/-- A step accepts a proposal, votes above the last voted round, expires with the high QC, or
leaves every selection of these actions alone. -/
theorem Step.select_cases {core after : Core} (step : Step setup name around core after)
    {selected : Action → Bool} (only : ∀ action, selected action = true → action.decision = true) :
    after.select selected = core.select selected ∨
      (∃ block, after =
        (advanceByTc block.tc (core.processQc block.qc)).record (.accepted block)) ∨
      (∃ block, after.history = core.history ++ [.voted block] ∧
        core.lastVotedRound < block.round) ∨
      ∃ timeout, after.history = core.history ++ [.expired timeout] ∧
        timeout.highQc = core.highQc := by
  have other (action : Action) (undecided : action.decision = false) : selected action = false :=
    Bool.eq_false_of_not_eq_true fun chosen => by simp [only action chosen] at undecided
  have silent (round : Nat) : selected (.advanced round) = false := other _ rfl
  have noRequest (round : Nat) (qc : QC) (tc : Option TC) : selected (.made round qc tc) = false :=
    other _ rfl
  cases step with
  | accept block => exact .inr (.inl ⟨block, rfl⟩)
  | vote b0 b1 block processed handed inRound fresh votable =>
      exact .inr (.inr (.inl ⟨block, rfl, fresh⟩))
  | expire timeout isNew => exact .inr (.inr (.inr ⟨timeout, rfl, by rw [isNew]; rfl⟩))
  | receive message => exact .inl (record_other _ (other _ rfl))
  | resume block => exact .inl (record_other _ (other _ rfl))
  | process b0 b1 block => exact .inl (record_other (core.storeBlock block) (other _ rfl))
  | decide b0 b1 block => exact .inl (record_other core (other (.committed b0) rfl))
  | assembleQc vote qc =>
      left
      rw [proposeAsLeader_select _ _ _ noRequest, processQc_select _ silent,
        record_other _ (other _ rfl)]
      rfl
  | collectTimeout timeout => exact .inl (core.processQc_select silent timeout.highQc)
  | assembleTc timeout tc =>
      left
      rw [proposeAsLeader_select _ _ _ noRequest]
      apply (advanceRound_select _ silent tc.round).trans
      rw [record_other _ (other _ rfl)]
      exact core.processQc_select silent timeout.highQc
  | takeTc tc =>
      left
      rw [proposeAsLeader_select _ _ _ noRequest, advanceRound_select _ silent]
  | announce digest => exact .inl (record_other _ (other _ rfl))
  | clean sent digests => exact .inl (record_other _ (other _ rfl))
  | build => exact .inl (record_other _ (other _ rfl))
  | _ => exact .inl rfl

/-- A step signs at most one vote above the last voted round or one timeout with the high QC. -/
theorem Step.pledges_cases {core after : Core} (step : Step setup name around core after) :
    after.pledges = core.pledges ∨
      (∃ block, after.pledges = core.pledges ++ [.voted block] ∧
        core.lastVotedRound < block.round) ∨
      ∃ timeout, after.pledges = core.pledges ++ [.expired timeout] ∧
        timeout.highQc = core.highQc := by
  have only (action : Action) (pledged : action.pledge = true) : action.decision = true := by
    cases action <;> first | rfl | exact pledged
  have grows {action : Action} (pledged : action.pledge = true)
      (grown : after.history = core.history ++ [action]) :
      after.pledges = core.pledges ++ [action] := by
    unfold pledges select
    rw [grown]
    simp [pledged]
  obtain same | ⟨block, rfl⟩ | ⟨block, grown, fresh⟩ | ⟨timeout, grown, isHighQc⟩ :=
    step.select_cases only
  · exact .inl same
  · left
    unfold pledges
    rw [record_other _ rfl, advanceByTc_select _ fun _ => rfl, processQc_select _ fun _ => rfl]
  · exact .inr (.inl ⟨block, grows rfl grown, fresh⟩)
  · exact .inr (.inr ⟨timeout, grows rfl grown, isHighQc⟩)

/-- A node votes and times out in rounds up to its own. -/
theorem Step.lastVoted_below {core after : Core} (step : Step setup name around core after)
    (below : core.lastVotedRound ≤ core.round) : after.lastVotedRound ≤ after.round := by
  have grows := step.monotone.1
  have sameBooks {after : Core} (books : SameBooks core after) (grows : core.round ≤ after.round) :
      after.lastVotedRound ≤ after.round := by
    rw [books.lastVotedRound]
    exact below.trans grows
  cases step with
  | accept block => exact sameBooks (accept_books ..) grows
  | vote b0 b1 block processed handed inRound => exact max_le below inRound.le
  | assembleQc vote qc => exact sameBooks (assembleQc_books ..) grows
  | expire timeout => exact max_le below le_rfl
  | collectTimeout timeout => exact sameBooks (collectTimeout_books ..) grows
  | assembleTc timeout tc => exact sameBooks (assembleTc_books ..) grows
  | takeTc tc => exact sameBooks (takeTc_books ..) grows
  | _ => exact below

/-- The votes and timeouts stand in the order of the lock, and the counters are sound. -/
structure Locked (core : Core) : Prop where
  ordered : core.pledges.Pairwise Action.Before
  voted : core.lastVotedRound ≤ core.round
  committed : core.lastCommittedRound = 0 ∨
    ∃ b0, .committed b0 ∈ core.history ∧ b0.round = core.lastCommittedRound

/-- A new vote is above every vote and timeout, and a new timeout covers every vote. -/
theorem Step.pledges_ordered {core after : Core} (step : Step setup name around core after)
    (tracked : core.Tracked name) (disciplined : core.Disciplined)
    (ordered : core.pledges.Pairwise Action.Before) : after.pledges.Pairwise Action.Before := by
  have extend (action : Action) (before : ∀ old ∈ core.pledges, old.Before action) :
      (core.pledges ++ [action]).Pairwise Action.Before := by
    rw [List.pairwise_append]
    refine ⟨ordered, List.pairwise_singleton .., fun old inside new isNew => ?_⟩
    cases List.mem_singleton.mp isNew
    exact before old inside
  rcases step.pledges_cases with same | ⟨block, grown, fresh⟩ | ⟨timeout, grown, isHighQc⟩
  · rwa [same]
  · rw [grown]
    apply extend
    intro old inside
    obtain ⟨recorded, _⟩ := mem_select.mp inside
    cases old with
    | voted other => exact (disciplined.voted other recorded).1.trans_lt fresh
    | expired timeout => exact (disciplined.expired timeout recorded).1.trans_lt fresh
    | _ => trivial
  · rw [grown]
    apply extend
    intro old inside
    obtain ⟨recorded, _⟩ := mem_select.mp inside
    cases old with
    | voted block =>
        change block.qc.round ≤ timeout.highQc.round
        rw [isHighQc]
        exact (tracked.trusted (disciplined.voted block recorded).2.2.2.2).2
    | _ => trivial

/-- A step keeps the votes and timeouts in order. -/
theorem Step.locked {core after : Core} (step : Step setup name around core after)
    (tracked : core.Tracked name) (disciplined : core.Disciplined) (locked : core.Locked) :
    after.Locked := by
  constructor
  · exact step.pledges_ordered tracked disciplined locked.ordered
  · exact step.lastVoted_below locked.voted
  · rcases step.commit_cases with ⟨_, same⟩ | ⟨b0, _, committed, _, _, _, isRound, _⟩
    · rw [same]
      exact locked.committed.imp_right fun ⟨b0, committed, isRound⟩ =>
        ⟨b0, step.history_subset committed, isRound⟩
    · exact .inr ⟨b0, step.history_subset committed, isRound.symm⟩

/-- A failed handler keeps the votes and timeouts in order. -/
theorem Fault.locked {core after : Core} (fault : Fault setup core after)
    (locked : core.Locked) : after.Locked := by
  rw [fault.same]
  exact ⟨locked.ordered, locked.voted, locked.committed⟩

/-- A core that boots has no vote and no timeout. -/
theorem boot_locked : (boot setup name).Locked := by
  have books := proposeAsLeader_books setup name .new none
  constructor
  · rw [boot, pledges, proposeAsLeader_select _ _ _ fun _ _ _ => rfl]
    exact .nil
  · rw [boot, books.lastVotedRound]
    exact Nat.zero_le _
  · exact .inl books.lastCommittedRound

end Core

/-- The votes and timeouts of a reachable node are in order. -/
theorem Node.reachable_locked {node : Node} (reachable : (machine setup name).Reachable node) :
    node.core.Locked := by
  have holds := reachable_core reachable
    (fun core => core.Regular setup name ∧ core.Locked)
    ⟨Core.boot_regular, Core.boot_locked⟩
    (fun _ _ step holds => ⟨step.regular holds.1,
      step.locked holds.1.tracked holds.1.disciplined holds.2⟩)
    (fun _ _ fault holds => ⟨fault.regular holds.1, fault.locked holds.2⟩)
  exact holds.2

/-- The QC behind a commit certifies the child of the committed block in its own round. -/
theorem System.Safe.committed_below {system : System} {nodes : PublicKey → Node}
    (safe : System.Safe system nodes) {name : PublicKey} {b0 : Block}
    (committed : .committed b0 ∈ (nodes name).core.history) :
    b0.round < (nodes name).core.highQc.round := by
  have regular := safe.regular name
  obtain ⟨b1, block, processed, consecutive⟩ := regular.stocked.committed b0 committed
  obtain ⟨trusted, parent, _⟩ := regular.stocked.processed b0 b1 block processed
  have certified := (safe.parent trusted parent).1.2
  have covered := (regular.tracked.trusted trusted).2
  omega

/-- An honest core signs votes in increasing rounds, never after its timeout and never against
its lock, and its counters stand in order. -/
theorem vote_discipline (collisionFree : CollisionFree) (system : System)
    (few : 3 * system.faultyStake < system.setup.committee.totalVotes)
    (small : 2 * system.setup.committee.totalVotes < 2 ^ 32) (nodes : PublicKey → Node)
    (reachable : system.machine.Reachable nodes) (name : PublicKey) :
    (nodes name).core.pledges.Pairwise Action.Before ∧
      (∀ block, .voted block ∈ (nodes name).core.history → block.qc.round < block.round) ∧
      (nodes name).core.lastCommittedRound ≤ (nodes name).core.highQc.round ∧
      (nodes name).core.highQc.round < (nodes name).core.round ∧
      (nodes name).core.lastVotedRound ≤ (nodes name).core.round := by
  have safe : System.Safe system nodes := ⟨collisionFree, few, small, reachable⟩
  have regular := safe.regular name
  have locked := Node.reachable_locked (System.reachable_node reachable name)
  refine ⟨locked.ordered, fun block voted => (regular.disciplined.voted block voted).2.2.1, ?_,
    regular.tracked.highQc, locked.voted⟩
  rcases locked.committed with none | ⟨b0, committed, isRound⟩
  · rw [none]
    exact Nat.zero_le _
  · rw [← isRound]
    exact (safe.committed_below committed).le

end

namespace Plain

/-- A member of the committing run made three pledges, in order. -/
theorem vote_discipline_commitRun : ∃ nodes, four.machine.Reachable nodes ∧
    (nodes (1 : Nat)).core.pledges.length = 3 ∧
    (nodes (1 : Nat)).core.pledges.Pairwise Action.Before := by
  have taken : ((four.machine.execute four.machine.initial commitRun).map
      fun nodes => (nodes (1 : Nat)).core.pledges.length) = some 3 := by
    decide +kernel
  obtain ⟨nodes, executed, signed⟩ := Option.map_eq_some_iff.mp taken
  exact ⟨nodes, .execute executed, signed, (vote_discipline collisionFree four (by decide)
    (by decide) nodes (.execute executed) (1 : Nat)).1⟩

/-- Eight members whose doubled stake wraps around to zero. Two neighbours are faulty. -/
def crowded : System where
  setup := setup (committee 8 (2 ^ 28) eight_nonempty eight_heavy) fun _ => none
  faulty key := decide (key = (3 : Nat) ∨ key = (4 : Nat))

/-- The faulty leaders certify their own two-chain in a round below it. -/
def sunkenRun : List (Nat × Event) :=
  let head := propose .genesis none 3 3
  let child := propose (forge head.digest 1) none 4 4
  [(0, .batch [7]), (0, .message (.propose head)), (0, .message (.propose child)),
    (0, .message (.propose (Block.new (forge child.digest 1) none (3 : Nat) 11
      [hash (.batch [7])] (sign 3))))]

/-- Where the quorum overflows, the core commits a block above its high QC. -/
theorem vote_discipline_fails : 3 * crowded.faultyStake < crowded.setup.committee.totalVotes ∧
    ∃ nodes, crowded.machine.Reachable nodes ∧
      (nodes (0 : Nat)).core.highQc.round < (nodes (0 : Nat)).core.lastCommittedRound := by
  have taken : ((crowded.machine.execute crowded.machine.initial sunkenRun).map fun nodes =>
      ((nodes (0 : Nat)).core.highQc.round, (nodes (0 : Nat)).core.lastCommittedRound)) =
      some (1, 3) := by
    decide +kernel
  obtain ⟨nodes, executed, observed⟩ := Option.map_eq_some_iff.mp taken
  obtain ⟨isHighQc, isCommitted⟩ := Prod.mk.inj observed
  refine ⟨by decide +kernel, nodes, .execute executed, ?_⟩
  rw [isHighQc, isCommitted]
  decide

end Plain

end DeflHotstuff
