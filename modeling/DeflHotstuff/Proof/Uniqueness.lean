import DeflHotstuff.Proof.Agreement
import DeflHotstuff.Proof.Rounds

namespace DeflHotstuff

open Verification

section

variable [Crypto] {setup : Setup} {name : PublicKey}

/-- The QC that the action brings to the core. -/
def Action.certificate : Action → Option QC
  | .received (.propose block) => some block.qc
  | .received (.timeout timeout) => some timeout.highQc
  | .assembledQc qc => some qc
  | _ => none

/-- The QCs that the core received or assembled. -/
def Core.certificates (core : Core) : List QC := core.history.filterMap Action.certificate

/-- A listed certificate is one that the core has. -/
theorem Core.hasQc_of_mem {core : Core} {qc : QC} (inside : qc ∈ core.certificates) :
    core.HasQc qc := by
  obtain ⟨action, recorded, brings⟩ := List.mem_filterMap.mp inside
  cases action with
  | received message =>
      cases message with
      | propose block =>
          cases brings
          exact .proposal block recorded
      | timeout timeout =>
          cases brings
          exact .timeout timeout recorded
      | _ => cases brings
  | assembledQc other =>
      cases brings
      exact .assembled _ recorded
  | _ => cases brings

/-- A core holds the signatures behind the QCs that it assembled. -/
theorem Node.assembled_held {node : Node} (reachable : (Node.machine setup name).Reachable node)
    (qc : QC) (assembled : .assembledQc qc ∈ node.core.history) :
    ∀ claim ∈ qc.claims, node.core.Holds name claim := by
  refine (Node.reachable_core reachable (fun core => core.Regular setup name ∧
    ∀ qc, .assembledQc qc ∈ core.history → ∀ claim ∈ qc.claims, core.Holds name claim)
    ?_ ?_ ?_).2 qc assembled
  · refine ⟨Core.boot_regular, fun qc inside => ?_⟩
    cases (Core.mem_boot inside).1
  · intro core after step ⟨regular, held⟩
    refine ⟨step.regular regular, fun qc inside claim carried => ?_⟩
    have keeps : ∀ action ∈ core.history, action ∈ after.history := fun _ => step.history_subset
    rcases step.new_action inside with old | ⟨vote, assembles⟩
    · exact (held qc old claim carried).mono keeps
    · have holds := (regular.evidenced.backed_assembledQc assembles).2.1
      exact (holds claim carried).mono keeps
  · intro core after fault ⟨regular, held⟩
    refine ⟨fault.regular regular, fun qc inside claim carried => ?_⟩
    have same : after.history = core.history := by rw [fault.same]
    rw [same] at inside
    exact (held qc inside claim carried).mono fun _ recorded => same ▸ recorded

/-- A node holds the signatures of a QC that it received or assembled. -/
theorem Node.hasQc_held {node : Node} (reachable : (Node.machine setup name).Reachable node)
    {qc : QC} (has : node.core.HasQc qc) : ∀ claim ∈ qc.claims, node.core.Holds name claim := by
  intro claim carried
  cases has with
  | proposal block received =>
      exact .inl ⟨_, received, List.mem_cons_of_mem _ (List.mem_append_left _ carried)⟩
  | timeout timeout received => exact .inl ⟨_, received, List.mem_cons_of_mem _ carried⟩
  | assembled qc assembled => exact Node.assembled_held reachable qc assembled claim carried

/-- A verified QC certifies its block in the two-chain protocol. -/
theorem System.Safe.hasQc_certified {system : System} {nodes : PublicKey → Node}
    (safe : System.Safe system nodes) {name : PublicKey} {qc : QC}
    (has : (nodes name).core.HasQc qc) (verified : qc.verify system.setup.committee = .ok ()) :
    safe.chainVotes.Certified qc.hash qc.round := by
  have held := Node.hasQc_held (System.reachable_node safe.reachable name) has
  obtain ⟨isQuorum, signed⟩ := QC.verify_ok.mp verified
  refine safe.certified_of_voted (System.quorum_of_names safe.small isQuorum)
    fun voter inside honest => ?_
  obtain ⟨vote, listed, rfl⟩ := List.mem_map.mp (List.mem_toFinset.mp inside)
  have holds := held ⟨vote.1, qc.digest, vote.2⟩ (List.mem_map.mpr ⟨vote, listed, rfl⟩)
  have valid := (Crypto.verifyBatch_iff _ _).mp signed vote listed
  exact safe.collisionFree.signed_vote
    (System.signed_of_holds (System.reachable_genuine safe.reachable) holds honest valid)

/-- No two QCs of one round certify different blocks, whichever honest nodes hold them and whether
they came with a proposal or a timeout or were assembled from votes. -/
theorem certified_once (collisionFree : CollisionFree) (system : System)
    (few : 3 * system.faultyStake < system.setup.committee.totalVotes)
    (small : 2 * system.setup.committee.totalVotes < 2 ^ 32) (nodes : PublicKey → Node)
    (reachable : system.machine.Reachable nodes) (first second : PublicKey) (qc qc' : QC)
    (has : (nodes first).core.HasQc qc) (has' : (nodes second).core.HasQc qc')
    (verified : qc.verify system.setup.committee = .ok ())
    (verified' : qc'.verify system.setup.committee = .ok ()) (same : qc.round = qc'.round) :
    qc.hash = qc'.hash := by
  have safe : System.Safe system nodes := ⟨collisionFree, few, small, reachable⟩
  have certified := safe.hasQc_certified has verified
  have certified' := safe.hasQc_certified has' verified'
  rw [← same] at certified'
  exact certified.unique certified'

/-- While the rounds fit `u64`, once an honest node commits a block, every QC of at least its round
that any honest node holds certifies the block itself or a descendant of it. -/
theorem certificates_extend (collisionFree : CollisionFree) (system : System)
    (few : 3 * system.faultyStake < system.setup.committee.totalVotes)
    (small : 2 * system.setup.committee.totalVotes < 2 ^ 32) (nodes : PublicKey → Node)
    (inRange : system.InRange nodes) (first second : PublicKey) (b0 : Block) (qc : QC)
    (committed : .committed b0 ∈ (nodes first).core.history)
    (has : (nodes second).core.HasQc qc) (verified : qc.verify system.setup.committee = .ok ())
    (later : b0.round ≤ qc.round) :
    b0.digest = qc.hash ∨ Ancestor b0.digest qc.hash := by
  have safe : System.Safe system nodes := ⟨collisionFree, few, small, inRange.reachable⟩
  have certified := safe.hasQc_certified has verified
  rcases safe.committed_head committed with
    isGenesis | ⟨voter, tail, correct, cast, tailCertified, parent, parentRound, consecutive, head⟩
  · rw [isGenesis]
    exact .inr (safe.ancestor_of_descends (ChainVotes.extends_genesis _ _ certified))
  · rcases ChainVotes.extends_head head correct cast tailCertified parent parentRound consecutive
      qc.hash qc.round certified later with same | descends
    · exact .inl same.symm
    · exact .inr (safe.ancestor_of_descends descends)

end

namespace Plain

/-- The verified QCs of the round that the core has. -/
def certificatesOf (core : Core) (round : Nat) : List QC := core.certificates.filter fun qc =>
  decide (qc.round = round) && accepts (qc.verify four.setup.committee)

/-- The computed list has verified certificates of the round. -/
theorem of_certificatesOf {core : Core} {round : Nat} {qc : QC}
    (listed : qc ∈ certificatesOf core round) :
    core.HasQc qc ∧ qc.verify four.setup.committee = .ok () ∧ qc.round = round := by
  obtain ⟨inside, checked⟩ := List.mem_filter.mp listed
  rw [Bool.and_eq_true, decide_eq_true_iff] at checked
  exact ⟨Core.hasQc_of_mem inside, accepts_iff.mp checked.2, checked.1⟩

def signers (qc : QC) : List Nat := qc.votes.map Prod.fst

/-- Two members hold QCs of the first round with different signers. -/
theorem certified_once_commitRun : ∃ (nodes : Nat → Node) (qc qc' : QC),
    four.machine.execute four.machine.initial commitRun = some nodes ∧
    qc ∈ certificatesOf (nodes 1).core 1 ∧ qc' ∈ certificatesOf (nodes 2).core 1 ∧
      signers qc ≠ signers qc' ∧ qc.hash = qc'.hash := by
  have taken : (four.machine.execute four.machine.initial commitRun).map (fun nodes =>
      (certificatesOf (nodes (1 : Nat)).core 1).any fun qc =>
        (certificatesOf (nodes (2 : Nat)).core 1).any fun qc' =>
          decide (signers qc ≠ signers qc')) = some true := by
    decide +kernel
  obtain ⟨nodes, executed, observed⟩ := Option.map_eq_some_iff.mp taken
  obtain ⟨qc, listed, found⟩ := List.any_eq_true.mp observed
  obtain ⟨qc', listed', different⟩ := List.any_eq_true.mp found
  obtain ⟨has, verified, round⟩ := of_certificatesOf listed
  obtain ⟨has', verified', round'⟩ := of_certificatesOf listed'
  exact ⟨nodes, qc, qc', executed, listed, listed', of_decide_eq_true different,
    certified_once collisionFree four (by decide) (by decide) nodes (.execute executed) (1 : Nat)
      (2 : Nat) qc qc' has has' verified verified' (round.trans round'.symm)⟩

/-- One member committed the first block, and another one holds the QC of the second round. -/
theorem certificates_extend_commitRun : ∃ (nodes : Nat → Node) (qc : QC),
    four.machine64.execute four.machine64.initial commitRun = some nodes ∧
    qc ∈ certificatesOf (nodes 2).core 2 ∧
      (firstBlock.digest = qc.hash ∨ Ancestor firstBlock.digest qc.hash) := by
  have taken : (four.machine64.execute four.machine64.initial commitRun).map (fun nodes =>
      decide (firstBlock.digest ∈ (nodes (1 : Nat)).core.commitDigests) &&
        (certificatesOf (nodes (2 : Nat)).core 2).any fun _ => true) = some true := by
    decide +kernel
  obtain ⟨nodes, executed, observed⟩ := Option.map_eq_some_iff.mp taken
  obtain ⟨inside, found⟩ := Bool.and_eq_true_iff.mp observed
  obtain ⟨qc, listed, _⟩ := List.any_eq_true.mp found
  obtain ⟨has, verified, round⟩ := of_certificatesOf listed
  obtain ⟨b0, committed, same⟩ := Core.mem_commitDigests (of_decide_eq_true inside)
  have isRound : b0.round = 1 := (collisionFree.block_digest same).2.1
  refine ⟨nodes, qc, executed, listed, ?_⟩
  rw [← same]
  exact certificates_extend collisionFree four (by decide) (by decide) nodes
    (.of_execute (by decide +kernel) executed) (1 : Nat) (2 : Nat) b0 qc committed has verified
    (by omega)

end Plain

end DeflHotstuff
