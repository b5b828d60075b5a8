import DeflHotstuff.Proof.Agreement

namespace DeflHotstuff

open Verification

section

variable [Crypto]

/-- The voting rule reads the rounds of the block and of its QC and the TC. -/
theorem Core.safetyRule2_eq {block other : Block} (sameRound : block.round = other.round)
    (sameQcRound : block.qc.round = other.qc.round) (sameTc : block.tc = other.tc) :
    safetyRule2 block = safetyRule2 other := by
  unfold safetyRule2
  rw [sameRound, sameQcRound, sameTc]

/-- The vote covers the digest and the round. -/
theorem Core.makeVote_eq (setup : Setup) (name : PublicKey) (core : Core) {block other : Block}
    (sameDigest : block.digest = other.digest) (sameRound : block.round = other.round)
    (sameRule : safetyRule2 block = safetyRule2 other) :
    (makeVote setup name block core).1 = (makeVote setup name other core).1 := by
  have sameVote : Vote.new block name (setup.sign name) = Vote.new other name (setup.sign name) := by
    unfold Vote.new
    rw [sameDigest, sameRound]
  unfold makeVote
  rw [Handler.read_bind, Handler.read_bind, sameRule, sameRound, sameVote]
  change (Handler.bind _ _ core).1 = (Handler.bind _ _ core).1
  unfold Handler.bind
  rcases safetyRule2 other core with ⟨outcome, after⟩
  cases outcome with
  | ok rule2 =>
      dsimp only
      split <;> rfl
  | error failure => rfl
  | panic message => rfl
  | diverge => rfl

/-- A suspended block that waits for the same batches and the same parent and leads to the same
vote in every state. -/
structure Block.StandsFor (setup : Setup) (block other : Block) : Prop where
  payload : block.payload = other.payload
  parent : ∀ store, setup.parentOf store block = setup.parentOf store other
  decision : ∀ name core,
    (Core.makeVote setup name block core).1 = (Core.makeVote setup name other core).1

/-- Checked blocks with one digest have QCs of one round, whoever received them. -/
theorem System.Safe.sameQcRound {system : System} {nodes : PublicKey → Node}
    (safe : System.Safe system nodes) {first second : PublicKey} {block other : Block}
    (received : .received (.propose block) ∈ (nodes first).core.history)
    (received' : .received (.propose other) ∈ (nodes second).core.history)
    (verified : block.verify system.setup.committee = .ok ())
    (verified' : other.verify system.setup.committee = .ok ())
    (sameDigest : block.digest = other.digest) : block.qc.round = other.qc.round := by
  have backed : (nodes first).core.Backed system.setup first block.qc :=
    Core.backed_of_block received verified
  have backed' : (nodes second).core.Backed system.setup second other.qc :=
    Core.backed_of_block received' verified'
  exact safe.qc_round backed backed' (safe.collisionFree.block_digest sameDigest).2.2.2

/-- Blocks with one digest and one TC that pass the checks lead to the same vote, and one of them
that is suspended stands for the other. -/
theorem vote_decision (collisionFree : CollisionFree) (system : System)
    (few : 3 * system.faultyStake < system.setup.committee.totalVotes)
    (small : 2 * system.setup.committee.totalVotes < 2 ^ 32) (nodes : PublicKey → Node)
    (reachable : system.machine.Reachable nodes) (first second : PublicKey) (block other : Block)
    (received : .received (.propose block) ∈ (nodes first).core.history)
    (received' : .received (.propose other) ∈ (nodes second).core.history)
    (verified : block.verify system.setup.committee = .ok ())
    (verified' : other.verify system.setup.committee = .ok ())
    (sameDigest : block.digest = other.digest) (sameTc : block.tc = other.tc) :
    block.StandsFor system.setup other := by
  have safe : System.Safe system nodes := ⟨collisionFree, few, small, reachable⟩
  have sameQcRound := safe.sameQcRound received received' verified verified' sameDigest
  obtain ⟨_, sameRound, samePayload, sameHash⟩ := collisionFree.block_digest sameDigest
  constructor
  · exact samePayload
  · intro store
    have sameQc : (block.qc == QC.genesis) = (other.qc == QC.genesis) := by
      simp only [BEq.beq, sameHash, sameQcRound]
    unfold Setup.parentOf Block.parent
    rw [sameQc, sameHash]
  · intro name core
    exact Core.makeVote_eq system.setup name core sameDigest sameRound
      (Core.safetyRule2_eq sameRound sameQcRound sameTc)

end

namespace Plain

instance : DecidableEq Signature := inferInstanceAs (DecidableEq (Nat × List Nat))

/-- The first block with a vote in its genesis QC, which nobody checks. -/
def decorated : Block := { firstBlock with qc := ⟨default, 0, [((3 : Nat), sign 3 [])]⟩ }

/-- The leader's block and its decorated copy arrive at one node. -/
def decoratedRun : List (Nat × Event) := [
  (1, .proposer []), (2, .message (.propose firstBlock)), (2, .message (.propose decorated))]

/-- The action brings the proposal with the votes. -/
def brings (votes : List (PublicKey × Signature)) : Action → Bool
  | .received (.propose block) => decide (block.digest = firstBlock.digest ∧ block.tc.isNone ∧
      block.qc.votes = votes) && accepts (block.verify four.setup.committee)
  | _ => false

/-- The computed check finds a proposal that verifies with the votes. -/
theorem of_brings {core : Core} {votes : List (PublicKey × Signature)}
    (brought : core.history.any (brings votes) = true) :
    ∃ block : Block, .received (.propose block) ∈ core.history ∧
      block.digest = firstBlock.digest ∧ block.tc = none ∧ block.qc.votes = votes ∧
        block.verify four.setup.committee = .ok () := by
  obtain ⟨action, inside, observed⟩ := List.any_eq_true.mp brought
  unfold brings at observed
  split at observed
  · rename_i block
    rw [Bool.and_eq_true, decide_eq_true_eq, accepts_iff] at observed
    obtain ⟨⟨sameDigest, noTc, sameVotes⟩, verified⟩ := observed
    exact ⟨block, inside, sameDigest, Option.isNone_iff_eq_none.mp noTc, sameVotes, verified⟩
  · cases observed

/-- Two copies of a block with different votes in the QC lead to one decision. -/
theorem vote_decision_decorated : ∃ (nodes : Nat → Node) (block other : Block),
    four.machine.execute four.machine.initial decoratedRun = some nodes ∧
    .received (.propose block) ∈ (nodes 2).core.history ∧
    .received (.propose other) ∈ (nodes 2).core.history ∧
    block.qc.votes ≠ other.qc.votes ∧ block.StandsFor four.setup other := by
  have taken : ((four.machine.execute four.machine.initial decoratedRun).map fun nodes =>
      ((nodes (2 : Nat)).core.history.any (brings []),
        (nodes (2 : Nat)).core.history.any (brings [((3 : Nat), sign 3 [])]))) =
      some (true, true) := by
    decide +kernel
  obtain ⟨nodes, executed, observed⟩ := Option.map_eq_some_iff.mp taken
  obtain ⟨plain, odd⟩ := Prod.mk.inj observed
  obtain ⟨block, received, isFirst, noTc, votes, verified⟩ := of_brings plain
  obtain ⟨other, received', isFirst', noTc', votes', verified'⟩ := of_brings odd
  have standsFor := vote_decision collisionFree four (by decide) (by decide) nodes
    (.execute executed) (2 : Nat) (2 : Nat) block other received received' verified verified'
    (isFirst.trans isFirst'.symm) (noTc.trans noTc'.symm)
  refine ⟨nodes, block, other, executed, received, received', ?_, standsFor⟩
  rw [votes, votes']
  exact List.cons_ne_nil _ _ |>.symm

/-- The block that the honest leader of the second round builds on the TC of the first. -/
def signedByLeader : Block := propose .genesis (some (expire 1 0)) 2 2

/-- The block without its TC, which nobody signed for. -/
def stripped : Block := { signedByLeader with tc := none }

/-- The leader proposes after the timeouts, and another node gets its block without the TC. -/
def strippedRun : List (Nat × Event) := [
  (1, .timer), (2, .timer), (2, .message (.tc (expire 1 0))), (2, .proposer []),
  (1, .message (.propose stripped))]

/-- The core votes for the block. -/
def votesFor (core : Core) (block : Block) : Bool :=
  match (Core.makeVote four.setup (1 : Nat) block core).1 with
  | .ok (some _) => true
  | _ => false

/-- Two checked blocks of the leader with one digest and one signature that a core decides
differently. -/
def differ (core : Core) (block other : Block) : Bool :=
  decide (block.digest = other.digest ∧ block.signature = other.signature ∧
    block.author = four.setup.committee.getLeader block.round) &&
  accepts (block.verify four.setup.committee) && accepts (other.verify four.setup.committee) &&
  votesFor core block && !votesFor core other

/-- A QC for the hash that three of the four members sign in any round. -/
def certifyIn (hash : List Nat) (round : Nat) : QC where
  hash := hash
  round := round
  votes := [1, 2, 3].map fun (key : Nat) => (key, sign key (sha512 (.vote hash round)))

/-- The voter accepted a copy of a block that the maker built and decides the two differently. -/
def contradicts (maker voter : Core) : Bool :=
  maker.history.any fun built => match built with
    | .built _ _ _ block => voter.history.any fun accepted => match accepted with
        | .accepted other => differ voter block other
        | _ => false
    | _ => false

/-- The computed check finds a built block and another one that was accepted. -/
theorem of_contradicts {maker voter : Core} (observed : contradicts maker voter = true) :
    ∃ sent qc tc block other, .built sent qc tc block ∈ maker.history ∧
      .accepted other ∈ voter.history ∧ differ voter block other = true := by
  obtain ⟨built, isBuilt, observed⟩ := List.any_eq_true.mp observed
  split at observed
  · rename_i sent qc tc block
    obtain ⟨accepted, isAccepted, observed⟩ := List.any_eq_true.mp observed
    split at observed
    · rename_i other
      exact ⟨sent, qc, tc, block, other, isBuilt, isAccepted, observed⟩
    · cases observed
  · cases observed

/-- Without the TC that it came with, the accepted block of an honest leader gets no vote. Where
a quorum signs one hash in two rounds, neither does the block with the other QC. -/
theorem vote_decision_fails :
    (∃ nodes, four.machine.Reachable nodes ∧ ∃ sent qc tc block other,
      .built sent qc tc block ∈ (nodes (2 : Nat)).core.history ∧
      .accepted other ∈ (nodes (1 : Nat)).core.history ∧
      differ (nodes (1 : Nat)).core block other = true) ∧
    ∃ block other : Block, block.tc = other.tc ∧ differ .new block other = true := by
  constructor
  · have taken : ((four.machine.execute four.machine.initial strippedRun).map fun nodes =>
        contradicts (nodes (2 : Nat)).core (nodes (1 : Nat)).core) = some true := by
      decide +kernel
    obtain ⟨nodes, executed, observed⟩ := Option.map_eq_some_iff.mp taken
    exact ⟨nodes, .execute executed, of_contradicts observed⟩
  · exact ⟨propose (certifyIn firstBlock.digest 1) none 2 2,
      propose (certifyIn firstBlock.digest 3) none 2 2, rfl, by decide +kernel⟩

end Plain

end DeflHotstuff
