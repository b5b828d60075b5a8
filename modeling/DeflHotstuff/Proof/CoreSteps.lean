import DeflHotstuff.Proof.CoreFrame

namespace DeflHotstuff

open Verification

variable [Crypto]

/-- The stored parent that `get_parent_block` returns, read without its side effect. -/
def Setup.parentOf (setup : Setup) (store : Store) (block : Block) : Option Block :=
  if block.qc == QC.genesis then some .genesis else (store.read block.parent).bind setup.decode

/-- The voting rule of `make_vote` apart from the round that was voted last. -/
def Block.Votable (block : Block) : Prop :=
  block.qc.round + 1 = block.round ∨
    ∃ tc, block.tc = some tc ∧ tc.round + 1 = block.round ∧
      ∀ round ∈ tc.highQcRounds, round ≤ block.qc.round

instance (block : Block) : Decidable block.Votable :=
  match carried : block.tc with
  | none => decidable_of_iff (block.qc.round + 1 = block.round) (by simp [Block.Votable, carried])
  | some tc => decidable_of_iff (block.qc.round + 1 = block.round ∨
      tc.round + 1 = block.round ∧ ∀ round ∈ tc.highQcRounds, round ≤ block.qc.round)
      (by simp [Block.Votable, carried])

/-- The ancestors that the loop of `commit` collects, the parent first. -/
inductive Collects (setup : Setup) (store : Store) (lastCommittedRound : Nat) :
    Block → List Block → Prop
  | stop {block : Block} (reached : ¬ lastCommittedRound + 1 < block.round) :
      Collects setup store lastCommittedRound block []
  | more {block ancestor : Block} {rest : List Block}
      (above : lastCommittedRound + 1 < block.round)
      (parent : setup.parentOf store block = some ancestor)
      (collects : Collects setup store lastCommittedRound ancestor rest) :
      Collects setup store lastCommittedRound block (ancestor :: rest)

/-- The loop of `commit` reaches the ancestor after this many turns. -/
inductive Climbs (setup : Setup) (store : Store) (lastCommittedRound : Nat) (block : Block) :
    Nat → Block → Prop
  | start : Climbs setup store lastCommittedRound block 0 block
  | turn {turns : Nat} {child ancestor : Block}
      (climbs : Climbs setup store lastCommittedRound block turns child)
      (above : lastCommittedRound + 1 < child.round)
      (parent : setup.parentOf store child = some ancestor) :
      Climbs setup store lastCommittedRound block (turns + 1) ancestor

namespace Core

/-- The block passed the checks of `handle_proposal` or was built by the node's own proposer. -/
def Trusted (core : Core) (block : Block) : Prop :=
  .accepted block ∈ core.history ∨ ∃ sent qc tc, .built sent qc tc block ∈ core.history

/-- The core handles a block after its checks or after it comes back through the loopback. -/
def Handed (core : Core) (block : Block) : Prop :=
  .accepted block ∈ core.history ∨ .resumed block ∈ core.history

/-- The vote arrived in a message or is the node's own vote for a block. -/
def VoteArrived (setup : Setup) (name : PublicKey) (core : Core) (vote : Vote) : Prop :=
  .received (.vote vote) ∈ core.history ∨
    ∃ block, .voted block ∈ core.history ∧ vote = Vote.new block name (setup.sign name)

def TimeoutArrived (core : Core) (timeout : Timeout) : Prop :=
  .received (.timeout timeout) ∈ core.history ∨ .expired timeout ∈ core.history

end Core

/-- What a turn may bring about: the messages and the digests that arrive, whether the proposer
acts, the TC messages that the core takes and the blocks that it commits or resumes. -/
structure Surroundings where
  arrives : ConsensusMessage → Prop
  announces : Core → Digest → Prop
  proposing : Prop
  admits : Core → TC → Prop
  commits : Core → Block → Prop
  resumes : Core → Block → Prop

/-- Every change of the core and of the queues behind it, each with what the code checked. -/
inductive Core.Step (setup : Setup) (name : PublicKey) (around : Surroundings) :
    Core → Core → Prop
  | receive {core : Core} (message : ConsensusMessage) (arrives : around.arrives message) :
      Step setup name around core (core.record (.received message))
  | resume {core : Core} (block : Block) (trusted : core.Trusted block)
      (resumes : around.resumes core block) :
      Step setup name around core (core.record (.resumed block))
  | suspend {core : Core} (block : Block)
      (handed : (.accepted block ∈ core.history ∧
        ∀ digest ∈ block.payload, (core.store.read digest).isSome) ∨
        .resumed block ∈ core.history) :
      Step setup name around core { core with innerChannel := core.innerChannel ++ [block] }
  | accept {core : Core} (block : Block) (arrived : .received (.propose block) ∈ core.history)
      (leader : block.author = setup.committee.getLeader block.round)
      (verified : block.verify setup.committee = .ok ()) :
      Step setup name around core
        ((advanceByTc block.tc (core.processQc block.qc)).record (.accepted block))
  | awaitPayload {core : Core} (block : Block) (missing : List Digest)
      (accepted : .accepted block ∈ core.history)
      (absent : missing = block.payload.filter fun digest => (core.store.read digest).isNone)
      (some : missing ≠ []) :
      Step setup name around core { core with
        txMempool := core.txMempool ++ [.synchronize missing block.author]
        txPayloadWaiter := core.txPayloadWaiter ++ [.wait missing block] }
  | process {core : Core} (b0 b1 block : Block)
      (handed : (.accepted block ∈ core.history ∧
        ∀ digest ∈ block.payload, (core.store.read digest).isSome) ∨
        .resumed block ∈ core.history)
      (parent : setup.parentOf core.store block = some b1)
      (grandparent : setup.parentOf core.store b1 = some b0) :
      Step setup name around core ((core.storeBlock block).cleanupProposer b0 b1 block)
  | decide {core : Core} (b0 b1 block : Block) (processed : .processed b0 b1 block ∈ core.history)
      (consecutive : b0.round + 1 = b1.round) :
      Step setup name around core { core with
        txMempool := core.txMempool ++ [.cleanup b0.round]
        txPayloadWaiter := core.txPayloadWaiter ++ [.cleanup b0.round]
        history := core.history ++ [.committed b0] }
  | commit {core : Core} (block : Block) (ancestors : List Block)
      (decided : .committed block ∈ core.history) (commits : around.commits core block)
      (above : core.lastCommittedRound < block.round)
      (collects : Collects setup core.store core.lastCommittedRound block ancestors) :
      Step setup name around core { core with
        lastCommittedRound := block.round
        txCommit := core.txCommit ++ (ancestors ++ [block]) }
  | vote {core : Core} (b0 b1 block : Block) (processed : .processed b0 b1 block ∈ core.history)
      (handed : core.Handed block) (inRound : block.round = core.round)
      (fresh : core.lastVotedRound < block.round) (votable : block.Votable) :
      Step setup name around core
        ((core.increaseLastVotedRound block.round).record (.voted block))
  | send {core : Core} (addresses : List SocketAddr) (message : ConsensusMessage) :
      Step setup name around core (core.sendTo addresses message)
  | collectVote {core : Core} (vote : Vote) (arrived : core.VoteArrived setup name vote)
      (current : core.round ≤ vote.round) (verified : vote.verify setup.committee = .ok ()) :
      Step setup name around core
        (core.setAggregator (core.aggregator.addVote vote setup.committee).2)
  | assembleQc {core : Core} (vote : Vote) (qc : QC) (arrived : core.VoteArrived setup name vote)
      (current : core.round ≤ vote.round) (verified : vote.verify setup.committee = .ok ())
      (assembled : (core.aggregator.addVote vote setup.committee).1 = .ok (some qc)) :
      Step setup name around core (proposeAsLeader setup name none
        (((core.setAggregator (core.aggregator.addVote vote setup.committee).2).record
          (.assembledQc qc)).processQc qc))
  | expire {core : Core} (timeout : Timeout)
      (isNew : timeout = Timeout.new core.highQc core.round name (setup.sign name)) :
      Step setup name around core (broadcast setup name (.timeout timeout)
        ((core.increaseLastVotedRound core.round).record (.expired timeout)))
  | collectTimeout {core : Core} (timeout : Timeout) (arrived : core.TimeoutArrived timeout)
      (current : core.round ≤ timeout.round)
      (verified : timeout.verify setup.committee = .ok ()) :
      Step setup name around core ((core.processQc timeout.highQc).setAggregator
        ((core.processQc timeout.highQc).aggregator.addTimeout timeout setup.committee).2)
  | assembleTc {core : Core} (timeout : Timeout) (tc : TC) (arrived : core.TimeoutArrived timeout)
      (current : core.round ≤ timeout.round)
      (verified : timeout.verify setup.committee = .ok ())
      (assembled : ((core.processQc timeout.highQc).aggregator.addTimeout timeout
        setup.committee).1 = .ok (some tc)) :
      Step setup name around core (proposeAsLeader setup name (some tc)
        (broadcast setup name (.tc tc)
          ((((core.processQc timeout.highQc).setAggregator
            ((core.processQc timeout.highQc).aggregator.addTimeout timeout
              setup.committee).2).record (.assembledTc tc)).advanceRound tc.round)))
  | takeTc {core : Core} (tc : TC) (arrived : .received (.tc tc) ∈ core.history)
      (admits : around.admits core tc) :
      Step setup name around core
        (proposeAsLeader setup name (some tc) (core.advanceRound tc.round))
  | announce {core : Core} (digest : Digest) (announces : around.announces core digest) :
      Step setup name around core (core.record (.announced digest))
  | clean {core : Core} (sent : Nat) (digests : List Digest) (rest : List Stamped)
      (proposing : around.proposing) (next : core.txProposer = ⟨sent, .cleanup digests⟩ :: rest) :
      Step setup name around core ({ core with txProposer := rest }.record (.cleaned digests))
  | skip {core : Core} (sent round : Nat) (qc : QC) (rest : List Stamped)
      (proposing : around.proposing) (next : core.txProposer = ⟨sent, .make round qc none⟩ :: rest) :
      Step setup name around core { core with txProposer := rest }
  | build {core : Core} (sent round : Nat) (qc : QC) (tc : Option TC) (rest : List Stamped)
      (payload : List Digest) (proposing : around.proposing)
      (next : core.txProposer = ⟨sent, .make round qc tc⟩ :: rest)
      (full : tc = none → 5 < round → payload ≠ []) :
      Step setup name around core ({ core with txProposer := rest }.record
        (.built sent qc tc (Block.new qc tc name round payload (setup.sign name))))
  | awaited {core : Core} (message : PayloadWaiterMessage) (rest : List PayloadWaiterMessage)
      (next : core.txPayloadWaiter = message :: rest) :
      Step setup name around core { core with txPayloadWaiter := rest }
  | suspended {core : Core} (block : Block) (rest : List Block)
      (next : core.innerChannel = block :: rest) :
      Step setup name around core { core with innerChannel := rest }
  | storeBatch {core : Core} (bytes : List UInt8) :
      Step setup name around core
        { core with store := core.store.write (sha512 (.batch bytes)) (.batch bytes) }

/-- The ways in which the core panics or loops for ever, with what it left behind. -/
inductive Core.Fault (setup : Setup) : Core → Core → Prop
  | emptyTc {core : Core} (block : Block) (tc : TC) (handed : core.Handed block)
      (carried : block.tc = some tc) (empty : tc.votes = []) : Fault setup core core
  | missingParent {core : Core} (block parent : Block) (handed : core.Handed block)
      (found : setup.parentOf core.store block = some parent)
      (embedded : (parent.qc == QC.genesis) = false)
      (absent : core.store.read parent.parent = none) :
      Fault setup core { core with innerChannel := core.innerChannel ++ [parent] }
  | missingAncestor {core : Core} (block ancestor : Block) (turns : Nat)
      (decided : .committed block ∈ core.history)
      (climbs : Climbs setup core.store core.lastCommittedRound block turns ancestor)
      (embedded : (ancestor.qc == QC.genesis) = false)
      (absent : core.store.read ancestor.parent = none) :
      Fault setup core { core with innerChannel := core.innerChannel ++ [ancestor] }
  | endless {core : Core} (block ancestor : Block) (decided : .committed block ∈ core.history)
      (climbs : Climbs setup core.store core.lastCommittedRound block
        (core.store.entries.length + 2) ancestor) : Fault setup core core

end DeflHotstuff
