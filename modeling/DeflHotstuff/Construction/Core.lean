import DeflHotstuff.Construction.Aggregator
import DeflHotstuff.Construction.Store
import DeflHotstuff.Library.Handler

namespace DeflHotstuff

open Verification

/-- How one is added to a round. -/
class Rounds where
  next : Nat → Nat

/-- Rounds as unbounded natural numbers, for the results that take them so. -/
instance Rounds.unbounded : Rounds := ⟨fun round => round + 1⟩

@[simp] theorem Rounds.next_unbounded (round : Nat) : Rounds.next round = round + 1 := rfl

/-- The largest round of the source. -/
def roundMax : Nat := 2 ^ 64 - 1

/-- The addition of the source on `u64`, which wraps around in a release build. -/
@[reducible] def Rounds.u64 : Rounds := ⟨fun round => (round + 1) % 2 ^ 64⟩

variable [Crypto] [Rounds]

inductive ProposerMessage where
  | make (round : Nat) (qc : QC) (tc : Option TC)
  | cleanup (digests : List Digest)

inductive PayloadWaiterMessage where
  | wait (missing : List Digest) (block : Block)
  | cleanup (round : Nat)

inductive ConsensusMempoolMessage where
  | synchronize (digests : List Digest) (target : PublicKey)
  | cleanup (round : Nat)

/-- The steps of a node that its properties speak about. The code keeps no such record. -/
inductive Action where
  | received (message : ConsensusMessage)
  | resumed (block : Block)
  | accepted (block : Block)
  | processed (b0 b1 block : Block)
  | committed (block : Block)
  | voted (block : Block)
  | expired (timeout : Timeout)
  | assembledQc (qc : QC)
  | assembledTc (tc : TC)
  | advanced (round : Nat)
  | made (round : Nat) (qc : QC) (tc : Option TC)
  | announced (digest : Digest)
  | cleaned (digests : List Digest)
  | built (sent : Nat) (qc : QC) (tc : Option TC) (block : Block)

/-- A message of the proposer channel with the length of the record when it was sent. -/
structure Stamped where
  sent : Nat
  message : ProposerMessage

/-- The state of the core and the queues behind its senders. -/
structure Core where
  store : Store
  txMempool : List ConsensusMempoolMessage
  txPayloadWaiter : List PayloadWaiterMessage
  innerChannel : List Block
  txProposer : List Stamped
  txCommit : List Block
  round : Nat
  lastVotedRound : Nat
  lastCommittedRound : Nat
  highQc : QC
  aggregator : Aggregator
  network : List (SocketAddr × ConsensusMessage)
  history : List Action

namespace Core

def new : Core where
  store := .new
  txMempool := []
  txPayloadWaiter := []
  innerChannel := []
  txProposer := []
  txCommit := []
  round := 1
  lastVotedRound := 0
  lastCommittedRound := 0
  highQc := .genesis
  aggregator := .new
  network := []
  history := []

def record (core : Core) (action : Action) : Core :=
  { core with history := core.history ++ [action] }

def setAggregator (core : Core) (aggregator : Aggregator) : Core :=
  { core with aggregator := aggregator }

def storeBlock (core : Core) (block : Block) : Core :=
  { core with store := core.store.write block.digest (.block block) }

def increaseLastVotedRound (core : Core) (target : Nat) : Core :=
  { core with lastVotedRound := max core.lastVotedRound target }

def updateHighQc (core : Core) (qc : QC) : Core :=
  if core.highQc.round < qc.round then { core with highQc := qc } else core

def advanceRound (core : Core) (round : Nat) : Core :=
  if round < core.round then core
  else { core with
    round := Rounds.next round
    aggregator := core.aggregator.cleanup (Rounds.next round)
    history := core.history ++ [.advanced round] }

def processQc (core : Core) (qc : QC) : Core := (core.advanceRound qc.round).updateHighQc qc

def sendProposer (core : Core) (message : ProposerMessage) : Core :=
  { core with txProposer := core.txProposer ++ [⟨core.history.length, message⟩] }

def generateProposal (core : Core) (tc : Option TC) : Core :=
  (core.sendProposer (.make core.round core.highQc tc)).record (.made core.round core.highQc tc)

def cleanupProposer (core : Core) (b0 b1 block : Block) : Core :=
  (core.record (.processed b0 b1 block)).sendProposer
    (.cleanup (b0.payload ++ b1.payload ++ block.payload))

def sendTo (core : Core) (addresses : List SocketAddr) (message : ConsensusMessage) : Core :=
  { core with network := core.network ++ addresses.map fun address => (address, message) }

end Core

/-- A task of the core with the errors that its main loop logs. -/
abbrev CoreTask := Handler Core ConsensusError

namespace Core

variable (setup : Setup) (name : PublicKey)

/-- A missing parent suspends the block in the synchronizer. -/
def getParentBlock (block : Block) : CoreTask (Option Block) := do
  if block.qc == QC.genesis then return some Block.genesis
  let core ← Handler.read
  match core.store.read block.parent with
  | some value =>
      match setup.decode value with
      | some parent => return some parent
      | none => Handler.raise .serializationError
  | none =>
      Handler.update fun core => { core with innerChannel := core.innerChannel ++ [block] }
      return none

def getAncestors (block : Block) : CoreTask (Option (Block × Block)) := do
  match ← getParentBlock setup block with
  | none => return none
  | some b1 =>
      match ← getParentBlock setup b1 with
      | none => Handler.crash "We should have all ancestors of delivered blocks"
      | some b0 => return some (b0, b1)

/-- The loop of `commit` collects ancestors at the front of the deque. -/
def collectAncestors (lastCommittedRound : Nat) :
    Nat → Block → List Block → CoreTask (List Block)
  | 0, _, _ => Handler.loop
  | fuel + 1, parent, toCommit =>
      if Rounds.next lastCommittedRound < parent.round then do
        match ← getParentBlock setup parent with
        | none => Handler.crash "We should have all the ancestors by now"
        | some ancestor => collectAncestors lastCommittedRound fuel ancestor (ancestor :: toCommit)
      else return toCommit

/-- The head goes in front of the collected ancestors and the deque is drained from the back.
More turns of the loop than stored entries visit some block twice, and then it never ends. -/
def commit (block : Block) : CoreTask Unit := do
  let core ← Handler.read
  if block.round ≤ core.lastCommittedRound then return ()
  else do
    let toCommit ← collectAncestors setup core.lastCommittedRound
      (core.store.entries.length + 2) block []
    Handler.update fun core => { core with
      lastCommittedRound := block.round
      txCommit := core.txCommit ++ (block :: toCommit).reverse }

/-- The second rule of the voting decision. -/
def safetyRule2 (block : Block) : CoreTask Bool :=
  let consecutive := Rounds.next block.qc.round = block.round
  match block.tc with
  | none => return decide consecutive
  | some tc =>
      match tc.highQcRounds.max? with
      | none => Handler.crash "Empty TC"
      | some highest =>
          return decide
            (consecutive ∨ Rounds.next tc.round = block.round ∧ highest ≤ block.qc.round)

def makeVote (block : Block) : CoreTask (Option Vote) := do
  let core ← Handler.read
  let rule2 ← safetyRule2 block
  if core.lastVotedRound < block.round ∧ rule2 = true then do
    Handler.update fun core => (core.increaseLastVotedRound block.round).record (.voted block)
    return some (Vote.new block name (setup.sign name))
  else return none

/-- The aggregator keeps its change also when it returns an error. -/
def addVote (vote : Vote) : CoreTask (Option QC) := do
  let core ← Handler.read
  let (result, aggregator) := core.aggregator.addVote vote setup.committee
  Handler.update fun core => core.setAggregator aggregator
  Handler.check result

def addTimeout (timeout : Timeout) : CoreTask (Option TC) := do
  let core ← Handler.read
  let (result, aggregator) := core.aggregator.addTimeout timeout setup.committee
  Handler.update fun core => core.setAggregator aggregator
  Handler.check result

/-- The leader of the current round asks its proposer for a block. -/
def proposeAsLeader (tc : Option TC) (core : Core) : Core :=
  if name = setup.committee.getLeader core.round then core.generateProposal tc else core

def broadcast (message : ConsensusMessage) (core : Core) : Core :=
  core.sendTo ((setup.committee.broadcastAddresses name).map Prod.snd) message

def handleVote (vote : Vote) : CoreTask Unit := do
  let core ← Handler.read
  if vote.round < core.round then return ()
  else do
    Handler.check (vote.verify setup.committee)
    match ← addVote setup vote with
    | none => return ()
    | some qc => do
        Handler.update fun core => (core.record (.assembledQc qc)).processQc qc
        Handler.update (proposeAsLeader setup name none)

def handleTimeout (timeout : Timeout) : CoreTask Unit := do
  let core ← Handler.read
  if timeout.round < core.round then return ()
  else do
    Handler.check (timeout.verify setup.committee)
    Handler.update fun core => core.processQc timeout.highQc
    match ← addTimeout setup timeout with
    | none => return ()
    | some tc => do
        Handler.update fun core => (core.record (.assembledTc tc)).advanceRound tc.round
        Handler.update (broadcast setup name (.tc tc))
        Handler.update (proposeAsLeader setup name (some tc))

def localTimeoutRound : CoreTask Unit := do
  Handler.update fun core => core.increaseLastVotedRound core.round
  let core ← Handler.read
  let timeout := Timeout.new core.highQc core.round name (setup.sign name)
  Handler.update fun core => broadcast setup name (.timeout timeout) (core.record (.expired timeout))
  handleTimeout setup name timeout

/-- The two-chain rule commits the grandparent when its child is in the next round. -/
def commitTwoChain (b0 b1 : Block) : CoreTask Unit :=
  if Rounds.next b0.round = b1.round then do
    Handler.update fun core => { core with
      txMempool := core.txMempool ++ [.cleanup b0.round]
      txPayloadWaiter := core.txPayloadWaiter ++ [.cleanup b0.round]
      history := core.history ++ [.committed b0] }
    commit setup b0
  else return ()

/-- The vote goes to the leader of the next round, which may be the node itself. -/
def sendVote (vote : Vote) : CoreTask Unit := do
  let core ← Handler.read
  let nextLeader := setup.committee.getLeader (Rounds.next core.round)
  if nextLeader = name then handleVote setup name vote
  else
    match setup.committee.address nextLeader with
    | none => Handler.crash "The next leader is not in the committee"
    | some address => Handler.update fun core => core.sendTo [address] (.vote vote)

/-- The core votes only for a block of its current round. -/
def voteInRound (block : Block) : CoreTask Unit := do
  let core ← Handler.read
  if block.round ≠ core.round then return ()
  else
    match ← makeVote setup name block with
    | none => return ()
    | some vote => sendVote setup name vote

def processBlock (block : Block) : CoreTask Unit := do
  match ← getAncestors setup block with
  | none => return ()
  | some (b0, b1) => do
      Handler.update fun core => (core.storeBlock block).cleanupProposer b0 b1 block
      commitTwoChain setup b0 b1
      voteInRound setup name block

/-- A missing payload suspends the block in the payload waiter. -/
def verifyPayload (block : Block) : CoreTask Bool := do
  let core ← Handler.read
  let missing := block.payload.filter fun digest => (core.store.read digest).isNone
  if missing = [] then return true
  else do
    Handler.update fun core => { core with
      txMempool := core.txMempool ++ [.synchronize missing block.author]
      txPayloadWaiter := core.txPayloadWaiter ++ [.wait missing block] }
    return false

def advanceByTc (tc : Option TC) (core : Core) : Core :=
  match tc with
  | some tc => core.advanceRound tc.round
  | none => core

def handleProposal (block : Block) : CoreTask Unit := do
  Handler.check (ensure (block.author = setup.committee.getLeader block.round)
    (.wrongLeader block.digest block.author block.round))
  Handler.check (block.verify setup.committee)
  Handler.update fun core =>
    (advanceByTc block.tc (core.processQc block.qc)).record (.accepted block)
  let present ← verifyPayload block
  if present then processBlock setup name block else return ()

def handleTc (tc : TC) : CoreTask Unit := do
  Handler.update fun core => core.advanceRound tc.round
  Handler.update (proposeAsLeader setup name (some tc))

def handleMessage : ConsensusMessage → CoreTask Unit
  | .propose block => handleProposal setup name block
  | .vote vote => handleVote setup name vote
  | .timeout timeout => handleTimeout setup name timeout
  | .tc tc => handleTc setup name tc
  | .syncRequest _ _ => Handler.crash "Unexpected protocol message"

/-- Upon booting the leader of the first round proposes. -/
def boot : Core := proposeAsLeader setup name none .new

end Core

end DeflHotstuff
