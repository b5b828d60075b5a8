import DeflHotstuff.Construction.Waiters
import DeflHotstuff.Library.Machine

namespace DeflHotstuff

open Verification

variable [Crypto] [Rounds]

/-- The proposer buffers the digests that the mempool announces. -/
structure Proposer where
  buffer : List Digest
  network : List (SocketAddr × ConsensusMessage)

/-- The tasks of one node, the channels between them and the shared store in the core. -/
structure Node where
  core : Core
  proposer : Proposer
  payloadWaiter : PayloadWaiter
  synchronizer : Synchronizer
  rxLoopback : List Block
  rxMempool : List Digest
  halted : Bool

/-- One turn of one task. The environment chooses the order of the turns and what arrives. -/
inductive Event where
  | message (message : ConsensusMessage)
  | loopback
  | timer
  | digest (index : Nat)
  | proposer (drained : List Digest)
  | payloadMessage
  | payloadReady (index : Nat)
  | payloadCancelled (index : Nat)
  | parentMissing
  | parentReady (index : Nat)
  | retry (old : List Digest)
  | batch (bytes : List UInt8)

/-- Every certificate that arrives in the event passes its check. -/
def Event.certified (committee : Committee) : Event → Bool
  | .message arrived => arrived.certified committee
  | _ => true

namespace Node

variable (setup : Setup) (name : PublicKey)

def boot : Node where
  core := Core.boot setup name
  proposer := ⟨[], []⟩
  payloadWaiter := .new
  synchronizer := .new
  rxLoopback := []
  rxMempool := []
  halted := false

/-- The main loop of the core logs an error. A panic or an endless loop stops the core. -/
def runCore (node : Node) (task : CoreTask Unit) : Node :=
  match task node.core with
  | (.ok _, core) => { node with core := core }
  | (.error _, core) => { node with core := core }
  | (.panic _, core) => { node with core := core, halted := true }
  | (.diverge, core) => { node with core := core, halted := true }

/-- The proposer drains its buffer in the arbitrary order of a hash set. -/
def makeBlock (node : Node) (sent round : Nat) (qc : QC) (tc : Option TC)
    (drained : List Digest) : Option Node :=
  if 5 < round ∧ node.proposer.buffer = [] ∧ tc = none then some node
  else if drained.isPerm node.proposer.buffer then
    let block := Block.new qc tc name round drained (setup.sign name)
    some { node with
      core := node.core.record (.built sent qc tc block)
      proposer := {
        buffer := []
        network := node.proposer.network ++
          (setup.committee.broadcastAddresses name).map fun entry => (entry.2, .propose block) }
      rxLoopback := node.rxLoopback ++ [block] }
  else none

/-- The proposer takes the next message of the core.
The wait for acknowledgements after a block only delays its next turn. -/
def runProposer (node : Node) (drained : List Digest) : Option Node :=
  match node.core.txProposer with
  | [] => none
  | ⟨sent, .make round qc tc⟩ :: rest =>
      makeBlock setup name { node with core := { node.core with txProposer := rest } }
        sent round qc tc drained
  | ⟨_, .cleanup digests⟩ :: rest =>
      some { node with
        core := { node.core with txProposer := rest }.record (.cleaned digests)
        proposer := { node.proposer with
          buffer := node.proposer.buffer.filter fun digest => digest ∉ digests } }

def step (node : Node) : Event → Option Node
  | .message message =>
      if node.halted = false ∧ message.forCore = true then
        some ({ node with core := node.core.record (.received message) }.runCore
          (Core.handleMessage setup name message))
      else none
  | .loopback =>
      match node.rxLoopback with
      | [] => none
      | block :: rest =>
          if node.halted = false then
            some ({ node with
              core := node.core.record (.resumed block)
              rxLoopback := rest }.runCore (Core.processBlock setup name block))
          else none
  | .timer =>
      if node.halted = false then some (node.runCore (Core.localTimeoutRound setup name)) else none
  | .digest index =>
      match node.rxMempool[index]? with
      | none => none
      | some digest =>
          some { node with
            core := node.core.record (.announced digest)
            proposer := { node.proposer with buffer := node.proposer.buffer.insert digest }
            rxMempool := node.rxMempool.eraseIdx index }
  | .proposer drained => runProposer setup name node drained
  | .payloadMessage =>
      match node.core.txPayloadWaiter with
      | [] => none
      | message :: rest =>
          some { node with
            core := { node.core with txPayloadWaiter := rest }
            payloadWaiter := node.payloadWaiter.handle message }
  | .payloadReady index =>
      (node.payloadWaiter.ready node.core.store index).map fun result =>
        { node with payloadWaiter := result.2, rxLoopback := node.rxLoopback ++ [result.1] }
  | .payloadCancelled index =>
      (node.payloadWaiter.cancelled index).map fun waiter => { node with payloadWaiter := waiter }
  | .parentMissing =>
      match node.core.innerChannel with
      | [] => none
      | block :: rest =>
          (node.synchronizer.receive setup name block).map fun synchronizer =>
            { node with
              core := { node.core with innerChannel := rest }
              synchronizer := synchronizer }
  | .parentReady index =>
      (node.synchronizer.ready node.core.store index).map fun result =>
        { node with synchronizer := result.2, rxLoopback := node.rxLoopback ++ [result.1] }
  | .retry old =>
      (node.synchronizer.retry setup name old).map fun synchronizer =>
        { node with synchronizer := synchronizer }
  | .batch bytes =>
      let digest := sha512 (.batch bytes)
      some { node with
        core := { node.core with store := node.core.store.write digest (.batch bytes) }
        rxMempool := node.rxMempool ++ [digest] }

/-- The tasks of one node under every order of turns and every arriving message. -/
def machine : Machine Node Event := ⟨boot setup name, step setup name⟩

/-- The machine with the rounds of a release build. -/
def machine64 : Machine Node Event := @machine _ .u64 setup name

end Node

end DeflHotstuff
