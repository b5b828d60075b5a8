import DeflHotstuff.Construction.Application
import DeflHotstuff.Construction.Batching
import DeflHotstuff.Construction.ReliableSender

namespace DeflHotstuff

open Verification

/-- A runner of the peer has frames on its way to it and at most one frame in hand, which it
acknowledged and has yet to hand on. -/
structure Runner where
  unread : List InnerMessage
  hand : Option (List UInt8)

/-- The connection to one peer with the acknowledgements on their way back and the runners that
the peer spawned for it, the last one first. -/
structure Link where
  connection : Connection
  acks : List InnerMessage
  runners : List Runner

namespace Link

def new : Link := ⟨.new, [], []⟩

/-- The peer spawns a runner for a new connection, and what is written goes to the last runner. -/
def arrive (link : Link) (after : Connection) : List Runner :=
  if link.connection.phase ≠ .connected ∧ after.phase = .connected then ⟨[], none⟩ :: link.runners
  else
    match link.runners with
    | [] => []
    | runner :: rest =>
        { runner with
          unread := runner.unread ++ after.frames.drop link.connection.frames.length } :: rest

/-- A lost connection loses the acknowledgements, but its runner still reads what arrived. -/
def move (link : Link) (event : ConnectionEvent) : Option Link :=
  (link.connection.step event).map fun after =>
    { connection := after
      acks := if after.phase = .connected then link.acks else []
      runners := link.arrive after }

/-- The next acknowledgement arrives. -/
def answer (link : Link) : Option Link :=
  match link.acks with
  | [] => none
  | _ :: rest => (link.connection.step (.answer "Ack".toUTF8.data.toList)).map fun after =>
      { link with connection := after, acks := rest }

/-- A runner acknowledges a frame before it hands it on, and a runner that fails to do so ends.
Only the last runner's acknowledgements find an open connection. -/
def read (link : Link) (index : Nat) : Option Link :=
  match link.runners[index]? with
  | some ⟨frame :: rest, none⟩ => some { link with
      acks := if index = 0 ∧ link.connection.phase = .connected then link.acks ++ [frame]
        else link.acks
      runners := link.runners.set index ⟨rest, some frame.data⟩ }
  | _ => none

/-- A runner hands on the frame that it acknowledged. -/
def release (link : Link) (index : Nat) : Option (List UInt8 × Link) :=
  match link.runners[index]? with
  | some ⟨unread, some serialized⟩ =>
      some (serialized, { link with runners := link.runners.set index ⟨unread, none⟩ })
  | _ => none

/-- The handler is dropped without a wait for its acknowledgement. -/
def cancel (link : Link) (handler : Nat) : Link :=
  { link with connection :=
      { link.connection with closed := handler :: link.connection.closed } }

end Link

variable [Crypto]

/-- The state of all tasks of the mempool of a node, except for those that catch up on batches.
The code keeps no record of the transactions that it acknowledged. -/
structure Mempool where
  accepted : List Transaction
  rxTransaction : List Transaction
  maker : BatchMaker
  sealing : Option (Batch × List PublicKey)
  waiter : QuorumWaiter
  links : PublicKey → Link
  processed : Nat
  rxBatch : List (List UInt8)
  rxRequest : List (List Digest × PublicKey)
  store : Store
  txConsensus : List Digest

inductive MempoolEvent where
  | client (message : List UInt8)
  | transaction
  | timer
  | broadcast
  | receive
  | complete (peer : PublicKey)
  | exhausted
  | process
  | processPeer
  | message (serialized : List UInt8)
  | block (block : Block)
  | connection (peer : PublicKey) (event : ConnectionEvent)
  | answer (peer : PublicKey)
  | read (peer : PublicKey) (index : Nat)
  | forward (peer : PublicKey) (index : Nat)

/-- The mempools of a committee, with the members that need not follow the code. Each member has
an address of its own, and what `bincode` writes for a batch it reads as one. -/
structure MempoolSystem where
  committee : MempoolCommittee
  faulty : PublicKey → Bool
  formats : Formats
  serialize : Batch → List UInt8
  batchSize : Nat
  addresses : (committee.authorities.map fun entry => entry.2.mempoolAddress).Nodup
  serialized : ∀ batch, ∃ read, formats.decodeMessage (serialize batch) = some (.batch read)

/-- The default channel capacity of the mempool. -/
def channelCapacity : Nat := 1000

namespace Mempool

variable (system : MempoolSystem) (name : PublicKey)

def boot : Mempool where
  accepted := []
  rxTransaction := []
  maker := .new
  sealing := none
  waiter := .new
  links _ := .new
  processed := 0
  rxBatch := []
  rxRequest := []
  store := .new
  txConsensus := []

def relink (mempool : Mempool) (peer : PublicKey) (link : Link) : Mempool :=
  { mempool with links := Function.update mempool.links peer link }

/-- The batch maker seals a batch at most, and it is busy until the batch is broadcast. -/
def make (mempool : Mempool) (event : BatchEvent) : Mempool :=
  let maker := mempool.maker.step system.batchSize (system.committee.broadcastAddresses name) event
  { mempool with
    maker := maker
    sealing := match maker.txMessage.drop mempool.maker.txMessage.length with
      | message :: _ => some (message.batch, message.handlers)
      | [] => mempool.sealing }

/-- The reliable sender accepts the batch for the next address, and after the last one the batch
goes to the quorum waiter. -/
def broadcast (mempool : Mempool) : Option Mempool :=
  match mempool.sealing with
  | none => none
  | some (batch, []) =>
      if mempool.waiter.rxMessage.length < channelCapacity then
        (mempool.waiter.step system.committee name (.message batch)).map fun waiter =>
          { mempool with sealing := none, waiter := waiter }
      else none
  | some (batch, peer :: rest) =>
      ((mempool.links peer).move (.send (system.serialize batch))).map fun link =>
        { mempool with sealing := some (batch, rest) }.relink peer link

/-- The batches of a node go by their numbers, and so do their handlers in each connection. A
handler without an answer is dropped once the waiter is done with its batch. -/
def complete (mempool : Mempool) (peer : PublicKey) : Option Mempool :=
  let handler := mempool.waiter.finished.length
  match mempool.waiter.current with
  | none => none
  | some awaited =>
      if handler ∈ (mempool.links peer).connection.answers.map Answer.handler then
        (mempool.waiter.step system.committee name (.complete peer true)).bind fun waiter =>
          if waiter.txBatch.length ≤ mempool.processed + channelCapacity then some { mempool with
            waiter := waiter
            links := fun other =>
              if waiter.current.isNone ∧ other ∈ awaited.waitForQuorum.erase peer then
                (mempool.links other).cancel handler
              else mempool.links other }
          else none
      else none

/-- A processor hashes and stores a batch and announces its digest. -/
def storeBatch (mempool : Mempool) (serialized : List UInt8) : Mempool :=
  let digest := sha512 (.batch serialized)
  { mempool with
    store := mempool.store.write digest (.batch serialized)
    txConsensus := mempool.txConsensus ++ [digest] }

/-- What a runner does with a message of a peer once it is acknowledged. -/
def dispatch (mempool : Mempool) (serialized : List UInt8) : Option Mempool :=
  match MempoolReceiverHandler.dispatch system.formats serialized with
  | .processor serialized =>
      if mempool.rxBatch.length < channelCapacity then
        some { mempool with rxBatch := mempool.rxBatch ++ [serialized] }
      else none
  | .helper missing requestor =>
      if mempool.rxRequest.length < channelCapacity then
        some { mempool with rxRequest := mempool.rxRequest ++ [(missing, requestor)] }
      else none
  | .warning => some mempool

/-- The turns that a node takes on its own. -/
def step (mempool : Mempool) : MempoolEvent → Option Mempool
  | .client message =>
      match (TxReceiverHandler.dispatch system.formats message).1 with
      | none => some mempool
      | some transaction =>
          if mempool.rxTransaction.length < channelCapacity then some { mempool with
            accepted := mempool.accepted ++ [transaction]
            rxTransaction := mempool.rxTransaction ++ [transaction] }
          else none
  | .transaction =>
      match mempool.sealing, mempool.rxTransaction with
      | none, transaction :: rest =>
          some ({ mempool with rxTransaction := rest }.make system name (.transaction transaction))
      | _, _ => none
  | .timer =>
      match mempool.sealing with
      | none => some (mempool.make system name .timer)
      | some _ => none
  | .broadcast => mempool.broadcast system name
  | .receive => (mempool.waiter.step system.committee name .receive).map fun waiter =>
      { mempool with waiter := waiter }
  | .complete peer => mempool.complete system name peer
  | .exhausted => (mempool.waiter.step system.committee name .exhausted).map fun waiter =>
      { mempool with waiter := waiter }
  | .process => (mempool.waiter.txBatch[mempool.processed]?).map fun batch =>
      { mempool with processed := mempool.processed + 1 }.storeBatch (system.serialize batch)
  | .processPeer =>
      match mempool.rxBatch with
      | [] => none
      | serialized :: rest => some ({ mempool with rxBatch := rest }.storeBatch serialized)
  | .message serialized => mempool.dispatch system serialized
  | .block block => some { mempool with
      store := mempool.store.write block.digest (.block block) }
  | .connection peer event =>
      match event with
      | .send _ | .cancel _ | .answer _ => none
      | event => ((mempool.links peer).move event).map fun link => mempool.relink peer link
  | _ => none

end Mempool

namespace MempoolSystem

variable (system : MempoolSystem)

def honest (name : PublicKey) : Bool :=
  name ∈ system.committee.keys ∧ system.faulty name = false

/-- The stake of the members that need not follow the code. -/
def faultyStake : Nat :=
  ∑ name ∈ system.committee.keys.toFinset with system.faulty name = true,
    system.committee.stake name

/-- A faulty peer may answer whenever it likes, an honest one when its runner did. -/
def answer (link : Link) (peer : PublicKey) : Option Link :=
  if system.honest peer then link.answer
  else link.move (.answer "Ack".toUTF8.data.toList)

/-- An honest node takes a turn, or a runner of an honest peer does for a connection of it. -/
def step (nodes : PublicKey → Mempool) : PublicKey × MempoolEvent → Option (PublicKey → Mempool)
  | (name, event) =>
      if system.honest name then
        let mempool := nodes name
        match event with
        | .answer peer => (system.answer (mempool.links peer) peer).map fun link =>
            Function.update nodes name (mempool.relink peer link)
        | .read peer index =>
            if system.honest peer ∧ peer ≠ name then
              ((mempool.links peer).read index).map fun link =>
                Function.update nodes name (mempool.relink peer link)
            else none
        | .forward peer index =>
            if system.honest peer ∧ peer ≠ name then
              ((mempool.links peer).release index).bind fun (serialized, link) =>
                ((nodes peer).dispatch system serialized).map fun after =>
                  Function.update (Function.update nodes peer after) name
                    (mempool.relink peer link)
            else none
        | event => (mempool.step system name event).map (Function.update nodes name)
      else none

/-- The mempools under every order of turns, every delay and every loss of a connection. -/
def machine : Machine (PublicKey → Mempool) (PublicKey × MempoolEvent) :=
  ⟨fun _ => .boot, system.step⟩

end MempoolSystem

end DeflHotstuff
