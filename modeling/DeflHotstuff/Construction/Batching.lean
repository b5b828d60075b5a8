import DeflHotstuff.Construction.Mempool

namespace DeflHotstuff

open Verification

abbrev Transaction := List UInt8

abbrev Batch := List Transaction

variable [Crypto]

/-- The addresses of all nodes except `myself`. -/
def MempoolCommittee.broadcastAddresses (committee : MempoolCommittee) (myself : PublicKey) :
    List (PublicKey × SocketAddr) :=
  (committee.authorities.filter fun entry => entry.1 ≠ myself).map fun entry =>
    (entry.1, entry.2.mempoolAddress)

/-- A serialized batch with the names whose handlers wait for an acknowledgement of it. -/
structure QuorumWaiterMessage where
  batch : Batch
  handlers : List PublicKey

/-- The batch maker with the messages that it broadcast and delivered. -/
structure BatchMaker where
  currentBatch : Batch
  currentBatchSize : Nat
  network : List (SocketAddr × MempoolMessage)
  txMessage : List QuorumWaiterMessage

inductive BatchEvent where
  | transaction (transaction : Transaction)
  | timer

namespace BatchMaker

variable (batchSize : Nat) (mempoolAddresses : List (PublicKey × SocketAddr))

def new : BatchMaker := ⟨[], 0, [], []⟩

/-- The current batch is drained, broadcast and handed on with one handler for each address. -/
def sealBatch (maker : BatchMaker) : BatchMaker where
  currentBatch := []
  currentBatchSize := 0
  network := maker.network ++ mempoolAddresses.map fun entry =>
    (entry.2, .batch maker.currentBatch)
  txMessage := maker.txMessage ++ [⟨maker.currentBatch, mempoolAddresses.map Prod.fst⟩]

def step (maker : BatchMaker) : BatchEvent → BatchMaker
  | .transaction transaction =>
      let maker := { maker with
        currentBatchSize := maker.currentBatchSize + transaction.length
        currentBatch := maker.currentBatch ++ [transaction] }
      if batchSize ≤ maker.currentBatchSize then maker.sealBatch mempoolAddresses else maker
  | .timer => if maker.currentBatch = [] then maker else maker.sealBatch mempoolAddresses

def run (events : List BatchEvent) : BatchMaker :=
  events.foldl (step batchSize mempoolAddresses) new

/-- The batches sent so far. -/
def sent (maker : BatchMaker) : List Batch := maker.txMessage.map QuorumWaiterMessage.batch

end BatchMaker

/-- The batch that the quorum waiter is busy with. The code keeps no record of the names that
acknowledged it. -/
structure AwaitedBatch where
  batch : Batch
  waitForQuorum : List PublicKey
  totalStake : Nat
  acknowledged : List PublicKey

/-- The names that acknowledged the batch once one more handler has completed. -/
def AwaitedBatch.credit (awaited : AwaitedBatch) (peer : PublicKey) (acknowledges : Bool) :
    List PublicKey :=
  if acknowledges then awaited.acknowledged ++ [peer] else awaited.acknowledged

/-- A batch that the quorum waiter is done with. -/
structure FinishedBatch where
  batch : Batch
  acknowledged : List PublicKey
  forwarded : Bool

/-- The quorum waiter with its two channels and a record of the batches it is done with. -/
structure QuorumWaiter where
  rxMessage : List QuorumWaiterMessage
  current : Option AwaitedBatch
  txBatch : List Batch
  finished : List FinishedBatch

/-- A handler completes with an acknowledgement, or with an error once its sender is dropped. -/
inductive QuorumEvent where
  | message (batch : Batch)
  | receive
  | complete (name : PublicKey) (acknowledges : Bool)
  | exhausted

namespace QuorumWaiter

variable (committee : MempoolCommittee) (name : PublicKey)

def new : QuorumWaiter := ⟨[], none, [], []⟩

/-- The names of the other authorities, which get a handler each. -/
def others : List PublicKey := (committee.broadcastAddresses name).map Prod.fst

/-- The stakes are added in `u32`, and the threshold is only tested after a handler has completed. -/
def complete (waiter : QuorumWaiter) (awaited : AwaitedBatch) (peer : PublicKey)
    (acknowledges : Bool) : QuorumWaiter :=
  let totalStake := (awaited.totalStake + committee.stake peer) % 2 ^ 32
  let acknowledged := awaited.credit peer acknowledges
  if committee.quorumThreshold ≤ totalStake then { waiter with
    current := none
    txBatch := waiter.txBatch ++ [awaited.batch]
    finished := waiter.finished ++ [⟨awaited.batch, acknowledged, true⟩] }
  else { waiter with
    current := some ⟨awaited.batch, awaited.waitForQuorum.erase peer, totalStake, acknowledged⟩ }

def step (waiter : QuorumWaiter) : QuorumEvent → Option QuorumWaiter
  | .message batch => some { waiter with
      rxMessage := waiter.rxMessage ++ [⟨batch, others committee name⟩] }
  | .receive =>
      match waiter.current, waiter.rxMessage with
      | none, message :: rest => some { waiter with
          rxMessage := rest
          current := some ⟨message.batch, message.handlers, committee.stake name, []⟩ }
      | _, _ => none
  | .complete peer acknowledges =>
      match waiter.current with
      | none => none
      | some awaited =>
          if peer ∈ awaited.waitForQuorum then
            some (waiter.complete committee awaited peer acknowledges)
          else none
  | .exhausted =>
      match waiter.current with
      | none => none
      | some awaited =>
          if awaited.waitForQuorum = [] then some { waiter with
            current := none
            finished := waiter.finished ++ [⟨awaited.batch, awaited.acknowledged, false⟩] }
          else none

/-- The quorum waiter of a node under every order of completions. -/
def machine : Machine QuorumWaiter QuorumEvent := ⟨new, step committee name⟩

end QuorumWaiter

end DeflHotstuff
