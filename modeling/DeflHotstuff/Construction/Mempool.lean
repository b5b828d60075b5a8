import DeflHotstuff.Construction.Waiters
import DeflHotstuff.Library.Machine

namespace DeflHotstuff

open Verification

variable [Crypto]

structure MempoolAuthority where
  stake : Nat
  transactionsAddress : SocketAddr
  mempoolAddress : SocketAddr

/-- The committee of the mempool. Its keys are distinct, and each stake is a `u32`. -/
structure MempoolCommittee where
  authorities : List (PublicKey × MempoolAuthority)
  distinct : (authorities.map Prod.fst).Nodup
  bounded : ∀ entry ∈ authorities, entry.2.stake < 2 ^ 32

namespace MempoolCommittee

variable (committee : MempoolCommittee)

def keys : List PublicKey := committee.authorities.map Prod.fst

def stake (name : PublicKey) : Nat :=
  ((committee.authorities.lookup name).map MempoolAuthority.stake).getD 0

def totalVotes : Nat := (committee.authorities.map fun entry => entry.2.stake).sum

/-- The code sums the stakes in `u32` and doubles the sum in `u32`. -/
def quorumThreshold : Nat := 2 * (committee.totalVotes % 2 ^ 32) % 2 ^ 32 / 3 + 1

/-- A stake is a number of 32 bits. -/
theorem stake_lt (name : PublicKey) : committee.stake name < 2 ^ 32 := by
  unfold stake
  cases found : committee.authorities.lookup name with
  | none => exact Nat.two_pow_pos 32
  | some authority =>
      obtain ⟨before, after, same, -⟩ := List.lookup_eq_some_iff.mp found
      exact committee.bounded (name, authority) (by simp [same])

end MempoolCommittee

inductive MempoolMessage where
  | batch (batch : List (List UInt8))
  | batchRequest (missing : List Digest) (origin : PublicKey)

/-- What the synchronizer of the mempool knows of the node and its committee. -/
structure MempoolSetup where
  name : PublicKey
  gcDepth : Nat
  syncRetryDelay : Nat
  syncRetryNodes : Nat
  mempoolAddress : PublicKey → Option SocketAddr
  broadcastAddresses : List SocketAddr

/-- A request for a batch with the channel that cancels its future. -/
structure PendingBatch where
  digest : Digest
  round : Nat
  channel : Nat
  timestamp : Nat

/-- The synchronizer of the mempool. Its futures wait for the batch of a digest. -/
structure BatchSynchronizer where
  round : Nat
  pending : List PendingBatch
  waiting : List (Digest × Nat)
  nextChannel : Nat
  network : List (SocketAddr × MempoolMessage)

namespace BatchSynchronizer

variable (setup : MempoolSetup)

def new : BatchSynchronizer := ⟨0, [], [], 0, []⟩

/-- A digest that is pending is not requested again. -/
def register (now : Nat) : List Digest → BatchSynchronizer → List Digest × BatchSynchronizer
  | [], synchronizer => ([], synchronizer)
  | digest :: rest, synchronizer =>
      if digest ∈ synchronizer.pending.map PendingBatch.digest then register now rest synchronizer
      else
        let (missing, synchronizer) := register now rest { synchronizer with
          pending := ⟨digest, synchronizer.round, synchronizer.nextChannel, now⟩ ::
            synchronizer.pending
          waiting := synchronizer.waiting ++ [(digest, synchronizer.nextChannel)]
          nextChannel := synchronizer.nextChannel + 1 }
        (digest :: missing, synchronizer)

def handle (now : Nat) (synchronizer : BatchSynchronizer) :
    ConsensusMempoolMessage → BatchSynchronizer
  | .synchronize digests target =>
      let (missing, synchronizer) := synchronizer.register now digests
      match setup.mempoolAddress target with
      | none => synchronizer
      | some address => { synchronizer with
          network := synchronizer.network ++ [(address, .batchRequest missing setup.name)] }
  | .cleanup round =>
      if round < setup.gcDepth then { synchronizer with round := round }
      else { synchronizer with
        round := round
        pending := synchronizer.pending.filter fun entry => round - setup.gcDepth < entry.round }

/-- A future is ready when the store holds its batch, and it removes the digest. -/
def ready (synchronizer : BatchSynchronizer) (store : Store) (index : Nat) :
    Option BatchSynchronizer := do
  let wait ← synchronizer.waiting[index]?
  if (store.read wait.1).isSome then some { synchronizer with
    pending := synchronizer.pending.filter fun entry => entry.digest ≠ wait.1
    waiting := synchronizer.waiting.eraseIdx index }
  else none

/-- A future ends without its batch once its cancel channel is used or dropped. -/
def cancelled (synchronizer : BatchSynchronizer) (index : Nat) : Option BatchSynchronizer := do
  let wait ← synchronizer.waiting[index]?
  if wait.2 ∈ synchronizer.pending.map PendingBatch.channel then none
  else some { synchronizer with waiting := synchronizer.waiting.eraseIdx index }

/-- The timer asks some nodes picked at random for every batch that is overdue. -/
def retry (now : Nat) (chosen : List SocketAddr) (synchronizer : BatchSynchronizer) :
    Option BatchSynchronizer :=
  let overdue := (synchronizer.pending.filter fun entry =>
    entry.timestamp + setup.syncRetryDelay < now).map PendingBatch.digest
  if overdue = [] then some synchronizer
  else if chosen.length = min setup.syncRetryNodes setup.broadcastAddresses.length ∧
      (setup.broadcastAddresses.diff chosen).length + chosen.length =
        setup.broadcastAddresses.length then some { synchronizer with
    network := synchronizer.network ++ chosen.map fun address =>
      (address, .batchRequest overdue setup.name) }
  else none

end BatchSynchronizer

/-- What the core asked of its mempool driver. -/
inductive DriverCall where
  | verify (missing : List Digest) (block : Block)
  | cleanup (round : Nat)

/-- The mempool driver of the core with the payload waiter, the synchronizer of the mempool, the
channels to both and the store. The code keeps no record of the calls. -/
structure MempoolDriver where
  store : Store
  txMempool : List ConsensusMempoolMessage
  txPayloadWaiter : List PayloadWaiterMessage
  payloadWaiter : PayloadWaiter
  synchronizer : BatchSynchronizer
  calls : List DriverCall

inductive DriverEvent where
  | verify (block : Block)
  | cleanup (round : Nat)
  | write (key : Digest) (value : Value)
  | waiterMessage
  | payloadReady (index : Nat)
  | payloadCancelled (index : Nat)
  | mempoolMessage (now : Nat)
  | batchReady (index : Nat)
  | batchCancelled (index : Nat)
  | retry (now : Nat) (chosen : List SocketAddr)

namespace MempoolDriver

variable (setup : MempoolSetup)

def new : MempoolDriver := ⟨.new, [], [], .new, .new, []⟩

def verify (block : Block) (driver : MempoolDriver) : Bool × MempoolDriver :=
  let missing := block.payload.filter fun digest => (driver.store.read digest).isNone
  if missing = [] then (true, driver)
  else (false, { driver with
    txMempool := driver.txMempool ++ [.synchronize missing block.author]
    txPayloadWaiter := driver.txPayloadWaiter ++ [.wait missing block]
    calls := driver.calls ++ [.verify missing block] })

def cleanup (round : Nat) (driver : MempoolDriver) : MempoolDriver :=
  { driver with
    txMempool := driver.txMempool ++ [.cleanup round]
    txPayloadWaiter := driver.txPayloadWaiter ++ [.cleanup round]
    calls := driver.calls ++ [.cleanup round] }

def step (driver : MempoolDriver) : DriverEvent → Option MempoolDriver
  | .verify block => some (driver.verify block).2
  | .cleanup round => some (driver.cleanup round)
  | .write key value => some { driver with store := driver.store.write key value }
  | .waiterMessage =>
      match driver.txPayloadWaiter with
      | [] => none
      | message :: rest => some { driver with
          txPayloadWaiter := rest
          payloadWaiter := driver.payloadWaiter.handle message }
  | .payloadReady index =>
      (driver.payloadWaiter.ready driver.store index).map fun result =>
        { driver with payloadWaiter := result.2 }
  | .payloadCancelled index =>
      (driver.payloadWaiter.cancelled index).map fun waiter => { driver with payloadWaiter := waiter }
  | .mempoolMessage now =>
      match driver.txMempool with
      | [] => none
      | message :: rest => some { driver with
          txMempool := rest
          synchronizer := driver.synchronizer.handle setup now message }
  | .batchReady index =>
      (driver.synchronizer.ready driver.store index).map fun synchronizer =>
        { driver with synchronizer := synchronizer }
  | .batchCancelled index =>
      (driver.synchronizer.cancelled index).map fun synchronizer =>
        { driver with synchronizer := synchronizer }
  | .retry now chosen =>
      (driver.synchronizer.retry setup now chosen).map fun synchronizer =>
        { driver with synchronizer := synchronizer }

/-- The two waiters of one node under every interleaving. -/
def machine : Machine MempoolDriver DriverEvent := ⟨new, step setup⟩

end MempoolDriver

end DeflHotstuff
