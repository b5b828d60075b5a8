import DeflHotstuff.Construction.Waiters
import DeflHotstuff.Library.Machine

namespace DeflHotstuff

open Verification

variable [Crypto]

/-- The payload waiter with the store and the channel back to the core. -/
structure PayloadTask where
  store : Store
  waiter : PayloadWaiter
  txLoopback : List Block

inductive PayloadEvent where
  | message (message : PayloadWaiterMessage)
  | write (key : Digest) (value : Value)
  | completed (index : Nat)
  | cancelled (index : Nat)

namespace PayloadTask

def new : PayloadTask := ⟨.new, .new, []⟩

def step (task : PayloadTask) : PayloadEvent → Option PayloadTask
  | .message message => some { task with waiter := task.waiter.handle message }
  | .write key value => some { task with store := task.store.write key value }
  | .completed index => (task.waiter.ready task.store index).map fun result => { task with
      waiter := result.2
      txLoopback := task.txLoopback ++ [result.1] }
  | .cancelled index => (task.waiter.cancelled index).map fun waiter =>
      { task with waiter := waiter }

/-- The payload waiter under every interleaving of messages, writes and futures. -/
def machine : Machine PayloadTask PayloadEvent := ⟨new, step⟩

end PayloadTask

/-- The task of the synchronizer with the store and the channel back to the core. -/
structure SyncTask where
  store : Store
  synchronizer : Synchronizer
  txLoopback : List Block

inductive SyncEvent where
  | receive (block : Block)
  | write (key : Digest) (value : Value)
  | completed (index : Nat)
  | tick (old : List Digest)

namespace SyncTask

variable (setup : Setup) (name : PublicKey)

def new : SyncTask := ⟨.new, .new, []⟩

def step (task : SyncTask) : SyncEvent → Option SyncTask
  | .receive block => (task.synchronizer.receive setup name block).map fun synchronizer =>
      { task with synchronizer := synchronizer }
  | .write key value => some { task with store := task.store.write key value }
  | .completed index => (task.synchronizer.ready task.store index).map fun result => { task with
      synchronizer := result.2
      txLoopback := task.txLoopback ++ [result.1] }
  | .tick old => (task.synchronizer.retry setup name old).map fun synchronizer =>
      { task with synchronizer := synchronizer }

/-- The task of the synchronizer under every interleaving of blocks, writes, futures and ticks. -/
def machine : Machine SyncTask SyncEvent := ⟨new, step setup name⟩

end SyncTask

end DeflHotstuff
