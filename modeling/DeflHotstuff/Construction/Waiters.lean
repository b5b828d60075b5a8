import DeflHotstuff.Construction.Core

namespace DeflHotstuff

variable [Crypto]

/-- A future of the payload waiter with the channel that cancels it. -/
structure PayloadWait where
  channel : Nat
  missing : List Digest
  block : Block

/-- The payload waiter keeps the sending end of each cancel channel in `pending`. -/
structure PayloadWaiter where
  pending : List (Digest × Nat × Nat)
  waiting : List PayloadWait
  nextChannel : Nat

namespace PayloadWaiter

def new : PayloadWaiter := ⟨[], [], 0⟩

def handle (waiter : PayloadWaiter) : PayloadWaiterMessage → PayloadWaiter
  | .wait missing block =>
      if block.digest ∈ waiter.pending.map Prod.fst then waiter
      else {
        pending := (block.digest, block.round, waiter.nextChannel) :: waiter.pending
        waiting := waiter.waiting ++ [⟨waiter.nextChannel, missing, block⟩]
        nextChannel := waiter.nextChannel + 1 }
  | .cleanup round =>
      { waiter with pending := waiter.pending.filter fun entry => round < entry.2.1 }

/-- A future is ready when the store holds every digest that it waits for. -/
def ready (waiter : PayloadWaiter) (store : Store) (index : Nat) :
    Option (Block × PayloadWaiter) := do
  let wait ← waiter.waiting[index]?
  if wait.missing.all fun digest => (store.read digest).isSome then
    some (wait.block, { waiter with
      pending := waiter.pending.filter fun entry => entry.1 ≠ wait.block.digest
      waiting := waiter.waiting.eraseIdx index })
  else none

/-- A future ends without its block once its cancel channel is used or dropped. -/
def cancelled (waiter : PayloadWaiter) (index : Nat) : Option PayloadWaiter := do
  let wait ← waiter.waiting[index]?
  if wait.channel ∈ waiter.pending.map fun entry => entry.2.2 then none
  else some { waiter with waiting := waiter.waiting.eraseIdx index }

end PayloadWaiter

/-- The synchronizer keeps the suspended blocks, each in a future that waits for its parent. -/
structure Synchronizer where
  pending : List Digest
  requests : List Digest
  waiting : List Block
  network : List (SocketAddr × ConsensusMessage)

namespace Synchronizer

variable (setup : Setup) (name : PublicKey)

def new : Synchronizer := ⟨[], [], [], []⟩

/-- The task panics when the author of the block is not in the committee. -/
def receive (synchronizer : Synchronizer) (block : Block) : Option Synchronizer :=
  if block.digest ∈ synchronizer.pending then some synchronizer
  else
    let synchronizer := { synchronizer with
      pending := block.digest :: synchronizer.pending
      waiting := synchronizer.waiting ++ [block] }
    if block.parent ∈ synchronizer.requests then some synchronizer
    else (setup.committee.address block.author).map fun address => { synchronizer with
      requests := block.parent :: synchronizer.requests
      network := synchronizer.network ++ [(address, .syncRequest block.parent name)] }

/-- One delivery removes the request that several children may share. -/
def ready (synchronizer : Synchronizer) (store : Store) (index : Nat) :
    Option (Block × Synchronizer) := do
  let block ← synchronizer.waiting[index]?
  if (store.read block.parent).isSome then
    some (block, { synchronizer with
      pending := synchronizer.pending.erase block.digest
      requests := synchronizer.requests.erase block.parent
      waiting := synchronizer.waiting.eraseIdx index })
  else none

/-- The timer asks all others again for the requests that are old enough. -/
def retry (synchronizer : Synchronizer) (old : List Digest) : Option Synchronizer :=
  if old.all fun digest => digest ∈ synchronizer.requests then
    some { synchronizer with
      network := synchronizer.network ++ old.flatMap fun digest =>
        (setup.committee.broadcastAddresses name).map fun entry =>
          (entry.2, .syncRequest digest name) }
  else none

end Synchronizer

end DeflHotstuff
