import DeflHotstuff.Construction.Mempool
import DeflHotstuff.Construction.Plain
import DeflHotstuff.Proof.Waiting

namespace DeflHotstuff

open Verification

section

variable [Crypto] {setup : MempoolSetup}

/-- The requests for batches by the last cleanup round at their registration. -/
structure Requests where
  round : Nat
  pending : List (Digest × Nat)

/-- What a message does to the requests, apart from the batches that arrive. -/
def Requests.after (gcDepth : Nat) (requests : Requests) : ConsensusMempoolMessage → Requests
  | .synchronize digests _ => { requests with
      pending := requests.pending ++ (digests.filter fun digest =>
        digest ∉ requests.pending.map Prod.fst).map fun digest => (digest, requests.round) }
  | .cleanup round => {
      round := round
      pending := requests.pending.filter fun entry =>
        round < gcDepth ∨ round - gcDepth < entry.2 }

/-- What a message does to the blocks that wait for their payload. -/
def waitsAfter (waits : List (List Digest × Block)) :
    PayloadWaiterMessage → List (List Digest × Block)
  | .wait missing block => (missing, block) :: waits
  | .cleanup round => waits.filter fun wait => round < wait.2.round

namespace DriverCall

def toMempool : DriverCall → ConsensusMempoolMessage
  | .verify missing block => .synchronize missing block.author
  | .cleanup round => .cleanup round

def toWaiter : DriverCall → PayloadWaiterMessage
  | .verify missing block => .wait missing block
  | .cleanup round => .cleanup round

end DriverCall

namespace MempoolDriver

/-- The requests that the calls so far leave registered. -/
def requests (setup : MempoolSetup) (driver : MempoolDriver) : Requests :=
  (driver.calls.map DriverCall.toMempool).foldl (Requests.after setup.gcDepth) ⟨0, []⟩

/-- The blocks verified so far with a missing payload and above every later cleanup. -/
def waits (driver : MempoolDriver) : List (List Digest × Block) :=
  (driver.calls.map DriverCall.toWaiter).foldl waitsAfter []

/-- A cleanup drops no request for a missing batch of a block above its round. -/
def sparesRequests (setup : MempoolSetup) (driver : MempoolDriver) : DriverEvent → Bool
  | .cleanup round => (driver.requests setup).pending.all fun entry =>
      round < setup.gcDepth ∨ round - setup.gcDepth < entry.2 ∨
        (driver.store.read entry.1).isSome ∨
          driver.waits.all fun wait => wait.2.round ≤ round ∨ entry.1 ∉ wait.1
  | _ => true

end MempoolDriver

/-- Two accounts of the requests agree on the digests that the condition selects. -/
def Requests.Agrees (selected : Digest → Prop) (first second : Requests) : Prop :=
  first.round = second.round ∧ ∀ digest, selected digest → ∀ round,
    (digest, round) ∈ first.pending ↔ (digest, round) ∈ second.pending

namespace Requests

variable {selected : Digest → Prop} {first second third : Requests}

/-- An account agrees with itself. -/
theorem Agrees.refl (requests : Requests) : Agrees selected requests requests :=
  ⟨rfl, fun _ _ _ => Iff.rfl⟩

/-- Agreement is transitive. -/
theorem Agrees.trans (agrees : Agrees selected first second)
    (agrees' : Agrees selected second third) : Agrees selected first third :=
  ⟨agrees.1.trans agrees'.1, fun digest isSelected round =>
    (agrees.2 digest isSelected round).trans (agrees'.2 digest isSelected round)⟩

/-- Agreement on some digests is agreement on fewer. -/
theorem Agrees.weaken {fewer : Digest → Prop} (agrees : Agrees selected first second)
    (implies : ∀ digest, fewer digest → selected digest) : Agrees fewer first second :=
  ⟨agrees.1, fun digest isSelected => agrees.2 digest (implies digest isSelected)⟩

/-- A request adds its digests, each stamped with the round, unless they are pending. -/
theorem mem_after_synchronize {gcDepth : Nat} {requests : Requests} {digests : List Digest}
    {target : PublicKey} {digest : Digest} {round : Nat} :
    (digest, round) ∈ (requests.after gcDepth (.synchronize digests target)).pending ↔
      (digest, round) ∈ requests.pending ∨
        digest ∈ digests ∧ (∀ earlier, (digest, earlier) ∉ requests.pending) ∧
          requests.round = round := by
  simp [after, and_assoc]

/-- A clean-up drops the digests that are stamped up to its bound. -/
theorem mem_after_cleanup {gcDepth bound : Nat} {requests : Requests} {digest : Digest}
    {round : Nat} : (digest, round) ∈ (requests.after gcDepth (.cleanup bound)).pending ↔
      (digest, round) ∈ requests.pending ∧ (bound < gcDepth ∨ bound - gcDepth < round) := by
  simp [after]

/-- One message keeps two accounts in agreement. -/
theorem Agrees.after {gcDepth : Nat} (agrees : Agrees selected first second)
    (message : ConsensusMempoolMessage) :
    Agrees selected (first.after gcDepth message) (second.after gcDepth message) := by
  cases message with
  | synchronize digests target =>
      refine ⟨agrees.1, fun digest isSelected round => ?_⟩
      simp only [mem_after_synchronize, agrees.2 digest isSelected, agrees.1]
  | cleanup bound =>
      refine ⟨rfl, fun digest isSelected round => ?_⟩
      simp only [mem_after_cleanup, agrees.2 digest isSelected]

/-- A list of messages keeps two accounts in agreement. -/
theorem Agrees.foldl {gcDepth : Nat} (agrees : Agrees selected first second)
    (messages : List ConsensusMempoolMessage) :
    Agrees selected (messages.foldl (Requests.after gcDepth) first)
      (messages.foldl (Requests.after gcDepth) second) := by
  induction messages generalizing first second with
  | nil => exact agrees
  | cons message rest ih => exact ih (agrees.after message)

end Requests

namespace BatchSynchronizer

/-- The requests of the synchronizer without channels and timestamps. -/
def requests (synchronizer : BatchSynchronizer) : Requests :=
  ⟨synchronizer.round, synchronizer.pending.map fun entry => (entry.digest, entry.round)⟩

/-- The account of a synchronizer is read off its pending batches. -/
theorem mem_requests {synchronizer : BatchSynchronizer} {digest : Digest} {round : Nat} :
    (digest, round) ∈ synchronizer.requests.pending ↔
      ∃ entry ∈ synchronizer.pending, entry.digest = digest ∧ entry.round = round := by
  simp [requests]

/-- A digest is pending exactly when the account has it. -/
theorem mem_digests {synchronizer : BatchSynchronizer} {digest : Digest} :
    digest ∈ synchronizer.pending.map PendingBatch.digest ↔
      ∃ round, (digest, round) ∈ synchronizer.requests.pending := by
  simp [requests]

/-- Registering adds the digests that are not pending yet, each at the present round. -/
theorem register_requests (now : Nat) (digests : List Digest) (synchronizer : BatchSynchronizer) :
    (register now digests synchronizer).2.round = synchronizer.round ∧
      ∀ digest round, (digest, round) ∈ (register now digests synchronizer).2.requests.pending ↔
        (digest, round) ∈ synchronizer.requests.pending ∨
          digest ∈ digests ∧ (∀ earlier, (digest, earlier) ∉ synchronizer.requests.pending) ∧
            synchronizer.round = round := by
  induction digests generalizing synchronizer with
  | nil => simp [register]
  | cons first rest ih =>
      unfold register
      by_cases known : first ∈ synchronizer.pending.map PendingBatch.digest
      · rw [if_pos known]
        obtain ⟨sameRound, members⟩ := ih synchronizer
        obtain ⟨earlier, isPending⟩ := mem_digests.mp known
        refine ⟨sameRound, fun digest round => (members digest round).trans ?_⟩
        refine or_congr_right ⟨fun ⟨inside, rest⟩ => ⟨List.mem_cons_of_mem _ inside, rest⟩, ?_⟩
        rintro ⟨inside, fresh, isRound⟩
        rcases List.mem_cons.mp inside with rfl | later
        · exact absurd isPending (fresh earlier)
        · exact ⟨later, fresh, isRound⟩
      · rw [if_neg known]
        dsimp only
        generalize isGrown : ({ synchronizer with
          pending := ⟨first, synchronizer.round, synchronizer.nextChannel, now⟩ ::
            synchronizer.pending
          waiting := synchronizer.waiting ++ [(first, synchronizer.nextChannel)]
          nextChannel := synchronizer.nextChannel + 1 } : BatchSynchronizer) = grown
        have added (digest : Digest) (round : Nat) : (digest, round) ∈ grown.requests.pending ↔
            (digest = first ∧ round = synchronizer.round) ∨
              (digest, round) ∈ synchronizer.requests.pending := by
          rw [← isGrown]
          simp [requests]
        have grownRound : grown.round = synchronizer.round := by rw [← isGrown]
        have absent (earlier : Nat) : (first, earlier) ∉ synchronizer.requests.pending :=
          fun inside => known (mem_digests.mpr ⟨earlier, inside⟩)
        obtain ⟨sameRound, members⟩ := ih grown
        refine ⟨sameRound.trans grownRound, fun digest round => (members digest round).trans ?_⟩
        rw [grownRound]
        by_cases same : digest = first
        · subst same
          simp [added, absent, eq_comm]
        · simp [added, same]

/-- The synchronizer handles a message as the account of its requests does. -/
theorem handle_requests (now : Nat) (synchronizer : BatchSynchronizer)
    (message : ConsensusMempoolMessage) :
    Requests.Agrees (fun _ => True) (handle setup now synchronizer message).requests
      (synchronizer.requests.after setup.gcDepth message) := by
  cases message with
  | synchronize digests target =>
      obtain ⟨sameRound, members⟩ := register_requests now digests synchronizer
      have same : (handle setup now synchronizer (.synchronize digests target)).requests =
          (register now digests synchronizer).2.requests := by
        simp only [handle]
        cases setup.mempoolAddress target <;> rfl
      rw [same]
      refine ⟨sameRound, fun digest _ round => ?_⟩
      rw [members, Requests.mem_after_synchronize]
      rfl
  | cleanup bound =>
      simp only [handle]
      split
      · rename_i early
        refine ⟨rfl, fun digest _ round => ?_⟩
        rw [Requests.mem_after_cleanup]
        simp only [early, true_or, and_true]
        rfl
      · rename_i late
        refine ⟨rfl, fun digest _ round => ?_⟩
        rw [Requests.mem_after_cleanup]
        rw [mem_requests, mem_requests]
        simp only [List.mem_filter, decide_eq_true_eq, late, false_or]
        constructor
        · rintro ⟨entry, ⟨inside, young⟩, isDigest, rfl⟩
          exact ⟨⟨entry, inside, isDigest, rfl⟩, young⟩
        · rintro ⟨⟨entry, inside, isDigest, rfl⟩, young⟩
          exact ⟨entry, ⟨inside, young⟩, isDigest, rfl⟩

/-- A batch that arrives removes only its own digest. -/
theorem ready_requests {synchronizer after : BatchSynchronizer} {store : Store} {index : Nat}
    (ready : synchronizer.ready store index = some after) :
    Requests.Agrees (fun digest => store.read digest = none) after.requests
      synchronizer.requests := by
  unfold BatchSynchronizer.ready at ready
  obtain ⟨wait, _, ready⟩ := Option.bind_eq_some_iff.mp ready
  split at ready
  · rename_i arrived
    cases ready
    refine ⟨rfl, fun digest absent round => ?_⟩
    have other : digest ≠ wait.1 := by
      rintro rfl
      rw [absent] at arrived
      cases arrived
    rw [mem_requests, mem_requests]
    constructor
    · rintro ⟨entry, inside, same⟩
      exact ⟨entry, (List.mem_filter.mp inside).1, same⟩
    · rintro ⟨entry, inside, isDigest, isRound⟩
      refine ⟨entry, List.mem_filter.mpr ⟨inside, ?_⟩, isDigest, isRound⟩
      simpa [isDigest] using other
  · cases ready

/-- A cancelled future leaves the account. -/
theorem cancelled_requests {synchronizer after : BatchSynchronizer} {index : Nat}
    (cancelled : synchronizer.cancelled index = some after) :
    after.requests = synchronizer.requests := by
  unfold BatchSynchronizer.cancelled at cancelled
  obtain ⟨wait, _, cancelled⟩ := Option.bind_eq_some_iff.mp cancelled
  split at cancelled
  · cases cancelled
  · cases cancelled
    rfl

/-- A retry leaves the account. -/
theorem retry_requests {synchronizer after : BatchSynchronizer} {now : Nat}
    {chosen : List SocketAddr} (retried : synchronizer.retry setup now chosen = some after) :
    after.requests = synchronizer.requests := by
  unfold BatchSynchronizer.retry at retried
  dsimp only at retried
  split at retried
  · cases retried
    rfl
  · split at retried
    · cases retried
      rfl
    · cases retried

end BatchSynchronizer

namespace PayloadWaiter

/-- The blocks that the payload waiter still holds with the digests that they wait for. -/
def held (waiter : PayloadWaiter) : List (List Digest × Block) :=
  (waiter.waiting.filter fun wait =>
    wait.channel ∈ waiter.pending.map fun entry => entry.2.2).map fun wait =>
      (wait.missing, wait.block)

/-- The waiter holds the blocks of the futures that are pending. -/
theorem mem_held {waiter : PayloadWaiter} {held : List Digest × Block} :
    held ∈ waiter.held ↔ ∃ wait ∈ waiter.waiting,
      (∃ entry ∈ waiter.pending, entry.2.2 = wait.channel) ∧ (wait.missing, wait.block) = held := by
  simp [PayloadWaiter.held, and_assoc]

/-- A channel belongs to one future, and its entry carries the round of that block. -/
structure Labelled (waiter : PayloadWaiter) : Prop where
  futures : ∀ wait ∈ waiter.waiting, wait.channel < waiter.nextChannel
  entries : ∀ entry ∈ waiter.pending, entry.2.2 < waiter.nextChannel
  rounds : ∀ wait ∈ waiter.waiting, ∀ entry ∈ waiter.pending, entry.2.2 = wait.channel →
    entry.2.1 = wait.block.round

/-- Fewer futures and entries keep their channels. -/
theorem Labelled.fewer {waiter after : PayloadWaiter} (labelled : waiter.Labelled)
    (waiting : after.waiting ⊆ waiter.waiting) (pending : after.pending ⊆ waiter.pending)
    (sameChannel : after.nextChannel = waiter.nextChannel) : after.Labelled where
  futures wait inside := sameChannel ▸ labelled.futures wait (waiting inside)
  entries entry inside := sameChannel ▸ labelled.entries entry (pending inside)
  rounds wait inside entry isPending :=
    labelled.rounds wait (waiting inside) entry (pending isPending)

/-- A waiter with fewer futures holds fewer blocks. -/
theorem held_fewer {waiter after : PayloadWaiter} (waiting : after.waiting ⊆ waiter.waiting)
    (pending : after.pending ⊆ waiter.pending) : after.held ⊆ waiter.held := by
  intro held inside
  obtain ⟨wait, isWaiting, ⟨entry, isPending, same⟩, isHeld⟩ := mem_held.mp inside
  exact mem_held.mpr ⟨wait, waiting isWaiting, ⟨entry, pending isPending, same⟩, isHeld⟩

/-- A completed future leaves fewer. -/
theorem ready_fewer {waiter : PayloadWaiter} {store : Store} {index : Nat}
    {result : Block × PayloadWaiter} (ready : waiter.ready store index = some result) :
    result.2.waiting ⊆ waiter.waiting ∧ result.2.pending ⊆ waiter.pending ∧
      result.2.nextChannel = waiter.nextChannel := by
  obtain ⟨_, _, _, _, waiting, pending, sameChannel⟩ := ready_cases ready
  rw [waiting, pending]
  exact ⟨List.eraseIdx_subset, List.filter_subset_self _, sameChannel⟩

/-- A cancelled future leaves fewer. -/
theorem cancelled_fewer {waiter after : PayloadWaiter} {index : Nat}
    (cancelled : waiter.cancelled index = some after) :
    after.waiting ⊆ waiter.waiting ∧ after.pending ⊆ waiter.pending ∧
      after.nextChannel = waiter.nextChannel := by
  obtain ⟨waiting, pending, sameChannel⟩ := cancelled_cases cancelled
  rw [waiting, pending]
  exact ⟨List.eraseIdx_subset, List.Subset.refl _, sameChannel⟩

/-- A message keeps one channel for one future. -/
theorem Labelled.handle {waiter : PayloadWaiter} (labelled : waiter.Labelled)
    (message : PayloadWaiterMessage) : (waiter.handle message).Labelled := by
  cases message with
  | cleanup round =>
      exact labelled.fewer (List.Subset.refl _) (List.filter_subset_self _) rfl
  | wait missing block =>
      unfold PayloadWaiter.handle
      dsimp only
      split
      · exact labelled
      · constructor
        · intro wait inside
          rcases List.mem_append.mp inside with old | new
          · exact Nat.lt_succ_of_lt (labelled.futures wait old)
          · cases List.mem_singleton.mp new
            exact Nat.lt_succ_self _
        · intro entry inside
          rcases List.mem_cons.mp inside with rfl | old
          · exact Nat.lt_succ_self _
          · exact Nat.lt_succ_of_lt (labelled.entries entry old)
        · intro wait inside entry isPending same
          rcases List.mem_append.mp inside with old | new
          · have early := labelled.futures wait old
            rcases List.mem_cons.mp isPending with rfl | isOld
            · exact absurd same (Nat.ne_of_gt early)
            · exact labelled.rounds wait old entry isOld same
          · cases List.mem_singleton.mp new
            rcases List.mem_cons.mp isPending with rfl | isOld
            · rfl
            · exact absurd same (Nat.ne_of_lt (labelled.entries entry isOld))

/-- The payload waiter holds no block that its messages do not account for. -/
theorem Labelled.held_handle {waiter : PayloadWaiter} (labelled : waiter.Labelled)
    (message : PayloadWaiterMessage) :
    (waiter.handle message).held ⊆ waitsAfter waiter.held message := by
  intro held inside
  cases message with
  | cleanup round =>
      obtain ⟨wait, isWaiting, ⟨entry, isPending, same⟩, rfl⟩ := mem_held.mp inside
      obtain ⟨old, above⟩ := List.mem_filter.mp isPending
      refine List.mem_filter.mpr ⟨mem_held.mpr ⟨wait, isWaiting, ⟨entry, old, same⟩, rfl⟩, ?_⟩
      rwa [labelled.rounds wait isWaiting entry old same] at above
  | wait missing block =>
      unfold PayloadWaiter.handle at inside
      dsimp only at inside
      split at inside
      · exact List.mem_cons_of_mem _ inside
      · obtain ⟨wait, isWaiting, ⟨entry, isPending, same⟩, rfl⟩ := mem_held.mp inside
        rcases List.mem_append.mp isWaiting with old | new
        · refine List.mem_cons_of_mem _ (mem_held.mpr ⟨wait, old, ⟨entry, ?_, same⟩, rfl⟩)
          rcases List.mem_cons.mp isPending with rfl | isOld
          · exact absurd same (Nat.ne_of_gt (labelled.futures wait old))
          · exact isOld
        · cases List.mem_singleton.mp new
          exact List.mem_cons_self

end PayloadWaiter

/-- More blocks before the messages leave more blocks after them. -/
theorem waitsAfter_mono {first second : List (List Digest × Block)} (subset : first ⊆ second)
    (messages : List PayloadWaiterMessage) :
    messages.foldl waitsAfter first ⊆ messages.foldl waitsAfter second := by
  induction messages generalizing first second with
  | nil => exact subset
  | cons message rest ih =>
      apply ih
      cases message with
      | wait missing block => exact List.cons_subset_cons _ subset
      | cleanup round => exact List.filter_subset _ subset

/-- The timer asks every chosen node for the overdue digest. -/
theorem BatchSynchronizer.retry_asks {synchronizer after : BatchSynchronizer} {now : Nat}
    {chosen : List SocketAddr} {entry : PendingBatch} (isPending : entry ∈ synchronizer.pending)
    (overdue : entry.timestamp + setup.syncRetryDelay < now)
    (retried : synchronizer.retry setup now chosen = some after) :
    ∀ address ∈ chosen, ∃ digests, entry.digest ∈ digests ∧
      (address, .batchRequest digests setup.name) ∈ after.network := by
  have asked : entry.digest ∈ (synchronizer.pending.filter fun entry =>
      entry.timestamp + setup.syncRetryDelay < now).map PendingBatch.digest :=
    List.mem_map_of_mem (List.mem_filter.mpr ⟨isPending, by simpa using overdue⟩)
  unfold BatchSynchronizer.retry at retried
  dsimp only at retried
  rw [if_neg (List.ne_nil_of_mem asked)] at retried
  split at retried
  · cases retried
    intro address inside
    exact ⟨_, asked, List.mem_append_right _ (List.mem_map.mpr ⟨address, inside, rfl⟩)⟩
  · cases retried

namespace MempoolDriver

/-- The queued messages bring the synchronizer to the requests that the calls account for. -/
def Accounted (setup : MempoolSetup) (driver : MempoolDriver) : Prop :=
  Requests.Agrees (fun digest => driver.store.read digest = none)
    (driver.txMempool.foldl (Requests.after setup.gcDepth) driver.synchronizer.requests)
    (driver.requests setup)

/-- Every block verified with a missing batch has a request for it. -/
def Covered (setup : MempoolSetup) (driver : MempoolDriver) : Prop :=
  ∀ wait ∈ driver.waits, ∀ digest ∈ wait.1, driver.store.read digest = none →
    ∃ round, (digest, round) ∈ (driver.requests setup).pending

variable {driver after : MempoolDriver} {event : DriverEvent}

/-- A call adds its message to the account of the requests. -/
theorem requests_call {call : DriverCall} (calls : after.calls = driver.calls ++ [call]) :
    after.requests setup = (driver.requests setup).after setup.gcDepth call.toMempool := by
  simp [requests, calls]

/-- A call adds its message to the blocks that wait. -/
theorem waits_call {call : DriverCall} (calls : after.calls = driver.calls ++ [call]) :
    after.waits = waitsAfter driver.waits call.toWaiter := by
  simp [waits, calls]

/-- The kinds of steps that the two waiters and their driver take. -/
inductive Change (setup : MempoolSetup) (driver : MempoolDriver) (event : DriverEvent) :
    MempoolDriver → Prop
  | call (call : DriverCall)
      (cleans : ∀ round, call = .cleanup round → event = .cleanup round) :
      Change setup driver event { driver with
        txMempool := driver.txMempool ++ [call.toMempool]
        txPayloadWaiter := driver.txPayloadWaiter ++ [call.toWaiter]
        calls := driver.calls ++ [call] }
  | present : Change setup driver event driver
  | write (key : Digest) (value : Value) :
      Change setup driver event { driver with store := driver.store.write key value }
  | waiterMessage (message : PayloadWaiterMessage)
      (rest : List PayloadWaiterMessage) (queue : driver.txPayloadWaiter = message :: rest) :
      Change setup driver event { driver with
        txPayloadWaiter := rest
        payloadWaiter := driver.payloadWaiter.handle message }
  | waiter (waiter : PayloadWaiter)
      (waiting : waiter.waiting ⊆ driver.payloadWaiter.waiting)
      (pending : waiter.pending ⊆ driver.payloadWaiter.pending)
      (sameChannel : waiter.nextChannel = driver.payloadWaiter.nextChannel) :
      Change setup driver event { driver with payloadWaiter := waiter }
  | mempoolMessage (now : Nat) (message : ConsensusMempoolMessage)
      (rest : List ConsensusMempoolMessage) (queue : driver.txMempool = message :: rest) :
      Change setup driver event { driver with
        txMempool := rest
        synchronizer := driver.synchronizer.handle setup now message }
  | synchronizer (synchronizer : BatchSynchronizer)
      (agrees : Requests.Agrees (fun digest => driver.store.read digest = none)
        synchronizer.requests driver.synchronizer.requests) :
      Change setup driver event { driver with synchronizer := synchronizer }

/-- A step of the driver is one of the changes. -/
theorem step_change (steps : driver.step setup event = some after) :
    Change setup driver event after := by
  cases event with
  | verify block =>
      cases steps
      unfold MempoolDriver.verify
      dsimp only
      split
      · exact .present
      · exact .call (.verify _ block) fun _ impossible => nomatch impossible
  | cleanup round =>
      cases steps
      exact .call (.cleanup round) fun _ same => by cases same; rfl
  | write key value =>
      cases steps
      exact .write key value
  | waiterMessage =>
      simp only [step] at steps
      split at steps
      · cases steps
      · rename_i message rest queue
        cases steps
        exact .waiterMessage message rest queue
  | payloadReady index =>
      obtain ⟨result, ready, rfl⟩ := Option.map_eq_some_iff.mp steps
      obtain ⟨waiting, pending, sameChannel⟩ := PayloadWaiter.ready_fewer ready
      exact .waiter _ waiting pending sameChannel
  | payloadCancelled index =>
      obtain ⟨waiter, cancelled, rfl⟩ := Option.map_eq_some_iff.mp steps
      obtain ⟨waiting, pending, sameChannel⟩ := PayloadWaiter.cancelled_fewer cancelled
      exact .waiter _ waiting pending sameChannel
  | mempoolMessage now =>
      simp only [step] at steps
      split at steps
      · cases steps
      · rename_i message rest queue
        cases steps
        exact .mempoolMessage now message rest queue
  | batchReady index =>
      obtain ⟨synchronizer, ready, rfl⟩ := Option.map_eq_some_iff.mp steps
      exact .synchronizer _ (BatchSynchronizer.ready_requests ready)
  | batchCancelled index =>
      obtain ⟨synchronizer, cancelled, rfl⟩ := Option.map_eq_some_iff.mp steps
      apply Change.synchronizer
      rw [BatchSynchronizer.cancelled_requests cancelled]
      exact Requests.Agrees.refl _
  | retry now chosen =>
      obtain ⟨synchronizer, retried, rfl⟩ := Option.map_eq_some_iff.mp steps
      apply Change.synchronizer
      rw [BatchSynchronizer.retry_requests retried]
      exact Requests.Agrees.refl _

/-- A key that is absent after a write was absent before it. -/
theorem absent_before {store : Store} {key digest : Digest} {value : Value}
    (absent : (store.write key value).read digest = none) : store.read digest = none := by
  by_contra present
  have kept := store.read_write_isSome key digest value (Option.isSome_iff_ne_none.mpr present)
  rw [absent] at kept
  cases kept

/-- A step keeps the queue in account. -/
theorem Accounted.step (accounted : driver.Accounted setup)
    (steps : driver.step setup event = some after) : after.Accounted setup := by
  cases step_change steps with
  | present => exact accounted
  | waiterMessage => exact accounted
  | waiter => exact accounted
  | write key value => exact Requests.Agrees.weaken accounted fun _ => absent_before
  | call call cleans =>
      unfold Accounted
      rw [requests_call rfl]
      simp only [List.foldl_append, List.foldl_cons, List.foldl_nil]
      exact Requests.Agrees.after accounted _
  | mempoolMessage now message rest queue =>
      unfold Accounted at accounted
      rw [queue] at accounted
      have handled : Requests.Agrees (fun _ => True)
          (driver.synchronizer.handle setup now message).requests
          (driver.synchronizer.requests.after setup.gcDepth message) :=
        BatchSynchronizer.handle_requests now driver.synchronizer message
      exact ((handled.weaken fun _ _ => trivial).foldl rest).trans accounted
  | synchronizer synchronizer agrees => exact (agrees.foldl _).trans accounted

/-- The payload waiter and its queue hold no block that the calls do not account for. -/
structure Held (driver : MempoolDriver) : Prop where
  labelled : driver.payloadWaiter.Labelled
  waits : driver.txPayloadWaiter.foldl waitsAfter driver.payloadWaiter.held ⊆ driver.waits

/-- A step holds no block that the calls do not account for. -/
theorem Held.step (held : driver.Held) (steps : driver.step setup event = some after) :
    after.Held := by
  cases step_change steps with
  | present => exact held
  | write key value => exact ⟨held.labelled, held.waits⟩
  | mempoolMessage => exact ⟨held.labelled, held.waits⟩
  | synchronizer => exact ⟨held.labelled, held.waits⟩
  | call call cleans =>
      refine ⟨held.labelled, ?_⟩
      rw [waits_call rfl]
      simp only [List.foldl_append, List.foldl_cons, List.foldl_nil]
      exact waitsAfter_mono held.waits [call.toWaiter]
  | waiterMessage message rest queue =>
      refine ⟨held.labelled.handle message, ?_⟩
      have waits := held.waits
      rw [queue] at waits
      exact List.Subset.trans (waitsAfter_mono (held.labelled.held_handle message) rest) waits
  | waiter waiter waiting pending sameChannel =>
      refine ⟨held.labelled.fewer waiting pending sameChannel, ?_⟩
      exact List.Subset.trans (waitsAfter_mono (PayloadWaiter.held_fewer waiting pending) _)
        held.waits

/-- A cleanup that meets the condition keeps every request that a block needs. -/
theorem Covered.step (covered : driver.Covered setup)
    (allowed : driver.sparesRequests setup event = true)
    (steps : driver.step setup event = some after) : after.Covered setup := by
  cases step_change steps with
  | present => exact covered
  | waiterMessage => exact covered
  | waiter => exact covered
  | mempoolMessage => exact covered
  | synchronizer => exact covered
  | write key value =>
      intro wait inside digest isMissing absent
      exact covered wait inside digest isMissing (absent_before absent)
  | call call cleans =>
      unfold Covered
      rw [waits_call rfl, requests_call rfl]
      intro wait inside digest isMissing absent
      cases call with
      | verify missing block =>
          rcases List.mem_cons.mp inside with rfl | old
          · by_cases known : ∃ earlier, (digest, earlier) ∈ (driver.requests setup).pending
            · obtain ⟨earlier, isPending⟩ := known
              exact ⟨earlier, Requests.mem_after_synchronize.mpr (.inl isPending)⟩
            · refine ⟨_, Requests.mem_after_synchronize.mpr (.inr ⟨isMissing, ?_, rfl⟩)⟩
              exact not_exists.mp known
          · obtain ⟨round, isPending⟩ := covered wait old digest isMissing absent
            exact ⟨round, Requests.mem_after_synchronize.mpr (.inl isPending)⟩
      | cleanup bound =>
          cases cleans bound rfl
          obtain ⟨old, above⟩ := List.mem_filter.mp inside
          obtain ⟨round, isPending⟩ := covered wait old digest isMissing absent
          refine ⟨round, Requests.mem_after_cleanup.mpr ⟨isPending, ?_⟩⟩
          have spared := List.all_eq_true.mp allowed _ isPending
          simp only [decide_eq_true_eq, List.all_eq_true] at spared
          rcases spared with early | young | stored | unused
          · exact .inl early
          · exact .inr young
          · rw [show driver.store.read digest = none from absent] at stored
            cases stored
          · rcases unused wait old with low | other
            · exact absurd low (Nat.not_le.mpr (of_decide_eq_true above))
            · exact absurd isMissing other

/-- While the cleanups meet the condition, every batch that a held block misses is pending in the
synchronizer once both queues are empty, and the timer asks every chosen node for it. -/
theorem payload_requested {events : List DriverEvent}
    (run : (machine setup).Run (fun driver event => driver.sparesRequests setup event = true)
      events driver)
    (consumed : driver.txMempool = []) (awaited : driver.txPayloadWaiter = []) :
    ∀ wait ∈ driver.payloadWaiter.held, ∀ digest ∈ wait.1, driver.store.read digest = none →
      ∃ entry ∈ driver.synchronizer.pending, entry.digest = digest ∧
        ∀ now chosen after, entry.timestamp + setup.syncRetryDelay < now →
          driver.synchronizer.retry setup now chosen = some after →
            ∀ address ∈ chosen, ∃ digests, digest ∈ digests ∧
              (address, .batchRequest digests setup.name) ∈ after.network := by
  obtain ⟨accounted, held, covered⟩ :
      driver.Accounted setup ∧ driver.Held ∧ driver.Covered setup := by
    apply run.invariant fun driver =>
      driver.Accounted setup ∧ driver.Held ∧ driver.Covered setup
    · exact ⟨.refl _, ⟨⟨by simp [machine, new, PayloadWaiter.new],
        by simp [machine, new, PayloadWaiter.new], by simp [machine, new, PayloadWaiter.new]⟩,
        List.Subset.refl _⟩, fun _ inside => nomatch inside⟩
    · intro driver event after _ allowed holds steps
      obtain ⟨accounted, held, covered⟩ := holds
      exact ⟨accounted.step steps, held.step steps, covered.step allowed steps⟩
  intro wait isHeld digest isMissing absent
  have inside : wait ∈ driver.waits := held.waits (by rwa [awaited])
  obtain ⟨round, isRequest⟩ := covered wait inside digest isMissing absent
  rw [Accounted, consumed] at accounted
  obtain ⟨entry, isPending, rfl, _⟩ :=
    BatchSynchronizer.mem_requests.mp ((accounted.2 digest absent round).mpr isRequest)
  exact ⟨entry, isPending, rfl, fun now chosen after overdue retried =>
    BatchSynchronizer.retry_asks isPending overdue retried⟩

end MempoolDriver

/-- The core with the queues of its driver. -/
def MempoolDriver.fill (driver : MempoolDriver) (core : Core) : Core :=
  { core with txMempool := driver.txMempool, txPayloadWaiter := driver.txPayloadWaiter }

/-- The driver of the core next to the two waiters. -/
def Core.driver (core : Core) (waiter : PayloadWaiter) (synchronizer : BatchSynchronizer)
    (calls : List DriverCall) : MempoolDriver :=
  ⟨core.store, core.txMempool, core.txPayloadWaiter, waiter, synchronizer, calls⟩

/-- The core verifies the payload of a block through its driver. -/
theorem Core.verifyPayload_driver (block : Block) (core : Core) (waiter : PayloadWaiter)
    (synchronizer : BatchSynchronizer) (calls : List DriverCall) :
    verifyPayload block core =
      (.ok ((core.driver waiter synchronizer calls).verify block).1,
        ((core.driver waiter synchronizer calls).verify block).2.fill core) := by
  unfold verifyPayload MempoolDriver.verify driver
  rw [Handler.read_bind]
  dsimp only
  split <;> rfl

/-- The core cleans up through its driver whenever the two-chain rule commits. -/
theorem Core.commitTwoChain_driver (setup : Setup) {b0 b1 : Block} (core : Core)
    (waiter : PayloadWaiter) (synchronizer : BatchSynchronizer) (calls : List DriverCall)
    (consecutive : b0.round + 1 = b1.round) :
    commitTwoChain setup b0 b1 core =
      commit setup b0 ((((core.driver waiter synchronizer calls).cleanup b0.round).fill
        core).record (.committed b0)) := by
  unfold commitTwoChain
  rw [Rounds.next_unbounded, if_pos consecutive]
  rfl

end

namespace Plain

/-- A node that keeps a request for fifty rounds after its registration. -/
def mempool : MempoolSetup where
  name := (0 : Nat)
  gcDepth := 50
  syncRetryDelay := 5000
  syncRetryNodes := 3
  mempoolAddress _ := some ⟨"", 0⟩
  broadcastAddresses := [⟨"", 1⟩, ⟨"", 2⟩, ⟨"", 3⟩]

/-- A block far ahead of the node, with a batch that the node lacks. -/
def ahead : Block := Block.new .genesis none (1 : Nat) 60 [[7]] (sign 1)

/-- The node verifies the block and commits another one before the batch arrives. -/
def catchUp (round : Nat) : List DriverEvent :=
  [.verify ahead, .mempoolMessage 0, .waiterMessage, .cleanup round, .mempoolMessage 0,
    .waiterMessage]

/-- A cleanup below the depth keeps the request of the block that waits. -/
theorem payload_requested_early : ∃ driver, (MempoolDriver.machine mempool).Run
      (fun driver event => driver.sparesRequests mempool event = true) (catchUp 20) driver ∧
    ([[7]], ahead) ∈ driver.payloadWaiter.held ∧
      ∃ entry ∈ driver.synchronizer.pending, entry.digest = [7] := by
  have steps : ((MempoolDriver.machine mempool).execute .new (catchUp 20)).isSome := by decide
  obtain ⟨driver, executed⟩ := Option.isSome_iff_exists.mp steps
  have run : (MempoolDriver.machine mempool).Run
      (fun driver event => driver.sparesRequests mempool event = true) (catchUp 20) driver :=
    .of_execute (by decide) executed
  cases executed
  have held : ([[7]], ahead) ∈ (PayloadWaiter.new.handle (.wait [[7]] ahead)).held :=
    List.mem_singleton.mpr rfl
  obtain ⟨entry, isPending, same, _⟩ := MempoolDriver.payload_requested run rfl rfl _ held [7]
    (List.mem_singleton.mpr rfl) rfl
  exact ⟨_, run, held, entry, isPending, same⟩

/-- A later cleanup drops the request, and the block waits on without one. -/
theorem payload_requested_fails : ∃ driver, (MempoolDriver.machine mempool).Reachable driver ∧
    driver.txMempool = [] ∧ driver.txPayloadWaiter = [] ∧
      ∃ wait ∈ driver.payloadWaiter.held, ∃ digest ∈ wait.1,
        driver.store.read digest = none ∧
          ∀ entry ∈ driver.synchronizer.pending, entry.digest ≠ digest := by
  have steps : ((MempoolDriver.machine mempool).execute .new (catchUp 50)).isSome := by decide
  obtain ⟨driver, executed⟩ := Option.isSome_iff_exists.mp steps
  have reachable : (MempoolDriver.machine mempool).Reachable driver := .execute executed
  cases executed
  refine ⟨_, reachable, rfl, rfl, ([[7]], ahead), ?_, [7], ?_, rfl, ?_⟩
  · exact List.mem_singleton.mpr rfl
  · exact List.mem_singleton.mpr rfl
  · intro entry isPending
    cases isPending

end Plain

end DeflHotstuff
