import DeflHotstuff.Proof.Requests

namespace DeflHotstuff

open Verification

section

variable [Crypto] {setup : MempoolSetup}

instance : DecidableEq ConsensusMempoolMessage
  | .synchronize digests target, .synchronize digests' target' =>
      decidable_of_iff (digests = digests' ∧ target = target') (by simp)
  | .cleanup round, .cleanup round' => decidable_of_iff (round = round') (by simp)
  | .synchronize _ _, .cleanup _ => .isFalse nofun
  | .cleanup _, .synchronize _ _ => .isFalse nofun

/-- The round of a cleanup message. -/
def ConsensusMempoolMessage.cleanupRound : ConsensusMempoolMessage → Option Nat
  | .cleanup round => some round
  | .synchronize _ _ => none

namespace BatchSynchronizer

variable {synchronizer after : BatchSynchronizer} {entry : PendingBatch}

/-- A new entry carries the present round. -/
theorem register_entry {now : Nat} {digests : List Digest}
    (inside : entry ∈ (register now digests synchronizer).2.pending) :
    entry ∈ synchronizer.pending ∨ entry.round = synchronizer.round := by
  induction digests generalizing synchronizer with
  | nil => exact .inl inside
  | cons digest rest ih =>
      unfold register at inside
      split at inside
      · exact ih inside
      · rcases ih inside with old | sameRound
        · rcases List.mem_cons.mp old with rfl | old
          · exact .inr rfl
          · exact .inl old
        · exact .inr sameRound

/-- Registering keeps the entries and the round. -/
theorem register_keeps (now : Nat) (digests : List Digest) (synchronizer : BatchSynchronizer) :
    synchronizer.pending ⊆ (register now digests synchronizer).2.pending ∧
      (register now digests synchronizer).2.round = synchronizer.round := by
  induction digests generalizing synchronizer with
  | nil => exact ⟨List.Subset.refl _, rfl⟩
  | cons digest rest ih =>
      unfold register
      split
      · exact ih synchronizer
      · obtain ⟨keeps, sameRound⟩ := ih { synchronizer with
          pending := ⟨digest, synchronizer.round, synchronizer.nextChannel, now⟩ ::
            synchronizer.pending
          waiting := synchronizer.waiting ++ [(digest, synchronizer.nextChannel)]
          nextChannel := synchronizer.nextChannel + 1 }
        exact ⟨fun entry inside => keeps (List.mem_cons_of_mem _ inside), sameRound⟩

/-- A `Synchronize` registers its digests and nothing else. -/
theorem handle_synchronize (now : Nat) (digests : List Digest) (target : PublicKey)
    (synchronizer : BatchSynchronizer) :
    (handle setup now synchronizer (.synchronize digests target)).pending =
        (register now digests synchronizer).2.pending ∧
      (handle setup now synchronizer (.synchronize digests target)).round =
        (register now digests synchronizer).2.round := by
  simp only [handle]
  cases setup.mempoolAddress target <;> exact ⟨rfl, rfl⟩

/-- A cleanup takes an entry out exactly when its round is deep enough below the new one. -/
theorem mem_handle_cleanup (isPending : entry ∈ synchronizer.pending) (now round : Nat) :
    entry ∉ (handle setup now synchronizer (.cleanup round)).pending ↔
      setup.gcDepth ≤ round ∧ entry.round + setup.gcDepth ≤ round := by
  simp only [handle]
  split
  · rename_i early
    simp only [isPending, not_true_eq_false, false_iff]
    omega
  · simp only [List.mem_filter, isPending, true_and, decide_eq_true_eq]
    omega

/-- A `Cleanup` sets the round to its own. -/
theorem handle_cleanup_round {now round : Nat} :
    (handle setup now synchronizer (.cleanup round)).round = round := by
  simp only [handle]
  split <;> rfl

/-- A future that is ready takes out the entry of its own batch only. -/
theorem ready_entry {store : Store} {index : Nat}
    (ready : synchronizer.ready store index = some after) :
    after.round = synchronizer.round ∧ ∀ entry ∈ synchronizer.pending,
      entry ∈ after.pending ∨ (store.read entry.digest).isSome := by
  obtain ⟨wait, _, ready⟩ := Option.bind_eq_some_iff.mp ready
  split at ready
  · rename_i arrived
    cases ready
    refine ⟨rfl, fun entry inside => ?_⟩
    by_cases same : entry.digest = wait.1
    · rw [same]
      exact .inr arrived
    · exact .inl (List.mem_filter.mpr ⟨inside, decide_eq_true same⟩)
  · cases ready

/-- A cancelled wait leaves the round and the pending map alone. -/
theorem cancelled_entry {index : Nat} (cancelled : synchronizer.cancelled index = some after) :
    after.round = synchronizer.round ∧ after.pending = synchronizer.pending := by
  obtain ⟨wait, _, cancelled⟩ := Option.bind_eq_some_iff.mp cancelled
  split at cancelled
  · cases cancelled
  · cases cancelled
    exact ⟨rfl, rfl⟩

/-- The timer leaves the round and the pending map alone. -/
theorem retry_entry {now : Nat} {chosen : List SocketAddr}
    (retried : synchronizer.retry setup now chosen = some after) :
    after.round = synchronizer.round ∧ after.pending = synchronizer.pending := by
  unfold BatchSynchronizer.retry at retried
  dsimp only at retried
  split at retried
  · cases retried
    exact ⟨rfl, rfl⟩
  · split at retried
    · cases retried
      exact ⟨rfl, rfl⟩
    · cases retried

end BatchSynchronizer

namespace MempoolDriver

variable {driver after registered later : MempoolDriver} {event : DriverEvent}
  {entry : PendingBatch}

/-- The messages that the synchronizer has received so far. -/
def received (driver : MempoolDriver) : List ConsensusMempoolMessage :=
  (driver.calls.map DriverCall.toMempool).take (driver.calls.length - driver.txMempool.length)

/-- The rounds of the cleanups that the synchronizer has received so far. -/
def cleanups (driver : MempoolDriver) : List Nat :=
  driver.received.filterMap ConsensusMempoolMessage.cleanupRound

def lastCleanup (driver : MempoolDriver) : Nat := driver.cleanups.getLastD 0

def greatestCleanup (driver : MempoolDriver) : Nat := driver.cleanups.foldr max 0

/-- The calls are the received messages with the queued ones, and the round of the synchronizer is
the one of the last cleanup. -/
structure Stamped (driver : MempoolDriver) : Prop where
  queued : driver.calls.map DriverCall.toMempool = driver.received ++ driver.txMempool
  round : driver.synchronizer.round = driver.lastCleanup

/-- What was sent to the mempool was received or is still queued. -/
theorem received_of (messages : List ConsensusMempoolMessage)
    (queued : driver.calls.map DriverCall.toMempool = messages ++ driver.txMempool) :
    driver.received = messages := by
  have lengths := congrArg List.length queued
  simp only [List.length_map, List.length_append] at lengths
  rw [received, queued, lengths, Nat.add_sub_cancel, List.take_left]

/-- The last cleanup is the round of a message that is received last. -/
theorem lastCleanup_of (messages : List ConsensusMempoolMessage)
    (queued : driver.calls.map DriverCall.toMempool = messages ++ driver.txMempool) :
    driver.lastCleanup =
      (messages.filterMap ConsensusMempoolMessage.cleanupRound).getLastD 0 := by
  rw [lastCleanup, cleanups, received_of messages queued]

/-- The stamps read the calls, the queue and the round only. -/
theorem Stamped.same (stamped : driver.Stamped)
    (calls : after.calls = driver.calls) (txMempool : after.txMempool = driver.txMempool)
    (round : after.synchronizer.round = driver.synchronizer.round) : after.Stamped := by
  have received : after.received = driver.received := by
    rw [MempoolDriver.received, calls, txMempool, MempoolDriver.received]
  constructor
  · rw [calls, txMempool, received, stamped.queued]
  · rw [round, stamped.round, lastCleanup, lastCleanup, cleanups, cleanups, received]

/-- A step keeps the stamps right. -/
theorem Stamped.step (stamped : driver.Stamped) (steps : driver.step setup event = some after) :
    after.Stamped := by
  cases step_change steps with
  | present => exact stamped
  | write key value => exact stamped.same rfl rfl rfl
  | waiterMessage => exact stamped.same rfl rfl rfl
  | waiter => exact stamped.same rfl rfl rfl
  | synchronizer synchronizer agrees => exact stamped.same rfl rfl agrees.1
  | call call cleans =>
      generalize isGrown : ({ driver with
        txMempool := driver.txMempool ++ [call.toMempool]
        txPayloadWaiter := driver.txPayloadWaiter ++ [call.toWaiter]
        calls := driver.calls ++ [call] } : MempoolDriver) = grown
      have queued : grown.calls.map DriverCall.toMempool = driver.received ++ grown.txMempool := by
        rw [← isGrown]
        simp [stamped.queued]
      constructor
      · rw [received_of _ queued, queued]
      · rw [lastCleanup_of _ queued, ← isGrown]
        exact stamped.round
  | mempoolMessage now message rest queue =>
      generalize isHandled : ({ driver with
        txMempool := rest
        synchronizer := driver.synchronizer.handle setup now message } : MempoolDriver) = handled
      have queued : handled.calls.map DriverCall.toMempool =
          (driver.received ++ [message]) ++ handled.txMempool := by
        rw [← isHandled]
        simp [stamped.queued, queue]
      constructor
      · rw [received_of _ queued, queued]
      · rw [lastCleanup_of _ queued, ← isHandled]
        cases message with
        | cleanup round =>
            simp [BatchSynchronizer.handle_cleanup_round, ConsensusMempoolMessage.cleanupRound]
        | synchronize digests target =>
            simp only [BatchSynchronizer.handle_synchronize, BatchSynchronizer.register_keeps,
              stamped.round, List.filterMap_append, ConsensusMempoolMessage.cleanupRound,
              List.filterMap_cons, List.filterMap_nil, List.append_nil]
            rfl

/-- In every reachable state the stamps are right. -/
theorem reachable_stamped (reachable : (machine setup).Reachable driver) : driver.Stamped := by
  apply reachable.invariant Stamped
  · exact ⟨rfl, rfl⟩
  · intro driver event after _ stamped steps
    exact stamped.step steps

/-- An entry leaves once its batch has arrived or on a cleanup that is deep enough above it. -/
theorem step_entry (isPending : entry ∈ driver.synchronizer.pending)
    (steps : driver.step setup event = some after)
    (gone : entry ∉ after.synchronizer.pending) :
    (driver.store.read entry.digest).isSome ∨ ∃ now round rest,
      event = .mempoolMessage now ∧ driver.txMempool = .cleanup round :: rest ∧
        entry.round + setup.gcDepth ≤ round := by
  cases event with
  | verify block =>
      cases steps
      unfold verify at gone
      dsimp only at gone
      split at gone <;> exact absurd isPending gone
  | cleanup round =>
      cases steps
      exact absurd isPending gone
  | write key value =>
      cases steps
      exact absurd isPending gone
  | waiterMessage =>
      simp only [step] at steps
      split at steps <;> cases steps
      exact absurd isPending gone
  | payloadReady index =>
      obtain ⟨result, _, rfl⟩ := Option.map_eq_some_iff.mp steps
      exact absurd isPending gone
  | payloadCancelled index =>
      obtain ⟨waiter, _, rfl⟩ := Option.map_eq_some_iff.mp steps
      exact absurd isPending gone
  | mempoolMessage now =>
      simp only [step] at steps
      split at steps
      · cases steps
      · rename_i message rest queue
        cases steps
        cases message with
        | synchronize digests target =>
            obtain ⟨pending, _⟩ :=
              BatchSynchronizer.handle_synchronize now digests target driver.synchronizer
            apply absurd _ gone
            rw [pending]
            exact (BatchSynchronizer.register_keeps now digests driver.synchronizer).1 isPending
        | cleanup round =>
            right
            obtain ⟨_, deep⟩ := (BatchSynchronizer.mem_handle_cleanup isPending now round).mp gone
            exact ⟨now, round, rest, rfl, queue, deep⟩
  | batchReady index =>
      obtain ⟨synchronizer, ready, rfl⟩ := Option.map_eq_some_iff.mp steps
      left
      exact ((BatchSynchronizer.ready_entry ready).2 entry isPending).resolve_left gone
  | batchCancelled index =>
      obtain ⟨synchronizer, cancelled, rfl⟩ := Option.map_eq_some_iff.mp steps
      exact absurd ((BatchSynchronizer.cancelled_entry cancelled).2 ▸ isPending) gone
  | retry now chosen =>
      obtain ⟨synchronizer, retried, rfl⟩ := Option.map_eq_some_iff.mp steps
      exact absurd ((BatchSynchronizer.retry_entry retried).2 ▸ isPending) gone

/-- A message registers entries at the round of the last cleanup before it. -/
theorem registered_round (stamped : driver.Stamped) {now : Nat}
    (registers : driver.step setup (.mempoolMessage now) = some registered)
    (isNew : entry ∉ driver.synchronizer.pending)
    (isPending : entry ∈ registered.synchronizer.pending) : entry.round = driver.lastCleanup := by
  simp only [step] at registers
  split at registers
  · cases registers
  · rename_i message rest queue
    cases registers
    cases message with
    | synchronize digests target =>
        obtain ⟨pending, _⟩ :=
          BatchSynchronizer.handle_synchronize now digests target driver.synchronizer
        rw [pending] at isPending
        rw [← stamped.round]
        exact (BatchSynchronizer.register_entry isPending).resolve_left isNew
    | cleanup round =>
        simp only [BatchSynchronizer.handle] at isPending
        split at isPending
        · exact absurd isPending isNew
        · exact absurd (List.mem_filter.mp isPending).1 isNew

/-- The last cleanup is no greater than the greatest. -/
theorem lastCleanup_le (driver : MempoolDriver) : driver.lastCleanup ≤ driver.greatestCleanup := by
  have bounds (rounds : List Nat) : ∀ round ∈ rounds, round ≤ rounds.foldr max 0 := by
    induction rounds with
    | nil => simp
    | cons first rest ih =>
        intro round inside
        rcases List.mem_cons.mp inside with rfl | later
        · exact Nat.le_max_left _ _
        · exact (ih round later).trans (Nat.le_max_right _ _)
  unfold lastCleanup greatestCleanup
  rcases List.eq_nil_or_concat driver.cleanups with empty | ⟨earlier, last, isLast⟩
  · simp [empty]
  · apply bounds
    simp [isLast]

/-- As long as a registered entry is pending, it leaves once its batch has arrived or on a cleanup
that is deep enough above the last one before its registration. The cleanups that take it out are
all deep enough above the greatest one, if and only if the last one was the greatest. -/
theorem collected_after_depth {now : Nat}
    (reachable : (machine setup).Reachable driver)
    (registers : driver.step setup (.mempoolMessage now) = some registered)
    (isNew : entry ∉ driver.synchronizer.pending)
    (isRegistered : entry ∈ registered.synchronizer.pending)
    (isPending : entry ∈ later.synchronizer.pending) :
    (∀ event after, later.step setup event = some after →
      entry ∉ after.synchronizer.pending →
        (later.store.read entry.digest).isSome ∨ ∃ now round rest,
          event = .mempoolMessage now ∧ later.txMempool = .cleanup round :: rest ∧
            driver.lastCleanup + setup.gcDepth ≤ round) ∧
    ((∀ now round, entry ∉ (later.synchronizer.handle setup now (.cleanup round)).pending →
        driver.greatestCleanup + setup.gcDepth ≤ round) ↔
      driver.lastCleanup = driver.greatestCleanup) := by
  have sameRound := registered_round (reachable_stamped reachable) registers isNew isRegistered
  constructor
  · intro event after steps gone
    rw [← sameRound]
    exact step_entry isPending steps gone
  · simp only [BatchSynchronizer.mem_handle_cleanup isPending, sameRound]
    constructor
    · intro deep
      have deepest := deep 0 (driver.lastCleanup + setup.gcDepth)
        ⟨Nat.le_add_left _ _, Nat.le_refl _⟩
      exact Nat.le_antisymm driver.lastCleanup_le (Nat.le_of_add_le_add_right deepest)
    · rintro same _ round ⟨_, deep⟩
      rwa [← same]

end MempoolDriver

end

namespace Plain

/-- A block with one batch that the leader of its round signs. -/
def carry (batch : List UInt8) (qc : QC) (tc : Option TC) (round : Nat) : Block :=
  Block.new qc tc (round % 4) round [hash (.batch batch)] (sign (round % 4))

/-- Three blocks of consecutive rounds, each certified by the next. -/
def stretch (qc : QC) (tc : Option TC) (round : Nat) : List Block :=
  let b0 := carry [7] qc tc round
  let b1 := carry [7] (certify b0) none (round + 1)
  [b0, b1, carry [7] (certify b1) none (round + 2)]

def low : List Block := stretch .genesis (some (expire 8 0)) 9

def middle : List Block :=
  stretch (certify (low.getLastD .genesis)) (some (expire 60 11)) 61

def high : List Block :=
  stretch (certify (middle.getLastD .genesis)) (some (expire 100 63)) 101

/-- A block of a later round with a batch that the node lacks. -/
def unseen : Block := carry [8] (certify (high.getLastD .genesis)) (some (expire 104 103)) 105

/-- The chain arrives in order, then an old block comes again before the block with the missing
batch, and another old block after it. -/
def replayed : List Block :=
  low ++ middle ++ high ++ [low.getLastD .genesis, unseen, middle.getLastD .genesis]

/-- What the core sends to the synchronizer of the mempool meanwhile. -/
def replayMessages : List ConsensusMempoolMessage :=
  [.cleanup 9, .cleanup 10, .cleanup 61, .cleanup 62, .cleanup 101, .cleanup 9,
    .synchronize [hash (.batch [8])] (1 : Nat), .cleanup 61]

/-- The calls behind these messages, of which the synchronizer handles all but the last two. -/
def replayCalls : List DriverEvent :=
  [.cleanup 9, .cleanup 10, .cleanup 61, .cleanup 62, .cleanup 101, .cleanup 9, .verify unseen,
    .cleanup 61] ++ List.replicate 6 (.mempoolMessage 0)

/-- A request that is registered when the last cleanup is the greatest. -/
theorem collected_after_depth_ahead : ∃ driver registered entry,
    (MempoolDriver.machine mempool).execute .new
        [.cleanup 101, .verify unseen, .mempoolMessage 0] = some driver ∧
      driver.step mempool (.mempoolMessage 0) = some registered ∧
      entry ∈ registered.synchronizer.pending ∧
      (∀ event after, registered.step mempool event = some after →
        entry ∉ after.synchronizer.pending →
          (registered.store.read entry.digest).isSome ∨ ∃ now round rest,
            event = .mempoolMessage now ∧ registered.txMempool = .cleanup round :: rest ∧
              driver.lastCleanup + 50 ≤ round) ∧
      ((∀ now round,
          entry ∉ (registered.synchronizer.handle mempool now (.cleanup round)).pending →
            driver.greatestCleanup + 50 ≤ round) ↔
        driver.lastCleanup = driver.greatestCleanup) := by
  have taken : ((MempoolDriver.machine mempool).execute .new
      [.cleanup 101, .verify unseen, .mempoolMessage 0]).bind (fun driver =>
        (driver.step mempool (.mempoolMessage 0)).map fun registered =>
          (driver.synchronizer.pending.length, registered.synchronizer.pending.length)) =
      some (0, 1) := by
    decide +kernel
  obtain ⟨driver, executed, taken⟩ := Option.bind_eq_some_iff.mp taken
  obtain ⟨registered, registers, lengths⟩ := Option.map_eq_some_iff.mp taken
  obtain ⟨none, one⟩ := Prod.mk.inj lengths
  obtain ⟨entry, only⟩ := List.length_eq_one_iff.mp one
  have isNew : entry ∉ driver.synchronizer.pending := by
    rw [List.length_eq_zero_iff.mp none]
    exact List.not_mem_nil
  have isPending : entry ∈ registered.synchronizer.pending := by
    rw [only]
    exact List.mem_cons_self
  exact ⟨driver, registered, entry, executed, registers, isPending,
    MempoolDriver.collected_after_depth (.execute executed) registers isNew isPending isPending⟩

/-- A replayed block sets the round back, and the next cleanup takes the new request out. -/
theorem collected_after_depth_fails : ∃ node driver registered collected entry,
    (Node.machine four.setup (0 : Nat)).Reachable node ∧
      (MempoolDriver.machine mempool).Reachable driver ∧
      driver.calls.map DriverCall.toMempool = node.core.txMempool ∧
      driver.step mempool (.mempoolMessage 0) = some registered ∧
      entry ∉ driver.synchronizer.pending ∧ entry ∈ registered.synchronizer.pending ∧
      registered.txMempool = [.cleanup 61] ∧
      registered.step mempool (.mempoolMessage 0) = some collected ∧
      entry ∉ collected.synchronizer.pending ∧ registered.store.read entry.digest = none ∧
      ¬ driver.greatestCleanup + mempool.gcDepth ≤ 61 := by
  have sent : ((Node.machine four.setup (0 : Nat)).execute (Node.boot four.setup (0 : Nat))
      (.batch [7] :: replayed.map fun block => .message (.propose block))).map
        (fun node => node.core.txMempool) = some replayMessages := by
    decide +kernel
  have taken : ((MempoolDriver.machine mempool).execute .new replayCalls).bind (fun driver =>
      (driver.step mempool (.mempoolMessage 0)).bind fun registered =>
        (registered.step mempool (.mempoolMessage 0)).map fun collected =>
          (driver.calls.map DriverCall.toMempool, registered.txMempool,
            [driver.synchronizer.pending.length, collected.synchronizer.pending.length,
              driver.greatestCleanup],
            registered.synchronizer.pending.map fun entry =>
              (registered.store.read entry.digest).isNone)) =
      some (replayMessages, [.cleanup 61], [0, 0, 101], [true]) := by
    decide +kernel
  obtain ⟨node, received, isSent⟩ := Option.map_eq_some_iff.mp sent
  obtain ⟨driver, executed, taken⟩ := Option.bind_eq_some_iff.mp taken
  obtain ⟨registered, registers, taken⟩ := Option.bind_eq_some_iff.mp taken
  obtain ⟨collected, collects, facts⟩ := Option.map_eq_some_iff.mp taken
  simp only [Prod.mk.injEq, List.cons.injEq, and_true] at facts
  obtain ⟨calls, queue, ⟨before, after, greatest⟩, entries⟩ := facts
  obtain ⟨entry, only, absent⟩ := List.map_eq_singleton_iff.mp entries
  refine ⟨node, driver, registered, collected, entry, .execute received, .execute executed,
    calls.trans isSent.symm, registers, ?_, ?_, queue, collects, ?_, ?_, ?_⟩
  · rw [List.length_eq_zero_iff.mp before]
    exact List.not_mem_nil
  · rw [only]
    exact List.mem_cons_self
  · rw [List.length_eq_zero_iff.mp after]
    exact List.not_mem_nil
  · exact Option.isNone_iff_eq_none.mp absent
  · rw [greatest]
    decide

end Plain

end DeflHotstuff
