import DeflHotstuff.Construction.Node
import DeflHotstuff.Proof.Waiting

namespace DeflHotstuff

open Verification

variable [Crypto] {setup : Setup} {name : PublicKey}

namespace Node

/-- Running the core touches neither the other tasks nor their queues. -/
theorem runCore_same (node : Node) (task : CoreTask Unit) :
    (node.runCore task).proposer = node.proposer ∧
      (node.runCore task).payloadWaiter = node.payloadWaiter ∧
      (node.runCore task).synchronizer = node.synchronizer ∧
      (node.runCore task).rxLoopback = node.rxLoopback ∧
      (node.runCore task).rxMempool = node.rxMempool := by
  unfold runCore
  rcases task node.core with ⟨result, core⟩
  cases result <;> exact ⟨rfl, rfl, rfl, rfl, rfl⟩

/-- A handler that returns changes the core alone. -/
theorem runCore_ok (node : Node) {task : CoreTask Unit} {after : Core}
    (returns : task node.core = (.ok (), after)) : node.runCore task = { node with core := after } := by
  unfold runCore
  rw [returns]

/-- The core after a handler is the one that it leaves, whatever its exit. -/
theorem runCore_core (node : Node) (task : CoreTask Unit) :
    (node.runCore task).core = (task node.core).2 := by
  unfold runCore
  rcases task node.core with ⟨outcome, core⟩
  cases outcome <;> rfl

/-- The core still runs only after a task that came back. -/
theorem runCore_returns {node : Node} {task : CoreTask Unit}
    (running : (node.runCore task).halted = false) : (task node.core).1.Returns := by
  unfold runCore at running
  rcases ran : task node.core with ⟨outcome, core⟩
  rw [ran] at running
  cases outcome with
  | ok value => exact .inl ⟨value, rfl⟩
  | error failure => exact .inr ⟨failure, rfl⟩
  | panic message => cases running
  | diverge => cases running

@[simp] theorem runCore_proposer (node : Node) (task : CoreTask Unit) :
    (node.runCore task).proposer = node.proposer := (runCore_same node task).1

@[simp] theorem runCore_payloadWaiter (node : Node) (task : CoreTask Unit) :
    (node.runCore task).payloadWaiter = node.payloadWaiter := (runCore_same node task).2.1

@[simp] theorem runCore_synchronizer (node : Node) (task : CoreTask Unit) :
    (node.runCore task).synchronizer = node.synchronizer := (runCore_same node task).2.2.1

@[simp] theorem runCore_rxLoopback (node : Node) (task : CoreTask Unit) :
    (node.runCore task).rxLoopback = node.rxLoopback := (runCore_same node task).2.2.2.1

@[simp] theorem runCore_rxMempool (node : Node) (task : CoreTask Unit) :
    (node.runCore task).rxMempool = node.rxMempool := (runCore_same node task).2.2.2.2

variable [Rounds]

/-- Every turn of a node with the conditions under which it is taken. -/
inductive Turn (setup : Setup) (name : PublicKey) (node : Node) : Event → Node → Prop
  | message (message : ConsensusMessage) (running : node.halted = false)
      (forCore : message.forCore = true) :
      Turn setup name node (.message message)
        ({ node with core := node.core.record (.received message) }.runCore
          (Core.handleMessage setup name message))
  | loopback (block : Block) (rest : List Block) (running : node.halted = false)
      (next : node.rxLoopback = block :: rest) :
      Turn setup name node .loopback
        ({ node with core := node.core.record (.resumed block), rxLoopback := rest }.runCore
          (Core.processBlock setup name block))
  | timer (running : node.halted = false) :
      Turn setup name node .timer (node.runCore (Core.localTimeoutRound setup name))
  | digest (index : Nat) (digest : Digest) (next : node.rxMempool[index]? = some digest) :
      Turn setup name node (.digest index) { node with
        core := node.core.record (.announced digest)
        proposer := { node.proposer with buffer := node.proposer.buffer.insert digest }
        rxMempool := node.rxMempool.eraseIdx index }
  | clean (drained : List Digest) (sent : Nat) (digests : List Digest) (rest : List Stamped)
      (next : node.core.txProposer = ⟨sent, .cleanup digests⟩ :: rest) :
      Turn setup name node (.proposer drained) { node with
        core := { node.core with txProposer := rest }.record (.cleaned digests)
        proposer := { node.proposer with
          buffer := node.proposer.buffer.filter fun digest => digest ∉ digests } }
  | skip (drained : List Digest) (sent round : Nat) (qc : QC) (rest : List Stamped)
      (late : 5 < round) (empty : node.proposer.buffer = [])
      (next : node.core.txProposer = ⟨sent, .make round qc none⟩ :: rest) :
      Turn setup name node (.proposer drained)
        { node with core := { node.core with txProposer := rest } }
  | build (drained : List Digest) (sent round : Nat) (qc : QC) (tc : Option TC)
      (rest : List Stamped) (drains : drained.Perm node.proposer.buffer)
      (full : tc = none → 5 < round → drained ≠ [])
      (next : node.core.txProposer = ⟨sent, .make round qc tc⟩ :: rest) :
      Turn setup name node (.proposer drained) { node with
        core := { node.core with txProposer := rest }.record
          (.built sent qc tc (Block.new qc tc name round drained (setup.sign name)))
        proposer := {
          buffer := []
          network := node.proposer.network ++
            (setup.committee.broadcastAddresses name).map fun entry =>
              (entry.2, .propose (Block.new qc tc name round drained (setup.sign name))) }
        rxLoopback := node.rxLoopback ++
          [Block.new qc tc name round drained (setup.sign name)] }
  | payloadMessage (message : PayloadWaiterMessage) (rest : List PayloadWaiterMessage)
      (next : node.core.txPayloadWaiter = message :: rest) :
      Turn setup name node .payloadMessage { node with
        core := { node.core with txPayloadWaiter := rest }
        payloadWaiter := node.payloadWaiter.handle message }
  | payloadReady (index : Nat) (block : Block) (waiter : PayloadWaiter)
      (ready : node.payloadWaiter.ready node.core.store index = some (block, waiter)) :
      Turn setup name node (.payloadReady index)
        { node with payloadWaiter := waiter, rxLoopback := node.rxLoopback ++ [block] }
  | payloadCancelled (index : Nat) (waiter : PayloadWaiter)
      (cancelled : node.payloadWaiter.cancelled index = some waiter) :
      Turn setup name node (.payloadCancelled index) { node with payloadWaiter := waiter }
  | parentMissing (block : Block) (rest : List Block) (synchronizer : Synchronizer)
      (next : node.core.innerChannel = block :: rest)
      (received : node.synchronizer.receive setup name block = some synchronizer) :
      Turn setup name node .parentMissing { node with
        core := { node.core with innerChannel := rest }
        synchronizer := synchronizer }
  | parentReady (index : Nat) (block : Block) (synchronizer : Synchronizer)
      (ready : node.synchronizer.ready node.core.store index = some (block, synchronizer)) :
      Turn setup name node (.parentReady index)
        { node with synchronizer := synchronizer, rxLoopback := node.rxLoopback ++ [block] }
  | retry (old : List Digest) (synchronizer : Synchronizer)
      (retried : node.synchronizer.retry setup name old = some synchronizer) :
      Turn setup name node (.retry old) { node with synchronizer := synchronizer }
  | batch (bytes : List UInt8) :
      Turn setup name node (.batch bytes) { node with
        core := { node.core with
          store := node.core.store.write (sha512 (.batch bytes)) (.batch bytes) }
        rxMempool := node.rxMempool ++ [sha512 (.batch bytes)] }

/-- A step of the proposer is a turn. -/
theorem runProposer_turn {node after : Node} {drained : List Digest}
    (runs : runProposer setup name node drained = some after) :
    Turn setup name node (.proposer drained) after := by
  unfold runProposer at runs
  split at runs
  · cases runs
  · rename_i sent round qc tc rest next
    unfold makeBlock at runs
    split at runs
    · rename_i skipped
      obtain ⟨late, empty, rfl⟩ := skipped
      cases runs
      exact .skip drained sent round qc rest late empty next
    · rename_i notSkipped
      split at runs
      · rename_i drains
        cases runs
        have isPerm := List.isPerm_iff.mp drains
        refine .build drained sent round qc tc rest isPerm ?_ next
        rintro none late rfl
        exact notSkipped ⟨late, List.nil_perm.mp isPerm, none⟩
      · cases runs
  · rename_i sent digests rest next
    cases runs
    exact .clean drained sent digests rest next

/-- Every step of a node is a turn. -/
theorem step_turn {node after : Node} {event : Event}
    (steps : node.step setup name event = some after) : Turn setup name node event after := by
  cases event with
  | message message =>
      simp only [step] at steps
      split at steps
      · rename_i enabled
        cases steps
        exact .message message enabled.1 enabled.2
      · cases steps
  | loopback =>
      simp only [step] at steps
      split at steps
      · cases steps
      · rename_i block rest next
        split at steps
        · rename_i running
          cases steps
          exact .loopback block rest running next
        · cases steps
  | timer =>
      simp only [step] at steps
      split at steps
      · rename_i running
        cases steps
        exact .timer running
      · cases steps
  | digest index =>
      simp only [step] at steps
      split at steps
      · cases steps
      · rename_i digest next
        cases steps
        exact .digest index digest next
  | proposer drained => exact runProposer_turn steps
  | payloadMessage =>
      simp only [step] at steps
      split at steps
      · cases steps
      · rename_i message rest next
        cases steps
        exact .payloadMessage message rest next
  | payloadReady index =>
      obtain ⟨⟨block, waiter⟩, ready, rfl⟩ := Option.map_eq_some_iff.mp steps
      exact .payloadReady index block waiter ready
  | payloadCancelled index =>
      obtain ⟨waiter, cancelled, rfl⟩ := Option.map_eq_some_iff.mp steps
      exact .payloadCancelled index waiter cancelled
  | parentMissing =>
      simp only [step] at steps
      split at steps
      · cases steps
      · rename_i block rest next
        obtain ⟨synchronizer, received, rfl⟩ := Option.map_eq_some_iff.mp steps
        exact .parentMissing block rest synchronizer next received
  | parentReady index =>
      obtain ⟨⟨block, synchronizer⟩, ready, rfl⟩ := Option.map_eq_some_iff.mp steps
      exact .parentReady index block synchronizer ready
  | retry old =>
      obtain ⟨synchronizer, retried, rfl⟩ := Option.map_eq_some_iff.mp steps
      exact .retry old synchronizer retried
  | batch bytes =>
      cases steps
      exact .batch bytes

variable {node after : Node} {event : Event}

/-- A payload wait is old or comes from the queue of the core. -/
theorem Turn.waiting (turn : Turn setup name node event after) {wait : PayloadWait}
    (inside : wait ∈ after.payloadWaiter.waiting) : wait ∈ node.payloadWaiter.waiting ∨
      .wait wait.missing wait.block ∈ node.core.txPayloadWaiter := by
  cases turn with
  | message message => exact .inl (by simpa using inside)
  | loopback block rest => exact .inl (by simpa using inside)
  | timer => exact .inl (by simpa using inside)
  | payloadMessage message rest next =>
      apply (PayloadWaiter.handle_waiting inside).imp_right
      rintro rfl
      rw [next]
      exact List.mem_cons_self ..
  | payloadReady index block waiter ready =>
      obtain ⟨_, _, _, _, waiting, _⟩ := PayloadWaiter.ready_cases ready
      rw [waiting] at inside
      exact .inl (List.mem_of_mem_eraseIdx inside)
  | payloadCancelled index waiter cancelled =>
      rw [(PayloadWaiter.cancelled_cases cancelled).1] at inside
      exact .inl (List.mem_of_mem_eraseIdx inside)
  | _ => exact .inl inside

/-- A block that waits for its parent is old or comes from the queue of the core. -/
theorem Turn.suspended (turn : Turn setup name node event after) {block : Block}
    (inside : block ∈ after.synchronizer.waiting) :
    block ∈ node.synchronizer.waiting ∨ block ∈ node.core.innerChannel := by
  cases turn with
  | message message => exact .inl (by simpa using inside)
  | loopback block rest => exact .inl (by simpa using inside)
  | timer => exact .inl (by simpa using inside)
  | parentMissing suspended rest synchronizer next received =>
      apply (Synchronizer.receive_waiting received inside).imp_right
      rintro rfl
      rw [next]
      exact List.mem_cons_self ..
  | parentReady index released synchronizer ready =>
      obtain ⟨_, _, _, waiting⟩ := Synchronizer.ready_cases ready
      rw [waiting] at inside
      exact .inl (List.mem_of_mem_eraseIdx inside)
  | retry old synchronizer retried =>
      rw [(Synchronizer.retry_cases retried).2] at inside
      exact .inl inside
  | _ => exact .inl inside

/-- A block in the loopback is old, comes from one of the waiters or was built here. -/
theorem Turn.looped (turn : Turn setup name node event after) {block : Block}
    (inside : block ∈ after.rxLoopback) :
    block ∈ node.rxLoopback ∨
      (∃ wait ∈ node.payloadWaiter.waiting, wait.block = block ∧
        ∀ digest ∈ wait.missing, (node.core.store.read digest).isSome) ∨
      block ∈ node.synchronizer.waiting ∨
      ((∃ sent qc tc, .built sent qc tc block ∈ after.core.history) ∧
        ∀ digest ∈ block.payload, digest ∈ node.proposer.buffer) := by
  cases turn with
  | message message => exact .inl (by simpa using inside)
  | loopback resumed rest running next =>
      left
      rw [runCore_rxLoopback] at inside
      rw [next]
      exact List.mem_cons_of_mem _ inside
  | timer => exact .inl (by simpa using inside)
  | build drained sent round qc tc rest drains full next =>
      rcases List.mem_append.mp inside with old | new
      · exact .inl old
      · cases List.mem_singleton.mp new
        refine .inr (.inr (.inr ⟨⟨sent, qc, tc, ?_⟩, fun digest => drains.mem_iff.mp⟩))
        exact List.mem_append_right _ (List.mem_singleton.mpr rfl)
  | payloadReady index released waiter ready =>
      obtain ⟨wait, found, isBlock, arrived, _⟩ := PayloadWaiter.ready_cases ready
      rcases List.mem_append.mp inside with old | new
      · exact .inl old
      · cases List.mem_singleton.mp new
        exact .inr (.inl ⟨wait, List.mem_of_getElem? found, isBlock, arrived⟩)
  | parentReady index released synchronizer ready =>
      obtain ⟨present, _⟩ := Synchronizer.ready_cases ready
      rcases List.mem_append.mp inside with old | new
      · exact .inl old
      · cases List.mem_singleton.mp new
        exact .inr (.inr (.inl (List.mem_of_getElem? present)))
  | _ => exact .inl inside

/-- A digest on its way to the proposer is old, or its batch was stored in this turn. -/
theorem Turn.announced (turn : Turn setup name node event after) {digest : Digest}
    (inside : digest ∈ after.rxMempool) :
    digest ∈ node.rxMempool ∨ (after.core.store.read digest).isSome := by
  cases turn with
  | message message => exact .inl (by simpa using inside)
  | loopback block rest => exact .inl (by simpa using inside)
  | timer => exact .inl (by simpa using inside)
  | digest index announced next => exact .inl (List.mem_of_mem_eraseIdx inside)
  | batch bytes =>
      rcases List.mem_append.mp inside with old | new
      · exact .inl old
      · cases List.mem_singleton.mp new
        right
        rw [Store.read_write, if_pos rfl]
        rfl
  | _ => exact .inl inside

/-- A digest in the buffer is old or was on its way. -/
theorem Turn.buffered (turn : Turn setup name node event after) {digest : Digest}
    (inside : digest ∈ after.proposer.buffer) :
    digest ∈ node.proposer.buffer ∨ digest ∈ node.rxMempool := by
  cases turn with
  | message message => exact .inl (by simpa using inside)
  | loopback block rest => exact .inl (by simpa using inside)
  | timer => exact .inl (by simpa using inside)
  | digest index announced next =>
      rcases List.mem_insert_iff.mp inside with rfl | old
      · exact .inr (List.mem_of_getElem? next)
      · exact .inl old
  | clean drained sent digests rest next => exact .inl (List.mem_filter.mp inside).1
  | build drained => cases inside
  | _ => exact .inl inside

end Node

end DeflHotstuff
