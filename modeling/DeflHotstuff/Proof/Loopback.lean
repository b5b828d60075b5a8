import DeflHotstuff.Construction.Loopback
import DeflHotstuff.Construction.Plain
import DeflHotstuff.Proof.Suspension
import DeflHotstuff.Proof.Waiting

namespace DeflHotstuff

open Verification

section

variable [Crypto]

namespace PayloadTask

variable {task after accepted later : PayloadTask} {event : PayloadEvent} {wait : PayloadWait}
  {held : List PayloadWait}

/-- Only a completed future sends a block, and everything that it missed has arrived. -/
theorem step_sends (steps : task.step event = some after) :
    after.txLoopback = task.txLoopback ∨ ∃ wait ∈ task.waiter.waiting,
      after.txLoopback = task.txLoopback ++ [wait.block] ∧
        ∀ digest ∈ wait.missing, (task.store.read digest).isSome := by
  cases event with
  | message message =>
      cases steps
      exact .inl rfl
  | write key value =>
      cases steps
      exact .inl rfl
  | completed index =>
      obtain ⟨result, ready, rfl⟩ := Option.map_eq_some_iff.mp steps
      obtain ⟨wait, found, sameBlock, arrived, _⟩ := PayloadWaiter.ready_cases ready
      right
      exact ⟨wait, List.mem_of_getElem? found, by rw [sameBlock], arrived⟩
  | cancelled index =>
      obtain ⟨waiter, _, rfl⟩ := Option.map_eq_some_iff.mp steps
      exact .inl rfl

/-- A future waits for the digests and the block of some wait message. -/
def Asked (taken : List PayloadEvent) (task : PayloadTask) : Prop :=
  ∀ wait ∈ task.waiter.waiting, .message (.wait wait.missing wait.block) ∈ taken

/-- A step adds no future that no message asked for. -/
theorem Asked.step {taken : List PayloadEvent} (asked : task.Asked taken)
    (steps : task.step event = some after) : after.Asked (taken ++ [event]) := by
  intro wait inside
  cases event with
  | message message =>
      cases steps
      rcases PayloadWaiter.handle_waiting inside with old | rfl
      · exact List.mem_append_left _ (asked wait old)
      · simp
  | write key value =>
      cases steps
      exact List.mem_append_left _ (asked wait inside)
  | completed index =>
      obtain ⟨result, ready, rfl⟩ := Option.map_eq_some_iff.mp steps
      exact List.mem_append_left _ (asked wait (PayloadWaiter.ready_subset ready inside))
  | cancelled index =>
      obtain ⟨waiter, cancelled, rfl⟩ := Option.map_eq_some_iff.mp steps
      exact List.mem_append_left _ (asked wait (PayloadWaiter.cancelled_subset cancelled inside))

/-- The future is pending, and the other futures for copies of its block are old ones. -/
structure Awaits (held : List PayloadWait) (wait : PayloadWait) (task : PayloadTask) : Prop where
  pending : (wait.block.digest, wait.block.round, wait.channel) ∈ task.waiter.pending
  waiting : wait ∈ task.waiter.waiting
  copies : ∀ other ∈ task.waiter.waiting, other.block.digest = wait.block.digest →
    other = wait ∨ other ∈ held

/-- A message for a new digest leaves a future that waits. -/
theorem awaits_accepted {missing : List Digest} {block : Block}
    (fresh : block.digest ∉ task.waiter.pending.map Prod.fst)
    (accepts : task.step (.message (.wait missing block)) = some accepted) :
    accepted.Awaits task.waiter.waiting ⟨task.waiter.nextChannel, missing, block⟩ := by
  cases accepts
  constructor
  · simp [PayloadWaiter.handle, fresh]
  · simp [PayloadWaiter.handle, fresh]
  · intro other inside _
    rw [PayloadWaiter.handle, if_neg fresh] at inside
    rcases List.mem_append.mp inside with old | new
    · exact .inr old
    · exact .inl (List.mem_singleton.mp new)

/-- A pending block stays so until a copy of it is sent or a cleanup covers its round. -/
theorem Awaits.step (awaits : task.Awaits held wait) (steps : task.step event = some after) :
    (∃ copy, after.txLoopback = task.txLoopback ++ [copy] ∧ copy.digest = wait.block.digest ∧
      (copy = wait.block ∨ ∃ other ∈ held, other.block = copy)) ∨
    (∃ round, wait.block.round ≤ round ∧ event = .message (.cleanup round)) ∨
    after.Awaits held wait := by
  cases event with
  | message message =>
      cases steps
      cases message with
      | wait missing block =>
          right; right
          simp only [PayloadWaiter.handle]
          split
          · exact awaits
          · rename_i fresh
            constructor
            · exact List.mem_cons_of_mem _ awaits.pending
            · exact List.mem_append_left _ awaits.waiting
            · intro other inside same
              rcases List.mem_append.mp inside with old | new
              · exact awaits.copies other old same
              · cases List.mem_singleton.mp new
                exact absurd (List.mem_map_of_mem awaits.pending) (same ▸ fresh)
      | cleanup round =>
          right
          by_cases covered : wait.block.round ≤ round
          · exact .inl ⟨round, covered, rfl⟩
          · right
            refine ⟨List.mem_filter.mpr ⟨awaits.pending, ?_⟩, awaits.waiting, awaits.copies⟩
            simpa using covered
  | write key value =>
      cases steps
      exact .inr (.inr ⟨awaits.pending, awaits.waiting, awaits.copies⟩)
  | completed index =>
      obtain ⟨result, ready, rfl⟩ := Option.map_eq_some_iff.mp steps
      obtain ⟨other, found, sameBlock, _, waiting, pending, _⟩ := PayloadWaiter.ready_cases ready
      by_cases same : result.1.digest = wait.block.digest
      · left
        refine ⟨result.1, rfl, same, ?_⟩
        rcases awaits.copies other (List.mem_of_getElem? found) (by rw [sameBlock, same])
          with rfl | old
        · exact .inl sameBlock.symm
        · exact .inr ⟨other, old, sameBlock⟩
      · right; right
        constructor
        · show _ ∈ result.2.pending
          rw [pending]
          exact List.mem_filter.mpr ⟨awaits.pending, by simpa using Ne.symm same⟩
        · show _ ∈ result.2.waiting
          rw [waiting]
          apply mem_eraseIdx_of_ne found awaits.waiting
          rintro rfl
          exact same (by rw [sameBlock])
        · intro other inside
          exact awaits.copies other (PayloadWaiter.ready_subset ready inside)
  | cancelled index =>
      obtain ⟨waiter, cancelled, rfl⟩ := Option.map_eq_some_iff.mp steps
      obtain ⟨other, found, gone⟩ := PayloadWaiter.cancelled_unpending cancelled
      obtain ⟨waiting, pending, _⟩ := PayloadWaiter.cancelled_cases cancelled
      right; right
      constructor
      · show _ ∈ waiter.pending
        rw [pending]
        exact awaits.pending
      · show _ ∈ waiter.waiting
        rw [waiting]
        apply mem_eraseIdx_of_ne found awaits.waiting
        rintro rfl
        exact gone (List.mem_map_of_mem awaits.pending)
      · intro copy inside
        exact awaits.copies copy (PayloadWaiter.cancelled_subset cancelled inside)

/-- The channel back to the core only grows. -/
theorem step_prefix (steps : task.step event = some after) :
    task.txLoopback <+: after.txLoopback := by
  rcases step_sends steps with same | ⟨_, _, sent, _⟩
  · rw [same]
  · rw [sent]
    exact List.prefix_append ..

/-- A block is only sent once everything that its wait message misses has arrived. After a wait
message is accepted, its block or an older copy of it is sent, or a cleanup covers its round, or it
is pending with a future that is not cancelled. -/
theorem payload_returned {taken : List PayloadEvent}
    (executed : machine.execute machine.initial taken = some task) :
    (∀ event after, task.step event = some after → after.txLoopback = task.txLoopback ∨
      ∃ missing block, .message (.wait missing block) ∈ taken ∧
        after.txLoopback = task.txLoopback ++ [block] ∧
          ∀ digest ∈ missing, (task.store.read digest).isSome) ∧
    ∀ missing block accepted events later,
      block.digest ∉ task.waiter.pending.map Prod.fst →
      task.step (.message (.wait missing block)) = some accepted →
      machine.execute accepted events = some later →
        (∃ copy ∈ later.txLoopback.drop accepted.txLoopback.length, copy.digest = block.digest ∧
          (copy = block ∨ ∃ other ∈ task.waiter.waiting, other.block = copy)) ∨
        (∃ round, block.round ≤ round ∧ .message (.cleanup round) ∈ events) ∨
        ∃ wait ∈ later.waiter.waiting, wait.block = block ∧ wait.missing = missing ∧
          (block.digest, block.round, wait.channel) ∈ later.waiter.pending := by
  have initially : machine.initial.Asked [] := by simp [Asked, machine, new, PayloadWaiter.new]
  have asked : task.Asked taken :=
    machine.execute_history Asked (fun _ _ _ _ => Asked.step) [] initially executed
  constructor
  · intro event after steps
    rcases step_sends steps with same | ⟨wait, inside, sent, arrived⟩
    · exact .inl same
    · exact .inr ⟨wait.missing, wait.block, asked wait inside, sent, arrived⟩
  · intro missing block accepted events later fresh accepts continued
    rcases machine.execute_unless txLoopback
      (fun copy => copy.digest = block.digest ∧
        (copy = block ∨ ∃ other ∈ task.waiter.waiting, other.block = copy))
      (fun event => ∃ round, block.round ≤ round ∧ event = .message (.cleanup round)) _
      (fun _ _ _ => step_prefix) (fun _ _ _ awaits steps => Awaits.step awaits steps)
      (awaits_accepted fresh accepts) continued
      with sent | ⟨_, inside, round, covers, rfl⟩ | awaits
    · exact .inl sent
    · exact .inr (.inl ⟨round, covers, inside⟩)
    · right; right
      exact ⟨_, awaits.waiting, rfl, rfl, awaits.pending⟩

end PayloadTask

namespace SyncTask

variable {setup : Setup} {name : PublicKey} {task after received later : SyncTask}
  {event : SyncEvent} {held : List Block} {block : Block}

/-- Only a completed future sends a block, and its parent has arrived. -/
theorem step_sends (steps : task.step setup name event = some after) :
    after.txLoopback = task.txLoopback ∨ ∃ block, after.txLoopback = task.txLoopback ++ [block] ∧
      (task.store.read block.parent).isSome := by
  cases event with
  | receive block =>
      obtain ⟨synchronizer, _, rfl⟩ := Option.map_eq_some_iff.mp steps
      exact .inl rfl
  | write key value =>
      cases steps
      exact .inl rfl
  | completed index =>
      obtain ⟨result, ready, rfl⟩ := Option.map_eq_some_iff.mp steps
      obtain ⟨_, arrived, _⟩ := Synchronizer.ready_cases ready
      exact .inr ⟨result.1, rfl, arrived⟩
  | tick old =>
      obtain ⟨synchronizer, _, rfl⟩ := Option.map_eq_some_iff.mp steps
      exact .inl rfl

/-- The waiting blocks are the pending ones, and every missing parent of one has a request. -/
structure Requested (task : SyncTask) : Prop where
  tracked : task.synchronizer.Tracked
  listed : (task.synchronizer.waiting.map Block.digest).Perm task.synchronizer.pending
  requests : ∀ block ∈ task.synchronizer.waiting,
    (task.store.read block.parent).isSome ∨ block.parent ∈ task.synchronizer.requests

/-- A received block asks for its parent. -/
theorem Requested.receive {synchronizer : Synchronizer} (requested : task.Requested)
    (received : task.synchronizer.receive setup name block = some synchronizer) :
    Requested { task with synchronizer := synchronizer } := by
  obtain ⟨keeps, asked⟩ := Synchronizer.receive_requests received
  refine ⟨requested.tracked.receive received, ?_, ?_⟩
  · obtain ⟨_, rfl⟩ | ⟨_, pending, waiting⟩ := Synchronizer.receive_cases received
    · exact requested.listed
    · simp only [pending, waiting, List.map_append, List.map_singleton]
      exact (List.perm_append_singleton _ _).trans (requested.listed.cons _)
  · intro other inside
    obtain ⟨_, rfl⟩ | ⟨fresh, _, waiting⟩ := Synchronizer.receive_cases received
    · exact requested.requests other inside
    · rcases List.mem_append.mp (waiting ▸ inside) with old | new
      · exact (requested.requests other old).imp_right fun known => keeps known
      · rw [List.mem_singleton.mp new]
        exact .inr (asked fresh)

/-- A completed future takes its block and request away together. -/
theorem Requested.completed {synchronizer : Synchronizer} {index : Nat}
    (requested : task.Requested)
    (ready : task.synchronizer.ready task.store index = some (block, synchronizer)) :
    Requested { task with
      synchronizer := synchronizer
      txLoopback := task.txLoopback ++ [block] } := by
  obtain ⟨found, arrived, pending, waiting⟩ := Synchronizer.ready_cases ready
  refine ⟨requested.tracked.ready ready, ?_, ?_⟩
  · have moved : (block.digest :: synchronizer.waiting.map Block.digest).Perm
        task.synchronizer.pending := by
      obtain ⟨inside, same⟩ := List.getElem?_eq_some_iff.mp found
      rw [waiting, ← List.map_cons, ← same]
      exact ((List.getElem_cons_eraseIdx_perm inside).map _).trans requested.listed
    have erased := moved.erase block.digest
    rwa [List.erase_cons_head, ← pending] at erased
  · intro other inside
    have before := Synchronizer.ready_subset ready inside
    -- The request that leaves is for a parent that has arrived, also for the other children.
    by_cases same : other.parent = block.parent
    · exact .inl (same ▸ arrived)
    · apply (requested.requests other before).imp_right
      intro known
      rw [Synchronizer.ready_requests ready]
      exact (List.mem_erase_of_ne same).mpr known

/-- A step keeps a request for every missing parent. -/
theorem Requested.step (requested : task.Requested)
    (steps : task.step setup name event = some after) : after.Requested := by
  cases event with
  | receive block =>
      obtain ⟨synchronizer, received, rfl⟩ := Option.map_eq_some_iff.mp steps
      exact requested.receive received
  | write key value =>
      cases steps
      refine ⟨requested.tracked, requested.listed, ?_⟩
      intro block inside
      apply (requested.requests block inside).imp_left
      exact task.store.read_write_isSome key _ value
  | completed index =>
      obtain ⟨result, ready, rfl⟩ := Option.map_eq_some_iff.mp steps
      exact requested.completed ready
  | tick old =>
      obtain ⟨synchronizer, retried, rfl⟩ := Option.map_eq_some_iff.mp steps
      obtain ⟨pending, waiting⟩ := Synchronizer.retry_cases retried
      obtain ⟨sameRequests, _⟩ := Synchronizer.retry_requests retried
      constructor
      · exact ⟨pending ▸ requested.tracked.distinct, by
          simpa only [pending, waiting] using requested.tracked.waits⟩
      · simpa only [pending, waiting] using requested.listed
      · simpa only [waiting, sameRequests] using requested.requests

/-- A copy of the block is pending, and it is an old one or the block itself. -/
structure Awaits (held : List Block) (block : Block) (task : SyncTask) : Prop where
  pending : block.digest ∈ task.synchronizer.pending
  copies : ∀ copy ∈ task.synchronizer.waiting, copy.digest = block.digest →
    copy = block ∨ copy ∈ held

/-- A pending block stays so until a copy of it is sent. -/
theorem Awaits.step (awaits : task.Awaits held block)
    (steps : task.step setup name event = some after) :
    (∃ copy, after.txLoopback = task.txLoopback ++ [copy] ∧ copy.digest = block.digest ∧
      (copy = block ∨ copy ∈ held)) ∨ after.Awaits held block := by
  cases event with
  | receive other =>
      obtain ⟨synchronizer, receives, rfl⟩ := Option.map_eq_some_iff.mp steps
      right
      obtain ⟨_, rfl⟩ | ⟨fresh, pending, waiting⟩ := Synchronizer.receive_cases receives
      · exact awaits
      · constructor
        · simp [pending, awaits.pending]
        · intro copy inside same
          rcases List.mem_append.mp (waiting ▸ inside) with old | new
          · exact awaits.copies copy old same
          · cases List.mem_singleton.mp new
            exact absurd awaits.pending (same ▸ fresh)
  | write key value =>
      cases steps
      exact .inr ⟨awaits.pending, awaits.copies⟩
  | completed index =>
      obtain ⟨result, ready, rfl⟩ := Option.map_eq_some_iff.mp steps
      obtain ⟨found, _, pending, waiting⟩ := Synchronizer.ready_cases ready
      by_cases same : result.1.digest = block.digest
      · left
        exact ⟨result.1, rfl, same, awaits.copies result.1 (List.mem_of_getElem? found) same⟩
      · right
        constructor
        · show _ ∈ result.2.pending
          rw [pending]
          exact (List.mem_erase_of_ne (Ne.symm same)).mpr awaits.pending
        · intro copy inside
          exact awaits.copies copy (Synchronizer.ready_subset ready inside)
  | tick old =>
      obtain ⟨synchronizer, retried, rfl⟩ := Option.map_eq_some_iff.mp steps
      obtain ⟨pending, waiting⟩ := Synchronizer.retry_cases retried
      right
      exact ⟨by simpa only [pending] using awaits.pending, by
        simpa only [waiting] using awaits.copies⟩

/-- Nothing is taken back from the loopback channel. -/
theorem step_prefix (steps : task.step setup name event = some after) :
    task.txLoopback <+: after.txLoopback := by
  rcases step_sends steps with same | ⟨_, sent, _⟩
  · rw [same]
  · rw [sent]
    exact List.prefix_append ..

end SyncTask

end

namespace Plain

/-- A block with a batch that the node lacks, with or without a TC of the round before. -/
def lacking (tc : Option TC) : Block := Block.new .genesis tc (1 : Nat) 5 [[7]] (sign 1)

/-- The node waits for a block and cleans up its round, and only later looks at the future. -/
def cleanedUp : List PayloadEvent :=
  [.message (.wait [[7]] (lacking (some (expire 4 0)))), .message (.cleanup 5)]

/-- The batch arrives, and the oldest future completes. -/
def batchArrives : List PayloadEvent := [.write ([7] : List Nat) (.batch []), .completed 0]

/-- The one block that is sent has a TC, so it is not the copy without. -/
theorem notMem_of_tc {blocks : List Block} {block : Block}
    (sent : (blocks.map fun block => block.tc.isSome) = [true]) (without : block.tc = none) :
    block ∉ blocks := by
  intro inside
  have listed := List.mem_map_of_mem (f := fun block : Block => block.tc.isSome) inside
  rw [sent, without] at listed
  exact absurd (List.mem_singleton.mp listed) Bool.false_ne_true

/-- After a clean-up the same block is accepted once more and comes back. -/
theorem payload_returned_again : ∃ task accepted later,
    PayloadTask.machine.execute PayloadTask.machine.initial cleanedUp = some task ∧
      task.step (.message (.wait [[7]] (lacking (some (expire 4 0))))) = some accepted ∧
      PayloadTask.machine.execute accepted batchArrives = some later ∧
      ((∃ copy ∈ later.txLoopback.drop accepted.txLoopback.length,
          copy.digest = (lacking (some (expire 4 0))).digest ∧
            (copy = lacking (some (expire 4 0)) ∨
              ∃ other ∈ task.waiter.waiting, other.block = copy)) ∨
        (∃ round, 5 ≤ round ∧ .message (.cleanup round) ∈ batchArrives) ∨
        ∃ wait ∈ later.waiter.waiting, wait.block = lacking (some (expire 4 0)) ∧
          wait.missing = [[7]] ∧ ((lacking (some (expire 4 0))).digest, 5, wait.channel) ∈
            later.waiter.pending) := by
  have taken : ((PayloadTask.machine.execute PayloadTask.machine.initial cleanedUp).bind
      fun task => (task.step (.message (.wait [[7]] (lacking (some (expire 4 0)))))).bind
        fun accepted => (PayloadTask.machine.execute accepted batchArrives).map
          fun _ => task.waiter.pending.map Prod.fst) = some [] := by
    decide +kernel
  obtain ⟨task, cleaned, taken⟩ := Option.bind_eq_some_iff.mp taken
  obtain ⟨accepted, accepts, taken⟩ := Option.bind_eq_some_iff.mp taken
  obtain ⟨later, arrived, empty⟩ := Option.map_eq_some_iff.mp taken
  have fresh : (lacking (some (expire 4 0))).digest ∉ task.waiter.pending.map Prod.fst := by
    rw [empty]
    exact List.not_mem_nil
  exact ⟨task, accepted, later, cleaned, accepts, arrived,
    (PayloadTask.payload_returned cleaned).2 _ _ accepted _ later fresh accepts arrived⟩

/-- A copy without the TC is accepted next, and the old future takes its place. -/
theorem payload_returned_fails : ∃ task accepted later,
    PayloadTask.machine.execute PayloadTask.machine.initial cleanedUp = some task ∧
      (lacking none).digest ∉ task.waiter.pending.map Prod.fst ∧
      task.step (.message (.wait [[7]] (lacking none))) = some accepted ∧
      PayloadTask.machine.execute accepted batchArrives = some later ∧
      lacking none ∉ later.txLoopback ∧
      (∀ round, .message (.cleanup round) ∉ batchArrives) ∧
      (lacking none).digest ∉ later.waiter.pending.map Prod.fst := by
  have taken : ((PayloadTask.machine.execute PayloadTask.machine.initial cleanedUp).bind
      fun task => (task.step (.message (.wait [[7]] (lacking none)))).bind
        fun accepted => (PayloadTask.machine.execute accepted batchArrives).map
          fun later => (task.waiter.pending.map Prod.fst,
            later.txLoopback.map fun block => block.tc.isSome,
            later.waiter.pending.map Prod.fst)) = some ([], [true], []) := by
    decide +kernel
  obtain ⟨task, cleaned, taken⟩ := Option.bind_eq_some_iff.mp taken
  obtain ⟨accepted, accepts, taken⟩ := Option.bind_eq_some_iff.mp taken
  obtain ⟨later, arrived, facts⟩ := Option.map_eq_some_iff.mp taken
  obtain ⟨empty, facts⟩ := Prod.mk.inj facts
  obtain ⟨sent, gone⟩ := Prod.mk.inj facts
  refine ⟨task, accepted, later, cleaned, ?_, accepts, arrived, notMem_of_tc sent rfl, ?_, ?_⟩
  · rw [empty]
    exact List.not_mem_nil
  · simp [batchArrives]
  · rw [gone]
    exact List.not_mem_nil

/-- A block with a parent that the node lacks, with or without a TC of the round before. -/
def orphan (tc : Option TC) : Block :=
  Block.new { QC.genesis with hash := [9], round := 3 } tc (1 : Nat) 5 [] (sign 1)

end Plain

end DeflHotstuff
