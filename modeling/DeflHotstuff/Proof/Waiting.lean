import DeflHotstuff.Construction.Waiters

namespace DeflHotstuff

/-- Every other element stays when one is taken out at its place. -/
theorem mem_eraseIdx_of_ne {Element : Type} {elements : List Element} {index : Nat}
    {erased other : Element} (found : elements[index]? = some erased) (inside : other ∈ elements)
    (different : other ≠ erased) : other ∈ elements.eraseIdx index := by
  obtain ⟨place, present⟩ := List.mem_iff_getElem?.mp inside
  rw [List.mem_eraseIdx_iff_getElem?]
  refine ⟨place, ?_, present⟩
  rintro rfl
  rw [found] at present
  exact different (Option.some.inj present).symm

variable [Crypto] {setup : Setup} {name : PublicKey}

namespace PayloadWaiter

variable {waiter after : PayloadWaiter} {store : Store} {index : Nat} {block : Block}

/-- A message brings no wait but its own. -/
theorem handle_waiting {message : PayloadWaiterMessage} {wait : PayloadWait}
    (inside : wait ∈ (waiter.handle message).waiting) :
    wait ∈ waiter.waiting ∨ message = .wait wait.missing wait.block := by
  cases message with
  | cleanup round => exact .inl inside
  | wait missing block =>
      simp only [handle] at inside
      split at inside
      · exact .inl inside
      · rcases List.mem_append.mp inside with old | new
        · exact .inl old
        · rw [List.mem_singleton.mp new]
          exact .inr rfl

/-- A released block has everything that it missed and leaves the waiter. -/
theorem ready_cases (ready : waiter.ready store index = some (block, after)) :
    ∃ wait, waiter.waiting[index]? = some wait ∧ wait.block = block ∧
      (∀ digest ∈ wait.missing, (store.read digest).isSome) ∧
        after.waiting = waiter.waiting.eraseIdx index ∧
          after.pending = (waiter.pending.filter fun entry => entry.1 ≠ block.digest) ∧
            after.nextChannel = waiter.nextChannel := by
  obtain ⟨wait, found, ready⟩ := Option.bind_eq_some_iff.mp ready
  split at ready
  · rename_i arrived
    cases ready
    exact ⟨wait, found, rfl, List.all_eq_true.mp arrived, rfl, rfl, rfl⟩
  · cases ready

/-- Only a future whose channel is gone is cancelled. -/
theorem cancelled_unpending (cancelled : waiter.cancelled index = some after) :
    ∃ wait, waiter.waiting[index]? = some wait ∧
      wait.channel ∉ waiter.pending.map fun entry => entry.2.2 := by
  obtain ⟨wait, found, cancelled⟩ := Option.bind_eq_some_iff.mp cancelled
  split at cancelled
  · cases cancelled
  · rename_i gone
    exact ⟨wait, found, gone⟩

/-- A wait that is cancelled leaves the waiter. -/
theorem cancelled_cases (cancelled : waiter.cancelled index = some after) :
    after.waiting = waiter.waiting.eraseIdx index ∧ after.pending = waiter.pending ∧
      after.nextChannel = waiter.nextChannel := by
  obtain ⟨wait, _, cancelled⟩ := Option.bind_eq_some_iff.mp cancelled
  split at cancelled
  · cases cancelled
  · cases cancelled
    exact ⟨rfl, rfl, rfl⟩

/-- A completed future leaves the others as they are. -/
theorem ready_subset (ready : waiter.ready store index = some (block, after)) :
    after.waiting ⊆ waiter.waiting := by
  obtain ⟨_, _, _, _, waiting, _⟩ := ready_cases ready
  rw [waiting]
  exact List.eraseIdx_subset

/-- A cancelled future leaves fewer. -/
theorem cancelled_subset (cancelled : waiter.cancelled index = some after) :
    after.waiting ⊆ waiter.waiting := by
  obtain ⟨waiting, _⟩ := cancelled_cases cancelled
  rw [waiting]
  exact List.eraseIdx_subset

end PayloadWaiter

namespace Synchronizer

variable {synchronizer after : Synchronizer} {store : Store} {index : Nat} {block : Block}

/-- A suspended block joins the waiting ones unless a copy of it waits. -/
theorem receive_cases (received : synchronizer.receive setup name block = some after) :
    block.digest ∈ synchronizer.pending ∧ after = synchronizer ∨
      block.digest ∉ synchronizer.pending ∧
        after.pending = block.digest :: synchronizer.pending ∧
          after.waiting = synchronizer.waiting ++ [block] := by
  unfold receive at received
  split at received
  · rename_i pending
    cases received
    exact .inl ⟨pending, rfl⟩
  · rename_i fresh
    right
    dsimp only at received
    split at received
    · cases received
      exact ⟨fresh, rfl, rfl⟩
    · obtain ⟨address, _, rfl⟩ := Option.map_eq_some_iff.mp received
      exact ⟨fresh, rfl, rfl⟩

/-- What waits after a suspension waited before, or it is the suspended block. -/
theorem receive_waiting (received : synchronizer.receive setup name block = some after)
    {other : Block} (inside : other ∈ after.waiting) :
    other ∈ synchronizer.waiting ∨ other = block := by
  obtain ⟨_, rfl⟩ | ⟨_, _, waiting⟩ := receive_cases received
  · exact .inl inside
  · simpa [waiting] using inside

/-- What waits before a suspension still waits. -/
theorem receive_keeps (received : synchronizer.receive setup name block = some after)
    {other : Block} (waits : other ∈ synchronizer.waiting) : other ∈ after.waiting := by
  obtain ⟨_, rfl⟩ | ⟨_, _, waiting⟩ := receive_cases received
  · exact waits
  · simp [waiting, waits]

/-- A released block had its parent in the store and leaves the waiting ones. -/
theorem ready_cases (ready : synchronizer.ready store index = some (block, after)) :
    synchronizer.waiting[index]? = some block ∧ (store.read block.parent).isSome ∧
      after.pending = synchronizer.pending.erase block.digest ∧
        after.waiting = synchronizer.waiting.eraseIdx index := by
  obtain ⟨found, present, ready⟩ := Option.bind_eq_some_iff.mp ready
  split at ready
  · rename_i arrived
    cases ready
    exact ⟨present, arrived, rfl, rfl⟩
  · cases ready

/-- A completed future leaves fewer. -/
theorem ready_subset (ready : synchronizer.ready store index = some (block, after)) :
    after.waiting ⊆ synchronizer.waiting := by
  obtain ⟨_, _, _, waiting⟩ := ready_cases ready
  rw [waiting]
  exact List.eraseIdx_subset

/-- Every waiting block but the released one still waits. -/
theorem ready_keeps (ready : synchronizer.ready store index = some (block, after))
    {other : Block} (waits : other ∈ synchronizer.waiting) :
    other = block ∨ other ∈ after.waiting := by
  obtain ⟨present, _, _, waiting⟩ := ready_cases ready
  by_cases same : other = block
  · exact .inl same
  · right
    rw [waiting]
    exact mem_eraseIdx_of_ne present waits same

/-- A retry changes the requests alone. -/
theorem retry_cases {old : List Digest}
    (retried : synchronizer.retry setup name old = some after) :
    after.pending = synchronizer.pending ∧ after.waiting = synchronizer.waiting := by
  unfold retry at retried
  split at retried
  · cases retried
    exact ⟨rfl, rfl⟩
  · cases retried

/-- A suspension keeps the requests and has one for the parent of a new block. -/
theorem receive_requests (received : synchronizer.receive setup name block = some after) :
    synchronizer.requests ⊆ after.requests ∧
      (block.digest ∉ synchronizer.pending → block.parent ∈ after.requests) := by
  unfold receive at received
  split at received
  · rename_i pending
    cases received
    exact ⟨List.Subset.refl _, fun fresh => absurd pending fresh⟩
  · dsimp only at received
    split at received
    · rename_i known
      cases received
      exact ⟨List.Subset.refl _, fun _ => known⟩
    · obtain ⟨address, _, rfl⟩ := Option.map_eq_some_iff.mp received
      exact ⟨List.subset_cons_self _ _, fun _ => List.mem_cons_self⟩

/-- A completed future takes its request away. -/
theorem ready_requests (ready : synchronizer.ready store index = some (block, after)) :
    after.requests = synchronizer.requests.erase block.parent := by
  obtain ⟨found, _, ready⟩ := Option.bind_eq_some_iff.mp ready
  split at ready
  · cases ready
    rfl
  · cases ready

/-- The timer keeps the requests and asks all others for the old ones. -/
theorem retry_requests {old : List Digest}
    (retried : synchronizer.retry setup name old = some after) :
    after.requests = synchronizer.requests ∧
      ∀ digest ∈ old, ∀ entry ∈ setup.committee.broadcastAddresses name,
        (entry.2, .syncRequest digest name) ∈ after.network := by
  unfold retry at retried
  split at retried
  · cases retried
    refine ⟨rfl, fun digest asked entry inside => List.mem_append_right _ ?_⟩
    exact List.mem_flatMap.mpr ⟨digest, asked, List.mem_map_of_mem inside⟩
  · cases retried

end Synchronizer

end DeflHotstuff
