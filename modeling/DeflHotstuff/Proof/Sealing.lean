import DeflHotstuff.Construction.Batching
import DeflHotstuff.Construction.Plain

namespace DeflHotstuff

open Verification

/-- The total length of the transactions in bytes. -/
def Batch.totalSize (batch : Batch) : Nat := (batch.map List.length).sum

/-- The size of two batches adds up. -/
theorem Batch.totalSize_append (first second : Batch) :
    Batch.totalSize (first ++ second) = first.totalSize + second.totalSize := by
  simp [totalSize]

/-- A batch without its last transaction is not larger. -/
theorem Batch.totalSize_dropLast (batch : Batch) :
    Batch.totalSize batch.dropLast ≤ batch.totalSize := by
  by_cases empty : batch = []
  · simp [empty]
  · calc
      Batch.totalSize batch.dropLast ≤
          Batch.totalSize (batch.dropLast ++ [batch.getLast empty]) := by
        rw [totalSize_append]
        exact Nat.le_add_right _ _
      _ = batch.totalSize := by rw [List.dropLast_append_getLast empty]

/-- The transaction that arrives with an event, if any. -/
def BatchEvent.arrival : BatchEvent → List Transaction
  | .transaction arrived => [arrived]
  | .timer => []

section

variable [Crypto] {batchSize : Nat} {mempoolAddresses : List (PublicKey × SocketAddr)}

namespace BatchMaker

/-- The batch maker accounts for every transaction that arrived. -/
structure Conserves (batchSize : Nat) (arrivals : List Transaction) (maker : BatchMaker) :
    Prop where
  transactions : maker.sent.flatten ++ maker.currentBatch = arrivals
  size : maker.currentBatchSize = maker.currentBatch.totalSize
  nonempty : [] ∉ maker.sent
  below : 1 ≤ batchSize → maker.currentBatch.totalSize < batchSize
  bounded : 1 ≤ batchSize → ∀ batch ∈ maker.sent, Batch.totalSize batch.dropLast < batchSize

variable {arrivals : List Transaction} {maker : BatchMaker}

/-- Sealing sends the current batch. -/
@[simp]
theorem sent_sealBatch : (maker.sealBatch mempoolAddresses).sent =
    maker.sent ++ [maker.currentBatch] := by
  simp [sent, sealBatch]

/-- Sealing moves the current batch to the sent ones. -/
theorem sealBatch_conserves
    (transactions : maker.sent.flatten ++ maker.currentBatch = arrivals)
    (nonempty : [] ∉ maker.sent)
    (bounded : 1 ≤ batchSize → ∀ batch ∈ maker.sent, Batch.totalSize batch.dropLast < batchSize)
    (filled : maker.currentBatch ≠ [])
    (fits : 1 ≤ batchSize → Batch.totalSize maker.currentBatch.dropLast < batchSize) :
    (maker.sealBatch mempoolAddresses).Conserves batchSize arrivals where
  transactions := by
    rw [sent_sealBatch, ← transactions]
    simp [sealBatch]
  size := rfl
  nonempty := by simp [nonempty, filled.symm]
  below positive := positive
  bounded positive batch inside := by
    rw [sent_sealBatch] at inside
    rcases List.mem_append.mp inside with old | new
    · exact bounded positive batch old
    · rw [List.mem_singleton.mp new]
      exact fits positive

/-- A step keeps every transaction in a batch, the current one included. -/
theorem Conserves.step (conserves : maker.Conserves batchSize arrivals) (event : BatchEvent) :
    (maker.step batchSize mempoolAddresses event).Conserves batchSize
      (arrivals ++ event.arrival) := by
  cases event with
  | transaction transaction =>
      have grown : Batch.totalSize (maker.currentBatch ++ [transaction]) =
          maker.currentBatchSize + transaction.length := by
        rw [Batch.totalSize_append, conserves.size]
        simp [Batch.totalSize]
      have transactions : maker.sent.flatten ++ (maker.currentBatch ++ [transaction]) =
          arrivals ++ [transaction] := by
        rw [← List.append_assoc, conserves.transactions]
      simp only [BatchMaker.step]
      split
      · apply sealBatch_conserves
        · exact transactions
        · exact conserves.nonempty
        · exact conserves.bounded
        · simp
        · simpa using conserves.below
      · rename_i small
        exact {
          transactions := transactions
          size := grown.symm
          nonempty := conserves.nonempty
          below := fun _ => grown.trans_lt (Nat.lt_of_not_le small)
          bounded := conserves.bounded }
  | timer =>
      rw [BatchEvent.arrival, List.append_nil]
      simp only [BatchMaker.step]
      split
      · exact conserves
      · rename_i filled
        apply sealBatch_conserves conserves.transactions conserves.nonempty conserves.bounded filled
        intro positive
        exact Nat.lt_of_le_of_lt (Batch.totalSize_dropLast _) (conserves.below positive)

/-- A run keeps every transaction. -/
theorem run_conserves (events : List BatchEvent) :
    (run batchSize mempoolAddresses events).Conserves batchSize
      (events.flatMap BatchEvent.arrival) := by
  induction events using List.reverseRecOn with
  | nil => exact ⟨rfl, rfl, List.not_mem_nil, id, fun _ _ inside => nomatch inside⟩
  | append_singleton events event ih =>
      rw [run, List.foldl_append, List.flatMap_append, List.flatMap_singleton]
      exact ih.step event

/-- The batches sent so far and the current one hold the transactions in the order of their
arrival, and no batch is empty or was full before its last transaction. -/
theorem sent_transactions (batchSize : Nat) (mempoolAddresses : List (PublicKey × SocketAddr))
    (events : List BatchEvent) :
    (run batchSize mempoolAddresses events).sent.flatten ++
        (run batchSize mempoolAddresses events).currentBatch =
      events.flatMap BatchEvent.arrival ∧
    (run batchSize mempoolAddresses events).currentBatchSize =
      (run batchSize mempoolAddresses events).currentBatch.totalSize ∧
    [] ∉ (run batchSize mempoolAddresses events).sent ∧
    (1 ≤ batchSize → ∀ batch ∈ (run batchSize mempoolAddresses events).sent,
      Batch.totalSize batch.dropLast < batchSize) := by
  obtain ⟨transactions, size, nonempty, _, bounded⟩ :
      (run batchSize mempoolAddresses events).Conserves batchSize
        (events.flatMap BatchEvent.arrival) := run_conserves events
  exact ⟨transactions, size, nonempty, bounded⟩

/-- Every sent batch is broadcast to all addresses, and one handler stands for each of them. -/
def Broadcasts (mempoolAddresses : List (PublicKey × SocketAddr)) (maker : BatchMaker) : Prop :=
  (maker.network = maker.sent.flatMap fun batch =>
    mempoolAddresses.map fun entry => (entry.2, .batch batch)) ∧
    ∀ message ∈ maker.txMessage, message.handlers = mempoolAddresses.map Prod.fst

/-- A sealed batch goes to every address. -/
theorem Broadcasts.sealBatch (broadcasts : maker.Broadcasts mempoolAddresses) :
    (maker.sealBatch mempoolAddresses).Broadcasts mempoolAddresses := by
  constructor
  · rw [sent_sealBatch, List.flatMap_append, ← broadcasts.1]
    simp [BatchMaker.sealBatch]
  · intro message inside
    rcases List.mem_append.mp inside with old | new
    · exact broadcasts.2 message old
    · rw [List.mem_singleton.mp new]

/-- A step broadcasts what it seals. -/
theorem Broadcasts.step (broadcasts : maker.Broadcasts mempoolAddresses) (event : BatchEvent) :
    (maker.step batchSize mempoolAddresses event).Broadcasts mempoolAddresses := by
  cases event with
  | transaction transaction =>
      simp only [BatchMaker.step]
      split
      · apply Broadcasts.sealBatch
        exact broadcasts
      · exact broadcasts
  | timer =>
      simp only [BatchMaker.step]
      split
      · exact broadcasts
      · exact broadcasts.sealBatch

/-- A run broadcasts every sealed batch. -/
theorem run_broadcasts (events : List BatchEvent) :
    (run batchSize mempoolAddresses events).Broadcasts mempoolAddresses := by
  induction events using List.reverseRecOn with
  | nil => exact ⟨rfl, fun _ inside => nomatch inside⟩
  | append_singleton events event ih =>
      rw [run, List.foldl_append]
      exact ih.step event

end BatchMaker

namespace QuorumWaiter

variable {committee : MempoolCommittee} {name : PublicKey} {waiter after : QuorumWaiter}
  {event : QuorumEvent}

/-- The own stake together with the stake of the names. -/
def backing (committee : MempoolCommittee) (name : PublicKey) (acknowledged : List PublicKey) :
    Nat :=
  committee.stake name + (acknowledged.map committee.stake).sum

/-- A finished batch was forwarded if and only if its backing reaches the threshold. -/
def Exact (committee : MempoolCommittee) (name : PublicKey) (waiter : QuorumWaiter) : Prop :=
  ∀ finished ∈ waiter.finished, finished.forwarded = true ↔
    committee.quorumThreshold ≤ backing committee name finished.acknowledged

/-- The completed handlers bring the stake to the threshold only where the acknowledged ones do,
a node without peers has no quorum of its own, and where the sum of the completed handlers wrapped
around below the acknowledged ones, those are no quorum either. -/
def countsAcknowledged (committee : MempoolCommittee) (name : PublicKey) (waiter : QuorumWaiter) :
    QuorumEvent → Bool
  | .complete peer acknowledges => waiter.current.all fun awaited =>
      (awaited.totalStake + committee.stake peer) % 2 ^ 32 < committee.quorumThreshold ∨
        committee.quorumThreshold ≤ backing committee name (awaited.credit peer acknowledges)
  | .exhausted =>
      (others committee name ≠ [] ∨ committee.stake name < committee.quorumThreshold) ∧
        waiter.current.all fun awaited =>
          backing committee name awaited.acknowledged ≤ awaited.totalStake ∨
            backing committee name awaited.acknowledged < committee.quorumThreshold
  | _ => true

/-- The kinds of steps that the quorum waiter takes. -/
inductive Change (committee : MempoolCommittee) (name : PublicKey) (waiter : QuorumWaiter) :
    QuorumEvent → QuorumWaiter → Prop
  | message (batch : Batch) : Change committee name waiter (.message batch) { waiter with
      rxMessage := waiter.rxMessage ++ [⟨batch, others committee name⟩] }
  | receive (message : QuorumWaiterMessage) (rest : List QuorumWaiterMessage)
      (idle : waiter.current = none) (queue : waiter.rxMessage = message :: rest) :
      Change committee name waiter .receive { waiter with
        rxMessage := rest
        current := some ⟨message.batch, message.handlers, committee.stake name, []⟩ }
  | count (awaited : AwaitedBatch) (peer : PublicKey) (acknowledges : Bool)
      (busy : waiter.current = some awaited) (waits : peer ∈ awaited.waitForQuorum)
      (below : (awaited.totalStake + committee.stake peer) % 2 ^ 32 < committee.quorumThreshold) :
      Change committee name waiter (.complete peer acknowledges) { waiter with
        current := some ⟨awaited.batch, awaited.waitForQuorum.erase peer,
          (awaited.totalStake + committee.stake peer) % 2 ^ 32,
          awaited.credit peer acknowledges⟩ }
  | forward (awaited : AwaitedBatch) (peer : PublicKey) (acknowledges : Bool)
      (busy : waiter.current = some awaited)
      (reached : committee.quorumThreshold ≤
        (awaited.totalStake + committee.stake peer) % 2 ^ 32) :
      Change committee name waiter (.complete peer acknowledges) { waiter with
        current := none
        txBatch := waiter.txBatch ++ [awaited.batch]
        finished := waiter.finished ++
          [⟨awaited.batch, awaited.credit peer acknowledges, true⟩] }
  | giveUp (awaited : AwaitedBatch) (busy : waiter.current = some awaited)
      (empty : awaited.waitForQuorum = []) :
      Change committee name waiter .exhausted { waiter with
        current := none
        finished := waiter.finished ++ [⟨awaited.batch, awaited.acknowledged, false⟩] }

/-- A step of the quorum waiter is one of the changes. -/
theorem step_change (steps : waiter.step committee name event = some after) :
    Change committee name waiter event after := by
  cases event with
  | message batch =>
      cases steps
      exact .message batch
  | receive =>
      simp only [step] at steps
      split at steps
      · rename_i message rest idle queue
        cases steps
        exact .receive message rest idle queue
      · cases steps
  | complete peer acknowledges =>
      simp only [step] at steps
      split at steps
      · cases steps
      · rename_i awaited busy
        split at steps
        · rename_i waits
          cases steps
          unfold complete
          dsimp only
          split
          · rename_i reached
            exact .forward awaited peer acknowledges busy reached
          · rename_i below
            exact .count awaited peer acknowledges busy waits (Nat.lt_of_not_le below)
        · cases steps
  | exhausted =>
      simp only [step] at steps
      split at steps
      · cases steps
      · rename_i awaited busy
        split at steps
        · rename_i empty
          cases steps
          exact .giveUp awaited busy empty
        · cases steps

/-- What the quorum waiter counts of the batch that it is busy with. -/
structure Counts (committee : MempoolCommittee) (name : PublicKey) (waiter : QuorumWaiter) :
    Prop where
  queued : ∀ message ∈ waiter.rxMessage, message.handlers = others committee name
  waits : ∀ awaited, waiter.current = some awaited →
    awaited.waitForQuorum ⊆ others committee name
  tested : ∀ awaited, waiter.current = some awaited →
    others committee name ≠ [] ∧ awaited.totalStake < committee.quorumThreshold ∨
      awaited.acknowledged = [] ∧ awaited.totalStake = committee.stake name ∧
        awaited.waitForQuorum = others committee name
  delivered : waiter.txBatch =
    (waiter.finished.filter FinishedBatch.forwarded).map FinishedBatch.batch

/-- A step counts the stake of the handlers that ended. -/
theorem Counts.step (counts : waiter.Counts committee name)
    (steps : waiter.step committee name event = some after) : after.Counts committee name := by
  cases step_change steps with
  | message batch =>
      refine { counts with queued := ?_ }
      intro message inside
      rcases List.mem_append.mp inside with old | new
      · exact counts.queued message old
      · rw [List.mem_singleton.mp new]
  | receive message rest idle queue =>
      have queued := counts.queued
      rw [queue] at queued
      refine ⟨fun other inside => queued other (List.mem_cons_of_mem _ inside), ?_, ?_,
        counts.delivered⟩
      · rintro awaited same
        cases same
        rw [queued message List.mem_cons_self]
        exact List.Subset.refl _
      · rintro awaited same
        cases same
        exact .inr ⟨rfl, rfl, queued message List.mem_cons_self⟩
  | count awaited peer acknowledges busy waits below =>
      have isOther : peer ∈ others committee name := counts.waits awaited busy waits
      refine ⟨counts.queued, ?_, ?_, counts.delivered⟩
      · rintro counted same
        cases same
        exact List.Subset.trans (List.erase_subset ..) (counts.waits awaited busy)
      · rintro counted same
        cases same
        exact .inl ⟨List.ne_nil_of_mem isOther, below⟩
  | forward awaited peer acknowledges busy reached =>
      constructor
      · exact counts.queued
      · simp
      · simp
      · simp [counts.delivered]
  | giveUp awaited busy empty =>
      constructor
      · exact counts.queued
      · simp
      · simp
      · simp [counts.delivered]

/-- A step keeps the waiter exact if and only if it meets the condition. -/
theorem Counts.exact_step (counts : waiter.Counts committee name)
    (steps : waiter.step committee name event = some after) :
    after.Exact committee name ↔ waiter.Exact committee name ∧
      waiter.countsAcknowledged committee name event = true := by
  have finishes (finished : FinishedBatch) :
      (∀ other ∈ waiter.finished ++ [finished], other.forwarded = true ↔
        committee.quorumThreshold ≤ backing committee name other.acknowledged) ↔
      waiter.Exact committee name ∧ (finished.forwarded = true ↔
        committee.quorumThreshold ≤ backing committee name finished.acknowledged) := by
    rw [List.forall_mem_append, List.forall_mem_singleton, Exact]
  cases step_change steps with
  | message batch => simp [Exact, countsAcknowledged]
  | receive message rest idle queue => simp [Exact, countsAcknowledged]
  | count awaited peer acknowledges busy waits below =>
      simp only [Exact, countsAcknowledged, busy, Option.all_some, below, true_or, decide_true,
        and_true]
  | forward awaited peer acknowledges busy reached =>
      rw [Exact, finishes]
      simp only [countsAcknowledged, busy, Option.all_some, Nat.not_lt.mpr reached, false_or,
        decide_eq_true_eq, true_iff]
  | giveUp awaited busy empty =>
      rw [Exact, finishes]
      apply and_congr_right
      intro _
      rcases counts.tested awaited busy with ⟨peers, below⟩ | ⟨none, total, handlers⟩
      · have counted : backing committee name awaited.acknowledged ≤ awaited.totalStake →
            backing committee name awaited.acknowledged < committee.quorumThreshold :=
          fun backed => backed.trans_lt below
        simp [countsAcknowledged, busy, peers, or_iff_right_of_imp counted]
      · rw [empty] at handlers
        simp [countsAcknowledged, busy, none, total, ← handlers, backing]

/-- The batches in the order in which they were sealed, as far as the waiter got with them. -/
def batches (waiter : QuorumWaiter) : List Batch :=
  waiter.finished.map FinishedBatch.batch ++ waiter.current.toList.map AwaitedBatch.batch ++
    waiter.rxMessage.map QuorumWaiterMessage.batch

/-- The batch that arrives with an event, if any. -/
def arrival : QuorumEvent → List Batch
  | .message batch => [batch]
  | _ => []

/-- Batches are taken in the order in which they arrive. -/
theorem batches_step (steps : waiter.step committee name event = some after) :
    after.batches = waiter.batches ++ arrival event := by
  cases step_change steps with
  | message batch => simp [batches, arrival]
  | receive message rest idle queue => simp [batches, arrival, idle, queue]
  | count awaited peer acknowledges busy waits below => simp [batches, arrival, busy]
  | forward awaited peer acknowledges busy reached => simp [batches, arrival, busy]
  | giveUp awaited busy empty => simp [batches, arrival, busy]

/-- The waiter finishes the batches in the order in which they were sealed and forwards them in
that order. Each finished batch was forwarded exactly if its backing reaches the threshold, if and
only if no step counted a handler without an acknowledgement towards it, no batch of a node that is
a quorum alone was given up, and none was given up because the sum of the stakes wrapped around. -/
theorem forwards_quorum {events : List QuorumEvent}
    (executed : (machine committee name).execute (machine committee name).initial events =
      some waiter) :
    events.flatMap arrival = waiter.batches ∧
    waiter.txBatch = (waiter.finished.filter FinishedBatch.forwarded).map FinishedBatch.batch ∧
    (waiter.Exact committee name ↔ (machine committee name).allows
      (countsAcknowledged committee name) (machine committee name).initial events = true) := by
  have initially : (machine committee name).initial.Counts committee name := by
    constructor <;> simp [machine, new]
  have counts : waiter.Counts committee name :=
    (Machine.Reachable.execute executed).invariant (Counts committee name) initially
      fun _ _ _ _ counts steps => counts.step steps
  refine ⟨?_, counts.delivered, ?_⟩
  · rw [Machine.execute_account batches arrival (fun _ _ _ steps => batches_step steps) executed]
    rfl
  · rw [Machine.sound_iff_allows (Counts committee name) (Exact committee name)
      (fun _ _ _ counts steps => counts.step steps)
      (fun _ _ _ counts steps => counts.exact_step steps) initially executed]
    apply and_iff_right
    intro _ inside
    cases inside

end QuorumWaiter

end

namespace Plain

/-- A mempool authority with the given stake. -/
def authority (stake : Nat) : MempoolAuthority := ⟨stake, ⟨"", 0⟩, ⟨"", 1⟩⟩

/-- A committee whose last member has more than half of the stake. -/
def uneven : MempoolCommittee where
  authorities := [((0 : Nat), authority 1), ((1 : Nat), authority 2), ((2 : Nat), authority 4)]
  distinct := by decide
  bounded := by decide

/-- Two batches, of which the first one is acknowledged by the last member. -/
def acknowledgedOnce : List QuorumEvent :=
  [.message [[1]], .message [[2]], .receive, .complete (2 : Nat) true, .receive]

/-- A batch that was acknowledged once by a large stake is forwarded. -/
theorem forwards_quorum_uneven : ∃ waiter,
    (QuorumWaiter.machine uneven (0 : Nat)).execute
        (QuorumWaiter.machine uneven (0 : Nat)).initial acknowledgedOnce = some waiter ∧
      waiter.txBatch = [[[1]]] ∧
      acknowledgedOnce.flatMap QuorumWaiter.arrival = waiter.batches ∧
      waiter.txBatch =
        (waiter.finished.filter FinishedBatch.forwarded).map FinishedBatch.batch ∧
      (waiter.Exact uneven (0 : Nat) ↔ (QuorumWaiter.machine uneven (0 : Nat)).allows
        (QuorumWaiter.countsAcknowledged uneven (0 : Nat))
        (QuorumWaiter.machine uneven (0 : Nat)).initial acknowledgedOnce = true) := by
  have taken : ((QuorumWaiter.machine uneven (0 : Nat)).execute
      (QuorumWaiter.machine uneven (0 : Nat)).initial acknowledgedOnce).map
        (fun waiter => waiter.txBatch) = some [[[1]]] := by
    decide +kernel
  obtain ⟨waiter, executed, forwarded⟩ := Option.map_eq_some_iff.mp taken
  exact ⟨waiter, executed, forwarded, QuorumWaiter.forwards_quorum executed⟩

/-- A committee with one member, which is a quorum alone. -/
def alone : MempoolCommittee where
  authorities := [((0 : Nat), authority 1)]
  distinct := by decide
  bounded := by decide

/-- Two members whose stakes wrap around to zero when they are added. -/
def wrapping : MempoolCommittee where
  authorities := [((0 : Nat), authority (2 ^ 31)), ((1 : Nat), authority (2 ^ 31))]
  distinct := by decide
  bounded := by decide

/-- A batch that was given up in spite of its quorum breaks exactness. -/
theorem given_up {waiter : QuorumWaiter} {committee : MempoolCommittee} {name : Nat}
    {finished : FinishedBatch} (isFinished : waiter.finished = [finished])
    (kept : finished.forwarded = false) (reached : committee.quorumThreshold ≤
      QuorumWaiter.backing committee name finished.acknowledged) :
    ¬ waiter.Exact committee name := by
  intro exact
  have forwarded := (exact finished (by simp [isFinished])).mpr reached
  rw [kept] at forwarded
  exact Bool.false_ne_true forwarded

/-- The only member of a committee gives up a batch although its own stake is a quorum, and where the
stakes overflow a batch that all members hold is given up. -/
theorem alone_forwards_nothing :
    (∃ waiter, (QuorumWaiter.machine alone (0 : Nat)).execute
        (QuorumWaiter.machine alone (0 : Nat)).initial
        [.message [[1]], .receive, .exhausted] = some waiter ∧
      (0 : Nat) ∈ alone.keys ∧ ¬ waiter.Exact alone (0 : Nat)) ∧
    ∃ waiter, (QuorumWaiter.machine wrapping (0 : Nat)).execute
        (QuorumWaiter.machine wrapping (0 : Nat)).initial
        [.message [[1]], .receive, .complete (1 : Nat) true, .exhausted] = some waiter ∧
      (0 : Nat) ∈ wrapping.keys ∧ ¬ waiter.Exact wrapping (0 : Nat) := by
  have atAlone : ((QuorumWaiter.machine alone (0 : Nat)).execute
      (QuorumWaiter.machine alone (0 : Nat)).initial [.message [[1]], .receive, .exhausted]).map
        (fun waiter => waiter.finished.map fun finished =>
          decide (finished.forwarded = false ∧ alone.quorumThreshold ≤
            QuorumWaiter.backing alone (0 : Nat) finished.acknowledged)) = some [true] := by
    decide +kernel
  have atWrapping : ((QuorumWaiter.machine wrapping (0 : Nat)).execute
      (QuorumWaiter.machine wrapping (0 : Nat)).initial
        [.message [[1]], .receive, .complete (1 : Nat) true, .exhausted]).map
        (fun waiter => waiter.finished.map fun finished =>
          decide (finished.forwarded = false ∧ wrapping.quorumThreshold ≤
            QuorumWaiter.backing wrapping (0 : Nat) finished.acknowledged)) = some [true] := by
    decide +kernel
  obtain ⟨waiter, executed, outcome⟩ := Option.map_eq_some_iff.mp atAlone
  obtain ⟨waiter', executed', outcome'⟩ := Option.map_eq_some_iff.mp atWrapping
  obtain ⟨finished, isFinished, facts⟩ := List.map_eq_singleton_iff.mp outcome
  obtain ⟨finished', isFinished', facts'⟩ := List.map_eq_singleton_iff.mp outcome'
  obtain ⟨kept, reached⟩ := of_decide_eq_true facts
  obtain ⟨kept', reached'⟩ := of_decide_eq_true facts'
  exact ⟨⟨waiter, executed, by decide, given_up isFinished kept reached⟩,
    waiter', executed', by decide, given_up isFinished' kept' reached'⟩

end Plain

end DeflHotstuff
