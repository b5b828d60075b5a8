import DeflHotstuff.Proof.Links
import DeflHotstuff.Proof.Sealing
import DeflHotstuff.Proof.Storage

namespace DeflHotstuff

open Verification

/-- A step of the network or the peer neither accepts a message nor closes a handler. -/
structure Link.Quiet (link after : Link) : Prop where
  accepted : after.connection.accepted = link.connection.accepted
  closed : after.connection.closed = link.connection.closed
  answers : link.connection.answers ⊆ after.connection.answers

/-- A link that stays is quiet. -/
theorem Link.Quiet.refl (link : Link) : link.Quiet link := ⟨rfl, rfl, List.Subset.refl _⟩

/-- A step of a connection is quiet unless it accepts a message or closes a handler. -/
theorem Connection.step_quiet {connection after : Connection} {event : ConnectionEvent}
    (wired : connection.Wired) (steps : connection.step event = some after)
    (noSend : ∀ data, event ≠ .send data) (noCancel : ∀ handler, event ≠ .cancel handler) :
    after.accepted = connection.accepted ∧ after.closed = connection.closed ∧
      connection.answers ⊆ after.answers := by
  refine ⟨?_, step_closed steps noCancel, ?_⟩ <;> cases (step_change wired steps).1 with
  | accept data => exact absurd rfl (noSend data)
  | move event after silent queue drops accepted answers =>
      first
        | exact accepted
        | rw [answers]; exact List.Subset.refl _
  | resolve bytes message after queue accepted answers =>
      first
        | exact accepted
        | rw [answers]; exact List.subset_append_left _ _

/-- A connection accepts a message into its channel and does nothing else with it yet. -/
theorem Link.move_send {link after : Link} {data : List UInt8}
    (moves : link.move (.send data) = some after) :
    after.connection.accepted =
        link.connection.accepted ++ [⟨data, link.connection.accepted.length⟩] ∧
      after.connection.closed = link.connection.closed ∧
      after.connection.answers = link.connection.answers := by
  obtain ⟨connection, steps, rfl⟩ := Option.map_eq_some_iff.mp moves
  simp only [Connection.step, Option.ite_none_right_eq_some] at steps
  obtain ⟨_, steps⟩ := steps
  cases steps
  exact ⟨rfl, rfl, rfl⟩

/-- An entry of the longer list is an old one or the last one. -/
theorem place_of_concat {Entry : Type} {entries : List Entry} {last entry : Entry} {index : Nat}
    (found : (entries ++ [last])[index]? = some entry) :
    entries[index]? = some entry ∨ index = entries.length ∧ entry = last := by
  rw [List.getElem?_append] at found
  split at found
  · exact .inl found
  · right
    obtain ⟨inside, same⟩ := List.getElem?_eq_some_iff.mp found
    rw [List.length_singleton] at inside
    refine ⟨by omega, ?_⟩
    rw [← same, List.getElem_singleton]

section

variable [Crypto]

/-- A stored batch stays what it is. -/
def Store.Grows (store after : Store) : Prop :=
  ∀ serialized, store.read (sha512 (.batch serialized)) = some (.batch serialized) →
    after.read (sha512 (.batch serialized)) = some (.batch serialized)

/-- A stored batch keeps what the store holds. -/
theorem Store.grows_batch (collisionFree : CollisionFree) (store : Store) (written : List UInt8) :
    store.Grows (store.write (sha512 (.batch written)) (.batch written)) := by
  intro serialized stored
  rw [Store.read_write]
  split
  · rename_i same
    rw [collisionFree.batch_digest same]
  · exact stored

/-- A stored block keeps the batches of the store. -/
theorem Store.grows_block (collisionFree : CollisionFree) (store : Store) (block : Block) :
    store.Grows (store.write block.digest (.block block)) := by
  intro serialized stored
  rw [Store.read_write]
  split
  · rename_i same
    exact absurd same.symm (collisionFree.block_ne_batch block serialized)
  · exact stored

/-- A step of the batch maker seals a batch at most. -/
theorem BatchMaker.step_seals (batchSize : Nat) (mempoolAddresses : List (PublicKey × SocketAddr))
    (maker : BatchMaker) (event : BatchEvent) :
    (maker.step batchSize mempoolAddresses event).txMessage = maker.txMessage ∨
      ∃ batch, (maker.step batchSize mempoolAddresses event).txMessage =
        maker.txMessage ++ [⟨batch, mempoolAddresses.map Prod.fst⟩] := by
  cases event with
  | transaction transaction =>
      by_cases full : batchSize ≤ maker.currentBatchSize + transaction.length
      · simp [step, full, sealBatch]
      · simp [step, full]
  | timer =>
      by_cases empty : maker.currentBatch = []
      · simp [step, empty]
      · simp [step, empty, sealBatch]

namespace Mempool

variable (system : MempoolSystem) (name : PublicKey)

/-- The batches that were handed to the connection of the peer. -/
def handed (mempool : Mempool) (peer : PublicKey) : List Batch :=
  mempool.waiter.batches ++ match mempool.sealing with
    | some (batch, left) => if peer ∈ left then [] else [batch]
    | none => []

/-- The sealed batches that are on their way to the processor. -/
def pending (mempool : Mempool) : List Batch :=
  mempool.waiter.current.toList.map AwaitedBatch.batch ++
    mempool.waiter.rxMessage.map QuorumWaiterMessage.batch ++
    (mempool.sealing.map Prod.fst).toList

/-- Different peers acknowledged the batch of the number. -/
structure Acked (links : PublicKey → Link) (index : Nat) (acknowledged : List PublicKey) :
    Prop where
  distinct : acknowledged.Nodup
  others : acknowledged ⊆ QuorumWaiter.others system.committee name
  resolved : ∀ peer ∈ acknowledged, index ∈ (links peer).connection.resolved

/-- What a node did with the transactions that it acknowledged. -/
structure Piped (mempool : Mempool) : Prop where
  conserves : ∃ arrivals, mempool.maker.Conserves system.batchSize arrivals ∧
    mempool.accepted = arrivals ++ mempool.rxTransaction
  sealed : mempool.maker.sent =
    mempool.waiter.batches ++ (mempool.sealing.map Prod.fst).toList
  left : ∀ batch left, mempool.sealing = some (batch, left) →
    left <:+ QuorumWaiter.others system.committee name
  counts : mempool.waiter.Counts system.committee name
  sent : ∀ peer ∈ QuorumWaiter.others system.committee name,
    (mempool.links peer).connection.accepted.map InnerMessage.data =
      (mempool.handed peer).map system.serialize
  closed : ∀ peer, ∀ handler ∈ (mempool.links peer).connection.closed,
    handler < mempool.waiter.finished.length
  awaited : ∀ awaited, mempool.waiter.current = some awaited →
    Acked system name mempool.links mempool.waiter.finished.length awaited.acknowledged ∧
    awaited.totalStake =
      QuorumWaiter.backing system.committee name awaited.acknowledged % 2 ^ 32 ∧
    (awaited.acknowledged ++ awaited.waitForQuorum).Perm
      (QuorumWaiter.others system.committee name)
  finished : ∀ index finished, mempool.waiter.finished[index]? = some finished →
    Acked system name mempool.links index finished.acknowledged ∧
    (finished.forwarded = true → system.committee.quorumThreshold ≤
      QuorumWaiter.backing system.committee name finished.acknowledged)
  forwards : name ∈ system.committee.keys → QuorumWaiter.others system.committee name ≠ [] →
    1 ≤ system.committee.totalVotes → system.committee.totalVotes < 2 ^ 32 →
      ∀ finished ∈ mempool.waiter.finished, finished.forwarded = true
  taken : mempool.processed ≤ mempool.waiter.txBatch.length
  stored : ∀ batch ∈ mempool.waiter.txBatch.take mempool.processed,
    mempool.store.read (sha512 (.batch (system.serialize batch))) =
      some (.batch (system.serialize batch))
  announced : ((mempool.waiter.txBatch.take mempool.processed).map fun batch =>
    sha512 (.batch (system.serialize batch))).Sublist mempool.txConsensus

variable {system name} {mempool after : Mempool}

/-- An acknowledged batch stays so while the links keep their answers. -/
theorem Acked.mono {links links' : PublicKey → Link} {index : Nat} {acknowledged : List PublicKey}
    (acked : Acked system name links index acknowledged)
    (answers : ∀ peer, (links peer).connection.answers ⊆ (links' peer).connection.answers) :
    Acked system name links' index acknowledged := by
  refine ⟨acked.distinct, acked.others, fun peer inside => ?_⟩
  exact List.map_subset Answer.handler (answers peer) (acked.resolved peer inside)

/-- The others are all members but the node itself. -/
theorem others_eq (committee : MempoolCommittee) (name : PublicKey) :
    QuorumWaiter.others committee name = committee.keys.erase name := by
  rw [MempoolCommittee.keys, committee.distinct.erase_eq_filter]
  simp [QuorumWaiter.others, MempoolCommittee.broadcastAddresses, List.filter_map,
    Function.comp_def, bne, beq_eq_decide]

/-- No other member is listed twice. -/
theorem others_nodup : (QuorumWaiter.others system.committee name).Nodup := by
  rw [others_eq]
  exact system.committee.distinct.erase name

/-- All members together back a batch with the whole stake. -/
theorem backing_others (listed : name ∈ system.committee.keys) {names : List PublicKey}
    (perm : names.Perm (QuorumWaiter.others system.committee name)) :
    QuorumWaiter.backing system.committee name names = system.committee.totalVotes := by
  have whole : (name :: names).Perm system.committee.keys := by
    refine (perm.cons name).trans ?_
    rw [others_eq]
    exact (List.perm_cons_erase listed).symm
  calc
    QuorumWaiter.backing system.committee name names =
        ((name :: names).map system.committee.stake).sum := by
      simp [QuorumWaiter.backing]
    _ = (system.committee.keys.map system.committee.stake).sum := (whole.map _).sum_eq
    _ = ∑ member ∈ system.committee.keys.toFinset, system.committee.stake member :=
      (List.sum_toFinset _ system.committee.distinct).symm
    _ = system.committee.totalVotes :=
      sum_lookup MempoolAuthority.stake system.committee.authorities system.committee.distinct

/-- What the network, the peers, the clients and the processor of the peers' batches do leaves the
own batches alone. -/
theorem Piped.keep (piped : mempool.Piped system name) (maker : after.maker = mempool.maker)
    (sealing : after.sealing = mempool.sealing) (waiter : after.waiter = mempool.waiter)
    (processed : after.processed = mempool.processed)
    (transactions : ∃ more, after.accepted = mempool.accepted ++ more ∧
      after.rxTransaction = mempool.rxTransaction ++ more)
    (links : ∀ peer, (mempool.links peer).Quiet (after.links peer))
    (grows : mempool.store.Grows after.store)
    (announces : mempool.txConsensus <+: after.txConsensus) : after.Piped system name := by
  have answers (peer : PublicKey) := (links peer).answers
  refine ⟨?_, ?_, ?_, ?_, ?_, ?_, ?_, ?_, ?_, ?_, ?_, ?_⟩
  · obtain ⟨arrivals, conserves, whole⟩ := piped.conserves
    obtain ⟨more, accepted, queue⟩ := transactions
    refine ⟨arrivals, maker ▸ conserves, ?_⟩
    rw [accepted, queue, whole, List.append_assoc]
  · rw [maker, sealing, waiter]
    exact piped.sealed
  · rw [sealing]
    exact piped.left
  · rw [waiter]
    exact piped.counts
  · unfold handed
    rw [sealing, waiter]
    intro peer inside
    rw [(links peer).accepted]
    exact piped.sent peer inside
  · rw [waiter]
    intro peer handler isClosed
    rw [(links peer).closed] at isClosed
    exact piped.closed peer handler isClosed
  · rw [waiter]
    intro awaited busy
    obtain ⟨acked, rest⟩ := piped.awaited awaited busy
    exact ⟨acked.mono answers, rest⟩
  · rw [waiter]
    intro index finished isFinished
    obtain ⟨acked, rest⟩ := piped.finished index finished isFinished
    exact ⟨acked.mono answers, rest⟩
  · rw [waiter]
    exact piped.forwards
  · rw [waiter, processed]
    exact piped.taken
  · rw [waiter, processed]
    intro batch inside
    exact grows _ (piped.stored batch inside)
  · rw [waiter, processed]
    exact piped.announced.trans announces.sublist

/-- At boot no batch is in the pipe. -/
theorem boot_piped : (boot : Mempool).Piped system name where
  conserves := ⟨[], @BatchMaker.run_conserves _ system.batchSize [] [], rfl⟩
  sealed := rfl
  left := nofun
  counts := by constructor <;> simp [boot, QuorumWaiter.new]
  sent _ _ := rfl
  closed := nofun
  awaited := nofun
  finished := nofun
  forwards _ _ _ _ := nofun
  taken := le_rfl
  stored := nofun
  announced := List.nil_sublist _

/-- The batch maker takes a transaction of the queue, or its timer expires. -/
theorem Piped.make (piped : mempool.Piped system name) (idle : mempool.sealing = none)
    (event : BatchEvent) {queue : List Transaction}
    (arrives : mempool.rxTransaction = event.arrival ++ queue) :
    ({ mempool with rxTransaction := queue }.make system name event).Piped system name := by
  obtain ⟨arrivals, conserves, whole⟩ := piped.conserves
  have sealed := piped.sealed
  rw [idle, BatchMaker.sent] at sealed
  have grown : BatchMaker.Conserves system.batchSize (arrivals ++ event.arrival)
      (mempool.maker.step system.batchSize (system.committee.broadcastAddresses name) event) :=
    conserves.step event
  have batches (peer : PublicKey) : mempool.handed peer = mempool.waiter.batches := by
    simp [handed, idle]
  have conserved : ∃ arrivals, BatchMaker.Conserves system.batchSize arrivals
      (mempool.maker.step system.batchSize (system.committee.broadcastAddresses name) event) ∧
        mempool.accepted = arrivals ++ queue := by
    refine ⟨arrivals ++ event.arrival, grown, ?_⟩
    rw [whole, arrives, List.append_assoc]
  rcases BatchMaker.step_seals system.batchSize (system.committee.broadcastAddresses name)
    mempool.maker event with same | ⟨batch, seals⟩
  · refine { piped with conserves := conserved, sealed := ?_, left := ?_, sent := ?_ }
    · unfold BatchMaker.sent Mempool.make
      simp [same, idle, sealed]
    · unfold Mempool.make
      simp [same, idle]
    · unfold handed Mempool.make
      simp only [same, List.drop_length, idle]
      intro peer inside
      rw [piped.sent peer inside, batches, List.append_nil]
  · refine { piped with conserves := conserved, sealed := ?_, left := ?_, sent := ?_ }
    · unfold BatchMaker.sent Mempool.make
      simp [seals, sealed]
    · unfold Mempool.make
      simp [seals, QuorumWaiter.others]
    · unfold handed Mempool.make
      simp only [seals, List.drop_left]
      intro peer inside
      have isOther : peer ∈ (system.committee.broadcastAddresses name).map Prod.fst := inside
      rw [piped.sent peer inside, batches, if_pos isOther, List.append_nil]

/-- The waiter goes on to the next batch. -/
theorem Piped.receive (piped : mempool.Piped system name) {waiter : QuorumWaiter}
    (steps : mempool.waiter.step system.committee name .receive = some waiter) :
    { mempool with waiter := waiter }.Piped system name := by
  have batches : waiter.batches = mempool.waiter.batches := by
    simpa [QuorumWaiter.arrival] using QuorumWaiter.batches_step steps
  have counts := piped.counts.step steps
  cases QuorumWaiter.step_change steps with
  | receive message rest idle queue =>
      have handlers := piped.counts.queued message (queue ▸ List.mem_cons_self)
      refine { piped with sealed := ?_, counts := counts, sent := ?_, awaited := ?_ }
      · exact piped.sealed.trans (by rw [batches])
      · unfold handed
        rw [batches]
        exact piped.sent
      · rintro awaited ⟨⟩
        have own := Nat.mod_eq_of_lt (system.committee.stake_lt name)
        refine ⟨⟨List.nodup_nil, List.nil_subset _, by simp⟩, own.symm, ?_⟩
        rw [List.nil_append, handlers]

/-- A batch without handlers leaves the pipe in order. -/
theorem Piped.exhausted (piped : mempool.Piped system name) {waiter : QuorumWaiter}
    (steps : mempool.waiter.step system.committee name .exhausted = some waiter) :
    { mempool with waiter := waiter }.Piped system name := by
  have batches : waiter.batches = mempool.waiter.batches := by
    simpa [QuorumWaiter.arrival] using QuorumWaiter.batches_step steps
  have counts := piped.counts.step steps
  cases QuorumWaiter.step_change steps with
  | giveUp awaited busy empty =>
      refine { piped with
        sealed := ?_, counts := counts, sent := ?_, closed := ?_, awaited := ?_, finished := ?_,
        forwards := ?_ }
      · exact piped.sealed.trans (by rw [batches])
      · unfold handed
        rw [batches]
        exact piped.sent
      · intro peer handler isClosed
        have before := piped.closed peer handler isClosed
        simp only [List.length_append, List.length_singleton]
        omega
      · simp
      · intro index finished isFinished
        rcases place_of_concat isFinished with old | ⟨rfl, rfl⟩
        · exact piped.finished index finished old
        · exact ⟨(piped.awaited awaited busy).1, by simp⟩
      · intro listed peers positive small
        obtain ⟨_, total, perm⟩ := piped.awaited awaited busy
        rw [empty, List.append_nil] at perm
        rw [backing_others listed perm, Nat.mod_eq_of_lt small] at total
        rcases piped.counts.tested awaited busy with ⟨_, below⟩ | ⟨_, _, handlers⟩
        · unfold MempoolCommittee.quorumThreshold at below
          omega
        · exact absurd (handlers.symm.trans empty) peers

/-- A handler that the waiter counts was resolved by an acknowledgement, and those that it drops
are of a batch that it is done with. -/
theorem Piped.complete (piped : mempool.Piped system name) {peer : PublicKey}
    (completes : mempool.complete system name peer = some after) : after.Piped system name := by
  unfold Mempool.complete at completes
  dsimp only at completes
  split at completes
  · cases completes
  · rename_i awaited busy
    split at completes
    · rename_i resolved
      obtain ⟨waiter, steps, completes⟩ := Option.bind_eq_some_iff.mp completes
      rw [Option.ite_none_right_eq_some] at completes
      obtain ⟨_, completes⟩ := completes
      obtain ⟨acked, total, perm⟩ := piped.awaited awaited busy
      have waits : peer ∈ awaited.waitForQuorum := by
        by_contra absent
        simp [QuorumWaiter.step, busy, absent] at steps
      have split : (awaited.credit peer true ++ awaited.waitForQuorum.erase peer).Perm
          (QuorumWaiter.others system.committee name) := by
        refine List.Perm.trans ?_ perm
        simp only [AwaitedBatch.credit, if_true, List.append_assoc]
        exact (List.perm_cons_erase waits).symm.append_left awaited.acknowledged
      have distinct := split.nodup_iff.mpr others_nodup
      have credited : Acked system name mempool.links mempool.waiter.finished.length
          (awaited.credit peer true) := by
        refine ⟨distinct.of_append_left, fun other inside => ?_, fun other inside => ?_⟩
        · exact split.subset (List.mem_append_left _ inside)
        · simp only [AwaitedBatch.credit, if_true, List.mem_append, List.mem_singleton] at inside
          rcases inside with old | rfl
          · exact acked.resolved other old
          · exact resolved
      have backing : (awaited.totalStake + system.committee.stake peer) % 2 ^ 32 =
          QuorumWaiter.backing system.committee name (awaited.credit peer true) % 2 ^ 32 := by
        rw [total, Nat.mod_add_mod]
        simp [QuorumWaiter.backing, AwaitedBatch.credit, Nat.add_assoc]
      have batches : waiter.batches = mempool.waiter.batches := by
        simpa [QuorumWaiter.arrival] using QuorumWaiter.batches_step steps
      have counts := piped.counts.step steps
      cases QuorumWaiter.step_change steps with
      | count awaited' peer acknowledges busy' waits' below =>
          rw [busy] at busy'
          cases busy'
          cases completes
          refine { piped with sealed := ?_, counts := counts, sent := ?_, closed := ?_,
                              awaited := ?_, finished := ?_ }
          · exact piped.sealed.trans (by rw [batches])
          · unfold handed
            rw [batches]
            simpa [handed] using piped.sent
          · simpa using piped.closed
          · rintro counted ⟨⟩
            simpa using ⟨credited, backing, split⟩
          · simpa using piped.finished
      | forward awaited' peer acknowledges busy' reached =>
          rw [busy] at busy'
          cases busy'
          cases completes
          have answers (other : PublicKey) : (mempool.links other).connection.answers ⊆
              (if other ∈ awaited.waitForQuorum.erase peer then
                (mempool.links other).cancel mempool.waiter.finished.length
              else mempool.links other).connection.answers := by
            split <;> exact List.Subset.refl _
          refine { piped with sealed := ?_, counts := counts, sent := ?_, closed := ?_,
                              awaited := by simp, finished := ?_, forwards := ?_, taken := ?_,
                              stored := ?_, announced := ?_ }
          · exact piped.sealed.trans (by rw [batches])
          · unfold handed
            rw [batches]
            intro other inside
            rw [← handed, ← piped.sent other inside]
            dsimp only
            split <;> rfl
          · intro other handler isClosed
            have older := piped.closed other handler
            simp only [List.length_append, List.length_singleton]
            dsimp only at isClosed
            split at isClosed
            · rcases List.mem_cons.mp isClosed with rfl | old
              · omega
              · have before := older old
                omega
            · have before := older isClosed
              omega
          · intro index finished isFinished
            rcases place_of_concat isFinished with old | ⟨rfl, rfl⟩
            · obtain ⟨before, quorum⟩ := piped.finished index finished old
              exact ⟨before.mono (by simpa using answers), quorum⟩
            · exact ⟨credited.mono (by simpa using answers), fun _ =>
                (backing ▸ reached).trans (Nat.mod_le ..)⟩
          · intro listed peers positive small
            exact List.forall_mem_append.mpr
              ⟨piped.forwards listed peers positive small, List.forall_mem_singleton.mpr rfl⟩
          · have longer := piped.taken
            simp only [List.length_append]
            omega
          · dsimp only
            rw [List.take_append_of_le_length piped.taken]
            exact piped.stored
          · dsimp only
            rw [List.take_append_of_le_length piped.taken]
            exact piped.announced
    · cases completes

/-- A batch goes to the connections one after the other and then to the waiter. -/
theorem Piped.broadcast (piped : mempool.Piped system name)
    (broadcasts : mempool.broadcast system name = some after) : after.Piped system name := by
  unfold Mempool.broadcast at broadcasts
  split at broadcasts
  · cases broadcasts
  · rename_i batch sealing
    rw [Option.ite_none_right_eq_some] at broadcasts
    obtain ⟨_, broadcasts⟩ := broadcasts
    obtain ⟨waiter, steps, rfl⟩ := Option.map_eq_some_iff.mp broadcasts
    have batches : waiter.batches = mempool.waiter.batches ++ [batch] :=
      QuorumWaiter.batches_step steps
    have counts := piped.counts.step steps
    have sealed := piped.sealed
    cases QuorumWaiter.step_change steps with
    | message batch =>
        refine { piped with sealed := ?_, left := by simp, counts := counts, sent := ?_ }
        · rw [sealed, batches, sealing]
          simp
        · intro peer inside
          rw [piped.sent peer inside]
          simp [handed, sealing, batches]
  · rename_i batch peer rest sealing
    obtain ⟨link, moves, rfl⟩ := Option.map_eq_some_iff.mp broadcasts
    obtain ⟨accepted, closed, answers⟩ := Link.move_send moves
    have isSuffix := piped.left _ _ sealing
    have distinct := List.nodup_cons.mp (isSuffix.sublist.nodup others_nodup)
    have kept (other : PublicKey) : (mempool.links other).connection.answers ⊆
        (Function.update mempool.links peer link other).connection.answers := by
      by_cases same : other = peer
      · subst same
        rw [Function.update_self, answers]
        exact List.Subset.refl _
      · rw [Function.update_of_ne same]
        exact List.Subset.refl _
    refine { piped with sealed := ?_, left := ?_, sent := ?_, closed := ?_, awaited := ?_,
                        finished := ?_ }
    · have sealed := piped.sealed
      rw [sealing] at sealed
      exact sealed
    · rintro _ _ ⟨⟩
      exact (List.suffix_cons peer rest).trans isSuffix
    · intro other inside
      have before := piped.sent other inside
      unfold handed at before ⊢
      rw [sealing] at before
      dsimp only [Mempool.relink] at before ⊢
      by_cases same : other = peer
      · subst same
        rw [Function.update_self, accepted, List.map_append, before, if_neg distinct.1,
          if_pos List.mem_cons_self]
        simp
      · rw [Function.update_of_ne same, before]
        simp [same]
    · intro other handler isClosed
      dsimp only [Mempool.relink] at isClosed
      by_cases same : other = peer
      · subst same
        rw [Function.update_self, closed] at isClosed
        exact piped.closed other handler isClosed
      · rw [Function.update_of_ne same] at isClosed
        exact piped.closed other handler isClosed
    · intro awaited busy
      obtain ⟨acked, rest⟩ := piped.awaited awaited busy
      exact ⟨acked.mono kept, rest⟩
    · intro index finished isFinished
      obtain ⟨acked, rest⟩ := piped.finished index finished isFinished
      exact ⟨acked.mono kept, rest⟩

/-- The processor stores the next batch that the waiter forwarded. -/
theorem Piped.process (collisionFree : CollisionFree) (piped : mempool.Piped system name)
    {batch : Batch} (next : mempool.waiter.txBatch[mempool.processed]? = some batch) :
    ({ mempool with processed := mempool.processed + 1 }.storeBatch
      (system.serialize batch)).Piped system name := by
  obtain ⟨inside, isBatch⟩ := List.getElem?_eq_some_iff.mp next
  have isTaken : mempool.waiter.txBatch.take (mempool.processed + 1) =
      mempool.waiter.txBatch.take mempool.processed ++ [batch] := by
    rw [List.take_succ_eq_append_getElem inside, isBatch]
  refine { piped with taken := inside, stored := ?_, announced := ?_ }
  · intro other takes
    change other ∈ mempool.waiter.txBatch.take (mempool.processed + 1) at takes
    rw [isTaken] at takes
    rcases List.mem_append.mp takes with old | new
    · exact Store.grows_batch collisionFree _ _ _ (piped.stored other old)
    · cases List.mem_singleton.mp new
      change (mempool.store.write _ _).read _ = _
      rw [Store.read_write, if_pos rfl]
  · change ((mempool.waiter.txBatch.take (mempool.processed + 1)).map _).Sublist
      (mempool.txConsensus ++ _)
    rw [isTaken, List.map_append]
    exact piped.announced.append_right _

/-- A message of a peer goes to the processor or to the helper and changes nothing else. -/
theorem dispatch_same {serialized : List UInt8}
    (dispatches : mempool.dispatch system serialized = some after) :
    after = { mempool with rxBatch := after.rxBatch, rxRequest := after.rxRequest } ∧
      mempool.rxBatch ⊆ after.rxBatch := by
  unfold dispatch at dispatches
  split at dispatches
  · rw [Option.ite_none_right_eq_some] at dispatches
    obtain ⟨_, dispatches⟩ := dispatches
    cases dispatches
    exact ⟨rfl, List.subset_append_left _ _⟩
  · rw [Option.ite_none_right_eq_some] at dispatches
    obtain ⟨_, dispatches⟩ := dispatches
    cases dispatches
    exact ⟨rfl, List.Subset.refl _⟩
  · cases dispatches
    exact ⟨rfl, List.Subset.refl _⟩

/-- A message of a peer leaves the pipe in order. -/
theorem Piped.dispatch (piped : mempool.Piped system name) {serialized : List UInt8}
    (dispatches : mempool.dispatch system serialized = some after) : after.Piped system name := by
  obtain ⟨same, _⟩ := dispatch_same dispatches
  rw [same]
  exact piped.keep rfl rfl rfl rfl ⟨[], by simp⟩ (fun _ => .refl _) (fun _ => id) List.prefix_rfl

/-- A quiet link leaves the pipe in order. -/
theorem Piped.relink (piped : mempool.Piped system name) {peer : PublicKey} {link : Link}
    (quiet : (mempool.links peer).Quiet link) : (mempool.relink peer link).Piped system name := by
  refine piped.keep rfl rfl rfl rfl ⟨[], by simp [Mempool.relink]⟩ (fun other => ?_) (fun _ => id)
    List.prefix_rfl
  change (mempool.links other).Quiet (Function.update mempool.links peer link other)
  by_cases same : other = peer
  · subst same
    rw [Function.update_self]
    exact quiet
  · rw [Function.update_of_ne same]
    exact .refl _

/-- A turn of the node keeps its account of the transactions. -/
theorem Piped.step (collisionFree : CollisionFree) (piped : mempool.Piped system name)
    (wired : ∀ peer, (mempool.links peer).connection.Wired) {event : MempoolEvent}
    (steps : mempool.step system name event = some after) : after.Piped system name := by
  cases event with
  | client message =>
      dsimp only [Mempool.step] at steps
      split at steps
      · cases steps
        exact piped
      · rename_i transaction received
        rw [Option.ite_none_right_eq_some] at steps
        obtain ⟨_, steps⟩ := steps
        cases steps
        exact piped.keep rfl rfl rfl rfl ⟨[transaction], rfl, rfl⟩ (fun _ => .refl _) (fun _ => id)
          List.prefix_rfl
  | transaction =>
      dsimp only [Mempool.step] at steps
      split at steps
      · rename_i transaction rest idle queue
        cases steps
        exact piped.make idle (.transaction transaction) queue
      · cases steps
  | timer =>
      dsimp only [Mempool.step] at steps
      split at steps
      · rename_i idle
        cases steps
        exact piped.make idle .timer rfl
      · cases steps
  | broadcast => exact piped.broadcast steps
  | receive =>
      obtain ⟨waiter, taken, rfl⟩ := Option.map_eq_some_iff.mp steps
      exact piped.receive taken
  | complete peer => exact piped.complete steps
  | exhausted =>
      obtain ⟨waiter, taken, rfl⟩ := Option.map_eq_some_iff.mp steps
      exact piped.exhausted taken
  | process =>
      obtain ⟨batch, next, rfl⟩ := Option.map_eq_some_iff.mp steps
      exact piped.process collisionFree next
  | processPeer =>
      dsimp only [Mempool.step] at steps
      split at steps
      · cases steps
      · cases steps
        exact piped.keep rfl rfl rfl rfl ⟨[], by simp [storeBatch]⟩ (fun _ => .refl _)
          (Store.grows_batch collisionFree _ _) (List.prefix_append _ _)
  | message serialized => exact piped.dispatch steps
  | block block =>
      cases steps
      exact piped.keep rfl rfl rfl rfl ⟨[], by simp⟩ (fun _ => .refl _)
        (Store.grows_block collisionFree _ _) List.prefix_rfl
  | connection peer event =>
      dsimp only [Mempool.step] at steps
      split at steps
      · cases steps
      · cases steps
      · cases steps
      · rename_i noSend noCancel noAnswer
        obtain ⟨link, moves, rfl⟩ := Option.map_eq_some_iff.mp steps
        obtain ⟨connection, taken, rfl⟩ := Option.map_eq_some_iff.mp moves
        obtain ⟨accepted, closed, answers⟩ :=
          Connection.step_quiet (wired peer) taken noSend noCancel
        exact piped.relink ⟨accepted, closed, answers⟩
  | answer peer => cases steps
  | read peer index => cases steps
  | forward peer index => cases steps

/-- The processor of the peers' batches has the batch in its channel or stored it. -/
def Has (mempool : Mempool) (serialized : List UInt8) : Prop :=
  serialized ∈ mempool.rxBatch ∨
    mempool.store.read (sha512 (.batch serialized)) = some (.batch serialized)

/-- A message of a peer takes away no batch. -/
theorem Has.dispatch {serialized dispatched : List UInt8} (has : mempool.Has serialized)
    (dispatches : mempool.dispatch system dispatched = some after) : after.Has serialized := by
  obtain ⟨same, grows⟩ := dispatch_same dispatches
  rcases has with queued | stored
  · exact .inl (grows queued)
  · right
    rw [same]
    exact stored

/-- A batch that a runner hands on reaches the processor. -/
theorem has_dispatched {serialized : List UInt8} {read : Batch}
    (isBatch : system.formats.decodeMessage serialized = some (.batch read))
    (dispatches : mempool.dispatch system serialized = some after) : after.Has serialized := by
  unfold Mempool.dispatch MempoolReceiverHandler.dispatch at dispatches
  simp only [isBatch, Option.ite_none_right_eq_some] at dispatches
  obtain ⟨_, dispatches⟩ := dispatches
  cases dispatches
  exact .inl (List.mem_append_right _ List.mem_cons_self)

/-- A node never gives up a batch of a peer. -/
theorem Has.step (collisionFree : CollisionFree) {serialized : List UInt8}
    (has : mempool.Has serialized) {event : MempoolEvent}
    (steps : mempool.step system name event = some after) : after.Has serialized := by
  have keep (same : after.rxBatch = mempool.rxBatch)
      (grows : mempool.store.Grows after.store) : after.Has serialized :=
    has.imp (fun queued => same ▸ queued) (grows serialized)
  cases event with
  | client message =>
      dsimp only [Mempool.step] at steps
      split at steps
      · cases steps
        exact has
      · rw [Option.ite_none_right_eq_some] at steps
        obtain ⟨_, steps⟩ := steps
        cases steps
        exact has
  | transaction =>
      dsimp only [Mempool.step] at steps
      split at steps <;> cases steps
      exact has
  | timer =>
      dsimp only [Mempool.step] at steps
      split at steps <;> cases steps
      exact has
  | broadcast =>
      dsimp only [Mempool.step, Mempool.broadcast] at steps
      split at steps
      · cases steps
      · rw [Option.ite_none_right_eq_some] at steps
        obtain ⟨_, steps⟩ := steps
        obtain ⟨waiter, _, rfl⟩ := Option.map_eq_some_iff.mp steps
        exact has
      · obtain ⟨link, _, rfl⟩ := Option.map_eq_some_iff.mp steps
        exact has
  | receive =>
      obtain ⟨waiter, _, rfl⟩ := Option.map_eq_some_iff.mp steps
      exact has
  | complete peer =>
      dsimp only [Mempool.step, Mempool.complete] at steps
      split at steps
      · cases steps
      · rw [Option.ite_none_right_eq_some] at steps
        obtain ⟨waiter, _, steps⟩ := Option.bind_eq_some_iff.mp steps.2
        rw [Option.ite_none_right_eq_some] at steps
        obtain ⟨_, steps⟩ := steps
        cases steps
        exact has
  | exhausted =>
      obtain ⟨waiter, _, rfl⟩ := Option.map_eq_some_iff.mp steps
      exact has
  | process =>
      obtain ⟨batch, _, rfl⟩ := Option.map_eq_some_iff.mp steps
      exact keep rfl (Store.grows_batch collisionFree _ _)
  | processPeer =>
      dsimp only [Mempool.step] at steps
      split at steps
      · cases steps
      · rename_i first rest queue
        cases steps
        rcases has with queued | stored
        · rw [queue] at queued
          rcases List.mem_cons.mp queued with rfl | later
          · right
            change (mempool.store.write _ _).read _ = _
            rw [Store.read_write, if_pos rfl]
          · exact .inl later
        · exact .inr (Store.grows_batch collisionFree _ _ _ stored)
  | message dispatched => exact has.dispatch steps
  | block block =>
      cases steps
      exact keep rfl (Store.grows_block collisionFree _ _)
  | connection peer event =>
      dsimp only [Mempool.step] at steps
      split at steps
      · cases steps
      · cases steps
      · cases steps
      · obtain ⟨link, _, rfl⟩ := Option.map_eq_some_iff.mp steps
        exact has
  | answer peer => cases steps
  | read peer index => cases steps
  | forward peer index => cases steps

end Mempool

end

end DeflHotstuff
