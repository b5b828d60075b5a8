import DeflHotstuff.Construction.Plain
import DeflHotstuff.Library.Worklist
import DeflHotstuff.Proof.Parents

namespace DeflHotstuff

open Verification

section

variable [Crypto] {setup : Setup} {name : PublicKey}

/-- A block is stored under the digest, or a batch that decodes as one. -/
def Store.HoldsBlock (setup : Setup) (store : Store) (digest : Digest) : Prop :=
  ∃ block, (store.read digest).bind setup.decode = some block

/-- A block is stored under the digest. -/
def Core.StoresBlock (core : Core) (digest : Digest) : Prop :=
  ∃ block, core.store.read digest = some (.block block)

/-- A write adds the digest of a value that is or decodes as a block. -/
theorem Store.holdsBlock_write (store : Store) (value : Value) {block : Block}
    (decoded : setup.decode value = some block) (digest : Digest) :
    (store.write value.digest value).HoldsBlock setup digest ↔
      digest = value.digest ∨ store.HoldsBlock setup digest := by
  unfold HoldsBlock
  rw [Store.read_write]
  split
  · rename_i isKey
    exact ⟨fun _ => .inl isKey, fun _ => ⟨block, decoded⟩⟩
  · rename_i other
    exact ⟨.inr, fun holds => holds.resolve_left other⟩

/-- A batch that does not decode as a block adds nothing. -/
theorem Store.Linked.holdsBlock_undecoded {store : Store} (linked : store.Linked setup)
    (collisionFree : CollisionFree) {bytes : List UInt8}
    (undecoded : setup.decodeBatch bytes = none) (digest : Digest) :
    (store.write (sha512 (.batch bytes)) (.batch bytes)).HoldsBlock setup digest ↔
      store.HoldsBlock setup digest := by
  unfold HoldsBlock
  rw [Store.read_write]
  split
  · rename_i isKey
    constructor
    · rintro ⟨block, decoded⟩
      exact absurd (undecoded.symm.trans decoded) (Option.some_ne_none block).symm
    · rintro ⟨block, decoded⟩
      obtain ⟨value, present, decoded⟩ := Option.bind_eq_some_iff.mp decoded
      have same := (linked.keys _ _ present).trans isKey
      cases value with
      | block stored => exact absurd same (collisionFree.block_ne_batch stored bytes)
      | batch other =>
          have sameBytes : other = bytes := collisionFree.batch_digest same
          exact absurd (undecoded.symm.trans (sameBytes ▸ decoded)) (Option.some_ne_none block).symm
  · exact Iff.rfl

/-- The digests of blocks do not meet those of batches. -/
theorem Store.Linked.storesBlock_of {core core' : Core} (linked : core.store.Linked setup)
    (linked' : core'.store.Linked setup) (collisionFree : CollisionFree)
    (holds : ∀ digest, core.store.HoldsBlock setup digest → core'.store.HoldsBlock setup digest)
    {digest : Digest} (stores : core.StoresBlock digest) : core'.StoresBlock digest := by
  obtain ⟨block, present⟩ := stores
  obtain ⟨other, found⟩ := holds digest ⟨block, by rw [present]; rfl⟩
  obtain ⟨value, present', _⟩ := Option.bind_eq_some_iff.mp found
  have same : block.digest = value.digest :=
    (linked.keys _ _ present).trans (linked'.keys _ _ present').symm
  cases value with
  | block copy => exact ⟨copy, present'⟩
  | batch bytes => exact absurd same (collisionFree.block_ne_batch block bytes)

/-- A block stays ready while the store keeps its keys. -/
theorem Core.Ready.mono {core after : Core} {block : Block} (ready : core.Ready setup block)
    (kept : ∀ key, (core.store.read key).isSome → (after.store.read key).isSome) :
    after.Ready setup block :=
  ⟨ready.leader, ready.verified, fun digest inside => kept digest (ready.payload digest inside)⟩

/-- The block is with the synchronizer or on its way to it or back to the core. -/
def Node.Suspended (node : Node) (block : Block) : Prop :=
  block ∈ node.core.innerChannel ∨ block ∈ node.synchronizer.waiting ∨ block ∈ node.rxLoopback

/-- The digests of blocks in the store, the last committed round and the suspended blocks. -/
def Node.progress (setup : Setup) (node : Node) : Worklist.Progress Value Digest where
  finished := { digest | node.core.store.HoldsBlock setup digest }
  bound := node.core.lastCommittedRound
  waiting := { value | ∃ block, value = .block block ∧ node.Suspended block }

/-- What the event brings to the node: a block that is proposed or a batch. -/
def Event.arrival : Event → Option Value
  | .message (.propose block) => some (.block block)
  | .batch bytes => some (.batch bytes)
  | _ => none

/-- Only a proposal brings a block. -/
theorem Event.arrival_block {event : Event} {block : Block} :
    event.arrival = some (.block block) ↔ event = .message (.propose block) := by
  constructor
  · intro brings
    unfold Event.arrival at brings
    split at brings
    · cases brings
      rfl
    · cases brings
    · cases brings
  · rintro rfl
    rfl

/-- Only the event of a batch brings it. -/
theorem Event.arrival_batch {event : Event} {bytes : List UInt8} :
    event.arrival = some (.batch bytes) ↔ event = .batch bytes := by
  constructor
  · intro brings
    unfold Event.arrival at brings
    split at brings
    · cases brings
    · cases brings
      rfl
    · cases brings
  · rintro rfl
    rfl

/-- The event proposes one of the blocks, or it hands the core no block but those that come back
from the synchronizer. -/
def Event.catchesUp (blocks : List Block) : Event → Prop
  | .message (.propose block) => block ∈ blocks
  | .proposer _ => False
  | .payloadReady _ => False
  | _ => True

/-- The core runs, and the synchronizer has nothing to resume. -/
structure Node.AtRest (node : Node) : Prop where
  running : node.halted = false
  loopback : node.rxLoopback = []
  inner : node.core.innerChannel = []
  waiting : ∀ block ∈ node.synchronizer.waiting, node.core.store.read block.parent = none

/-- Between the two states the core takes up the block, which waited or is new, and nothing else
happens to the suspended blocks. -/
structure Node.TakesUp (node after : Node) (start : Core) (block : Block)
    (taken : Option Value) : Prop where
  ledger : node.core.SameLedger start
  synchronizer : after.synchronizer = node.synchronizer
  within : ∀ other ∈ after.rxLoopback, other ∈ node.rxLoopback
  kept : ∀ other ∈ node.rxLoopback, other = block ∨ other ∈ after.rxLoopback
  offered : node.Suspended block ∨ taken = some (.block block)
  only : ∀ value, taken = some value → value = .block block

namespace Node.TakesUp

variable {node after : Node} {start : Core} {block : Block} {taken : Option Value}

/-- The block is among the waiting items or taken. -/
theorem given (takesUp : node.TakesUp after start block taken) :
    .block block ∈ (node.progress setup).waiting ∨ taken = some (.block block) :=
  takesUp.offered.imp_left fun suspended => ⟨block, rfl, suspended⟩

/-- Every other suspended block stays. -/
theorem stays (takesUp : node.TakesUp after start block taken)
    (inner : ∀ other ∈ start.innerChannel, other ∈ after.core.innerChannel) {other : Block}
    (suspended : node.Suspended other) : other = block ∨ after.Suspended other := by
  rcases suspended with queued | waits | returns
  · exact .inr (.inl (inner other (takesUp.ledger.innerChannel.symm ▸ queued)))
  · exact .inr (.inr (.inl (takesUp.synchronizer.symm ▸ waits)))
  · exact (takesUp.kept other returns).imp_right fun stays => .inr (.inr stays)

/-- No block is suspended but those before and the block itself. -/
theorem suspended (takesUp : node.TakesUp after start block taken)
    (inner : ∀ other ∈ after.core.innerChannel, other ∈ start.innerChannel ∨ other = block)
    {other : Block} (suspended : after.Suspended other) : node.Suspended other ∨ other = block := by
  rcases suspended with queued | waits | returns
  · exact (inner other queued).imp_left fun old => .inl (takesUp.ledger.innerChannel ▸ old)
  · exact .inl (.inr (.inl (takesUp.synchronizer ▸ waits)))
  · exact .inl (.inr (.inr (takesUp.within other returns)))

/-- A proposal takes up its block, and the synchronizer has no part in it. -/
theorem proposal (task : CoreTask Unit)
    (ledger : (node.core.record (.received (.propose block))).SameLedger start) :
    node.TakesUp (runCore { node with core := node.core.record (.received (.propose block)) } task)
      start block (some (.block block)) where
  ledger := IsTrans.trans _ _ _ (Core.record_books ..).ledger ledger
  synchronizer := by simp
  within := by simp
  kept := fun other inside => .inr (by simpa using inside)
  offered := .inr rfl
  only := fun value taken => (Option.some.inj taken).symm

/-- The loopback takes up its first block. -/
theorem resumed {rest : List Block} (task : CoreTask Unit)
    (next : node.rxLoopback = block :: rest) :
    node.TakesUp (runCore { node with
      core := node.core.record (.resumed block)
      rxLoopback := rest } task) (node.core.record (.resumed block)) block none where
  ledger := (Core.record_books ..).ledger
  synchronizer := by simp
  within := fun other inside => next ▸ List.mem_cons_of_mem _ (by simpa using inside)
  kept := fun other inside => (List.mem_cons.mp (next ▸ inside)).imp_right (by simp)
  offered := .inl (.inr (.inr (next ▸ List.mem_cons_self)))
  only := fun value taken => by cases taken

end Node.TakesUp

variable [Rounds]

/-- From here the node handles each of the blocks at least once, among other turns that bring no
other block, until nothing can be resumed. -/
structure Node.CatchesUp (setup : Setup) (name : PublicKey) (node : Node) (blocks : List Block)
    (events : List Event) (after : Node) : Prop where
  executed : (machine setup name).execute node events = some after
  only : ∀ event ∈ events, event.catchesUp blocks
  all : ∀ block ∈ blocks, .message (.propose block) ∈ events
  rest : after.AtRest

/-- The blocks arrive and no others, and so do the batches of the events. -/
theorem Node.CatchesUp.arrives {node after : Node} {blocks : List Block} {events : List Event}
    (catchesUp : node.CatchesUp setup name blocks events after) (value : Value) :
    value ∈ events.filterMap Event.arrival ↔ match value with
      | .block block => block ∈ blocks
      | .batch bytes => .batch bytes ∈ events := by
  rw [List.mem_filterMap]
  cases value with
  | block block =>
      constructor
      · rintro ⟨event, inside, brings⟩
        cases Event.arrival_block.mp brings
        exact catchesUp.only _ inside
      · exact fun inside => ⟨_, catchesUp.all block inside, rfl⟩
  | batch bytes =>
      constructor
      · rintro ⟨event, inside, brings⟩
        cases Event.arrival_batch.mp brings
        exact inside
      · exact fun inside => ⟨_, inside, rfl⟩

/-- Blocks wait for the block that their QC certifies, and batches for nothing. A stored block makes
the core commit its grandparent when its parent is in the next round. -/
def blockWorklist (collisionFree : CollisionFree) (setup : Setup) : Worklist Value Digest where
  key := Value.digest
  needs
    | .block block => if block.qc == QC.genesis then none else some block.parent
    | .batch _ => none
  weighs digest weight := ∃ b0 b1 block : Block, block.digest = digest ∧ setup.Links block b1 ∧
    setup.Links b1 b0 ∧ Rounds.next b0.round = b1.round ∧ b0.round = weight
  lost
    | .block block => setup.Lost block
    | .batch bytes => setup.decodeBatch bytes = none
  same_needs value copy viable viable' same := by
    cases value with
    | batch bytes =>
        cases copy with
        | batch other => rfl
        | block block => exact absurd same.symm (collisionFree.block_ne_batch block bytes)
    | block block =>
        cases copy with
        | batch bytes => exact absurd same (collisionFree.block_ne_batch block bytes)
        | block copy =>
            have sameParent : block.parent = copy.parent := (collisionFree.block_digest same).2.2.2
            change (if block.qc == QC.genesis then none else some block.parent) =
              if copy.qc == QC.genesis then none else some copy.parent
            cases embedded : (block.qc == QC.genesis) with
            | true =>
                have isZero : copy.parent = default :=
                  sameParent.symm.trans (QC.beq_iff.mp embedded).1
                have embedded' : (copy.qc == QC.genesis) = true := by
                  by_contra apart
                  exact viable' ⟨Bool.eq_false_of_not_eq_true apart, .inl isZero⟩
                rw [embedded']
                rfl
            | false =>
                have embedded' : (copy.qc == QC.genesis) = false := by
                  by_contra embedded'
                  exact viable ⟨embedded, .inl (sameParent.trans
                    (QC.beq_iff.mp (Bool.eq_true_of_not_eq_false embedded')).1)⟩
                rw [embedded', sameParent]

/-- The weight of a block is the round of its grandparent, when its parent is in the next round. -/
theorem blockWorklist_weighs (collisionFree : CollisionFree) {b0 b1 block : Block}
    (isParent : setup.Links block b1) (isGrandparent : setup.Links b1 b0) (weight : Nat) :
    (blockWorklist collisionFree setup).weighs block.digest weight ↔
      Rounds.next b0.round = b1.round ∧ b0.round = weight := by
  constructor
  · rintro ⟨b0', b1', block', same, isParent', isGrandparent', consecutive, isWeight⟩
    have same1 := isParent'.same collisionFree same isParent
    have same0 := isGrandparent'.same collisionFree same1 isGrandparent
    rw [(collisionFree.block_digest same0).2.1] at consecutive isWeight
    rw [(collisionFree.block_digest same1).2.1] at consecutive
    exact ⟨consecutive, isWeight⟩
  · rintro ⟨consecutive, isWeight⟩
    exact ⟨b0, b1, block, rfl, isParent, isGrandparent, consecutive, isWeight⟩

/-- A batch weighs nothing. -/
theorem blockWorklist_weightless (collisionFree : CollisionFree) (bytes : List UInt8)
    (weight : Nat) :
    ¬ (blockWorklist collisionFree setup).weighs (sha512 (.batch bytes)) weight := by
  rintro ⟨_, _, block, same, _⟩
  exact collisionFree.block_ne_batch block bytes same

namespace Node.TakesUp

variable {node after : Node} {start : Core} {block : Block} {taken : Option Value}

/-- A block that is not stored changes neither the finished keys nor the bound. -/
theorem keeps (takesUp : node.TakesUp after start block taken) (collisionFree : CollisionFree)
    (store : after.core.store = start.store)
    (committed : after.core.lastCommittedRound = start.lastCommittedRound)
    (queued : ∀ other ∈ after.core.innerChannel, other ∈ start.innerChannel ∨ other = block)
    (inner : ∀ other ∈ start.innerChannel, other ∈ after.core.innerChannel)
    (stays : setup.Lost block ∨ after.Suspended block) :
    (blockWorklist collisionFree setup).Step taken (node.progress setup)
      (after.progress setup) := by
  have waits {other : Block} (suspended : after.Suspended other)
      (viable : ¬ setup.Lost other) :
      (blockWorklist collisionFree setup).Queued (after.progress setup).waiting other.digest :=
    ⟨.block other, ⟨other, rfl, suspended⟩, viable, rfl⟩
  have joins (viable : ¬ setup.Lost block) :
      (blockWorklist collisionFree setup).Queued (after.progress setup).waiting block.digest :=
    waits (stays.resolve_left viable) viable
  apply Worklist.Step.keep
  · apply Set.ext
    intro digest
    change after.core.store.HoldsBlock setup digest ↔ node.core.store.HoldsBlock setup digest
    rw [store, takesUp.ledger.store]
  · exact committed.trans takesUp.ledger.lastCommittedRound
  · rintro value ⟨other, rfl, suspended⟩
    rcases takesUp.suspended queued suspended with old | rfl
    · exact .inl ⟨other, rfl, old⟩
    · exact takesUp.given
  · rintro value (⟨other, rfl, suspended⟩ | isTaken) viable
    · rcases takesUp.stays inner suspended with rfl | stays
      · exact joins viable
      · exact waits stays viable
    · cases takesUp.only value isTaken
      exact joins viable

/-- A block with its parent is stored and raises the bound to its weight, and the rest stays. -/
theorem finishes (takesUp : node.TakesUp after start block taken) (collisionFree : CollisionFree)
    (linked : start.store.Linked setup) {b0 b1 : Block}
    (parent : setup.parentOf start.store block = some b1)
    (grandparent : setup.parentOf start.store b1 = some b0)
    (store : after.core.store = start.store.write block.digest (.block block))
    (inner : after.core.innerChannel = start.innerChannel)
    (committed : after.core.lastCommittedRound = if Rounds.next b0.round = b1.round
      then max start.lastCommittedRound b0.round else start.lastCommittedRound) :
    (blockWorklist collisionFree setup).Step taken (node.progress setup)
      (after.progress setup) := by
  have weighs (weight : Nat) := blockWorklist_weighs collisionFree (linked.links parent)
    (linked.links grandparent) weight
  rw [takesUp.ledger.lastCommittedRound] at committed
  refine .finish (.block block) takesUp.given (linked.viable collisionFree parent) ?_ ?_ ?_ ?_ ?_
    ?_ ?_
  · intro key needed
    change (if block.qc == QC.genesis then none else some block.parent) = some key at needed
    unfold Setup.parentOf at parent
    split at needed
    · cases needed
    · rename_i other
      cases needed
      rw [if_neg other, takesUp.ledger.store] at parent
      exact ⟨b1, parent⟩
  · apply Set.ext
    intro digest
    change after.core.store.HoldsBlock setup digest ↔
      digest = block.digest ∨ node.core.store.HoldsBlock setup digest
    rw [store, takesUp.ledger.store]
    exact node.core.store.holdsBlock_write (.block block) rfl digest
  · change node.core.lastCommittedRound ≤ after.core.lastCommittedRound
    rw [committed]
    split <;> simp
  · intro weight isWeight
    obtain ⟨consecutive, rfl⟩ := (weighs weight).mp isWeight
    change b0.round ≤ after.core.lastCommittedRound
    rw [committed, if_pos consecutive]
    exact le_max_right ..
  · change after.core.lastCommittedRound = node.core.lastCommittedRound ∨
      (blockWorklist collisionFree setup).weighs block.digest after.core.lastCommittedRound
    rw [committed]
    split
    · rename_i consecutive
      apply (max_choice _ _).imp_right
      intro isRound
      rw [isRound]
      exact (weighs b0.round).mpr ⟨consecutive, rfl⟩
    · exact .inl rfl
  · rintro value ⟨other, rfl, queued | waits | returns⟩
    · exact ⟨other, rfl, .inl (takesUp.ledger.innerChannel ▸ inner ▸ queued)⟩
    · exact ⟨other, rfl, .inr (.inl (takesUp.synchronizer ▸ waits))⟩
    · exact ⟨other, rfl, .inr (.inr (takesUp.within other returns))⟩
  · rintro value (⟨other, rfl, suspended⟩ | isTaken) viable
    · rcases takesUp.stays (fun other queued => inner.symm ▸ queued) suspended with rfl | stays
      · exact .inl rfl
      · exact .inr ⟨.block other, ⟨other, rfl, stays⟩, viable, rfl⟩
    · cases takesUp.only value isTaken
      exact .inl rfl

/-- A block that goes through `process_block` is kept, finished or dropped in the work list. -/
theorem step (takesUp : node.TakesUp after start block taken) (collisionFree : CollisionFree)
    (linked : start.store.Linked setup) (outcome : start.Outcome setup after.core block) :
    (blockWorklist collisionFree setup).Step taken (node.progress setup)
      (after.progress setup) := by
  cases outcome with
  | suspended store inner committed =>
      refine takesUp.keeps collisionFree store committed ?_ ?_ (.inr (.inl ?_))
      · intro other queued
        simpa [inner] using queued
      · intro other queued
        simp [inner, queued]
      · simp [inner]
  | stored b0 b1 parent grandparent store inner committed =>
      exact takesUp.finishes collisionFree linked parent grandparent store inner committed
  | lost lost same =>
      refine takesUp.keeps collisionFree same.store same.lastCommittedRound ?_ ?_ (.inl lost)
      · exact fun other queued => .inl (same.innerChannel ▸ queued)
      · exact fun other queued => same.innerChannel.symm ▸ queued

end Node.TakesUp

/-- A block on its way to the synchronizer reaches it, or a copy of it waits there already. -/
theorem Node.Tended.suspends_step {node : Node} (tended : node.Tended)
    (collisionFree : CollisionFree) {block : Block} {rest : List Block}
    {synchronizer : Synchronizer} (next : node.core.innerChannel = block :: rest)
    (received : node.synchronizer.receive setup name block = some synchronizer) :
    (blockWorklist collisionFree setup).Step none (node.progress setup)
      (Node.progress setup { node with
        core := { node.core with innerChannel := rest }
        synchronizer := synchronizer }) := by
  have arrives : ∃ copy ∈ synchronizer.waiting, copy.digest = block.digest := by
    obtain ⟨pending, rfl⟩ | ⟨_, _, waiting⟩ := Synchronizer.receive_cases received
    · exact tended.synchronizer.waits _ pending
    · exact ⟨block, by simp [waiting], rfl⟩
  have alike {copy : Block} (same : copy.digest = block.digest) (viable : ¬ setup.Lost block) :
      ¬ setup.Lost copy := by
    rintro ⟨_, lost⟩
    have sameParent : copy.parent = block.parent := (collisionFree.block_digest same).2.2.2
    exact viable ⟨tended.inner block (next ▸ List.mem_cons_self ..), sameParent ▸ lost⟩
  refine .keep rfl rfl ?_ ?_
  · rintro value ⟨other, rfl, queued | here | returns⟩
    · exact .inl ⟨other, rfl, .inl (next ▸ List.mem_cons_of_mem _ queued)⟩
    · rcases Synchronizer.receive_waiting received here with old | rfl
      · exact .inl ⟨other, rfl, .inr (.inl old)⟩
      · exact .inl ⟨other, rfl, .inl (next ▸ List.mem_cons_self ..)⟩
    · exact .inl ⟨other, rfl, .inr (.inr returns)⟩
  · rintro value (⟨other, rfl, queued | here | returns⟩ | isTaken) viable
    · rw [next] at queued
      rcases List.mem_cons.mp queued with rfl | later
      · obtain ⟨copy, arrived, same⟩ := arrives
        exact ⟨.block copy, ⟨copy, rfl, .inr (.inl arrived)⟩, alike same viable, same⟩
      · exact ⟨.block other, ⟨other, rfl, .inl later⟩, viable, rfl⟩
    · exact ⟨.block other, ⟨other, rfl, .inr (.inl (Synchronizer.receive_keeps received here))⟩,
        viable, rfl⟩
    · exact ⟨.block other, ⟨other, rfl, .inr (.inr returns)⟩, viable, rfl⟩
    · cases isTaken

/-- A block that the synchronizer releases goes back to the core. -/
theorem Node.resumes_step {node : Node} (collisionFree : CollisionFree) {index : Nat}
    {block : Block} {synchronizer : Synchronizer}
    (released : node.synchronizer.ready node.core.store index = some (block, synchronizer)) :
    (blockWorklist collisionFree setup).Step none (node.progress setup)
      (Node.progress setup { node with
        synchronizer := synchronizer, rxLoopback := node.rxLoopback ++ [block] }) := by
  obtain ⟨present, _, _, waiting⟩ := Synchronizer.ready_cases released
  refine .keep rfl rfl ?_ ?_
  · rintro value ⟨other, rfl, queued | waits | returns⟩
    · exact .inl ⟨other, rfl, .inl queued⟩
    · rw [waiting] at waits
      exact .inl ⟨other, rfl, .inr (.inl (List.mem_of_mem_eraseIdx waits))⟩
    · rcases List.mem_append.mp returns with old | new
      · exact .inl ⟨other, rfl, .inr (.inr old)⟩
      · cases List.mem_singleton.mp new
        exact .inl ⟨block, rfl, .inr (.inl (List.mem_of_getElem? present))⟩
  · rintro value (⟨other, rfl, queued | waits | returns⟩ | isTaken) viable
    · exact ⟨.block other, ⟨other, rfl, .inl queued⟩, viable, rfl⟩
    · rcases Synchronizer.ready_keeps released waits with rfl | stays
      · exact ⟨.block _, ⟨_, rfl, .inr (.inr (by simp))⟩, viable, rfl⟩
      · exact ⟨.block other, ⟨other, rfl, .inr (.inl stays)⟩, viable, rfl⟩
    · exact ⟨.block other, ⟨other, rfl, .inr (.inr (List.mem_append_left _ returns))⟩, viable, rfl⟩
    · cases isTaken

/-- A turn that changes neither the stored blocks nor the suspended ones nor the last committed
round takes up no block. A batch that does not decode as a block may arrive in it. -/
theorem Node.idle_step {node after : Node} (collisionFree : CollisionFree) {taken : Option Value}
    (dropped : ∀ value, taken = some value → (blockWorklist collisionFree setup).lost value)
    (holds : ∀ digest, after.core.store.HoldsBlock setup digest ↔
      node.core.store.HoldsBlock setup digest)
    (committed : after.core.lastCommittedRound = node.core.lastCommittedRound)
    (same : ∀ block, after.Suspended block ↔ node.Suspended block) :
    (blockWorklist collisionFree setup).Step taken (node.progress setup)
      (after.progress setup) := by
  refine .keep (Set.ext holds) committed ?_ ?_
  · rintro value ⟨block, rfl, suspended⟩
    exact .inl ⟨block, rfl, (same block).mp suspended⟩
  · rintro value (⟨block, rfl, suspended⟩ | isTaken) viable
    · exact ⟨.block block, ⟨block, rfl, (same block).mpr suspended⟩, viable, rfl⟩
    · exact absurd (dropped value isTaken) viable

/-- A handler that leaves the ledger alone takes up no block. -/
theorem Node.ledger_step {node start : Node} {task : CoreTask Unit} (collisionFree : CollisionFree)
    (same : node.core.SameLedger start.core) (synchronizer : start.synchronizer = node.synchronizer)
    (loopback : start.rxLoopback = node.rxLoopback) (frames : task.Frames Core.SameLedger) :
    (blockWorklist collisionFree setup).Step none (node.progress setup)
      ((start.runCore task).progress setup) := by
  have whole : node.core.SameLedger (start.runCore task).core := by
    rw [runCore_core]
    exact IsTrans.trans _ _ _ same (frames start.core)
  apply idle_step
  · exact fun _ taken => by cases taken
  · intro digest
    rw [whole.store]
  · exact whole.lastCommittedRound
  · intro block
    unfold Suspended
    rw [whole.innerChannel, runCore_synchronizer, runCore_rxLoopback, synchronizer, loopback]

/-- A batch that decodes as a block is finished when it is stored. -/
theorem Node.batch_step {node after : Node} (collisionFree : CollisionFree)
    (linked : node.core.store.Linked setup) (bytes : List UInt8)
    (store : after.core.store = node.core.store.write (sha512 (.batch bytes)) (.batch bytes))
    (committed : after.core.lastCommittedRound = node.core.lastCommittedRound)
    (same : ∀ block, after.Suspended block ↔ node.Suspended block) :
    (blockWorklist collisionFree setup).Step (some (.batch bytes)) (node.progress setup)
      (after.progress setup) := by
  cases decoded : setup.decodeBatch bytes with
  | none =>
      refine idle_step collisionFree ?_ ?_ committed same
      · rintro value isTaken
        cases isTaken
        exact decoded
      · intro digest
        rw [store]
        exact linked.holdsBlock_undecoded collisionFree decoded digest
  | some block =>
      refine .finish (.batch bytes) (.inr rfl) ?_ ?_ ?_ (ge_of_eq committed) ?_ (.inl committed)
        ?_ ?_
      · change setup.decodeBatch bytes ≠ none
        rw [decoded]
        exact Option.some_ne_none block
      · exact fun key needed => by cases needed
      · apply Set.ext
        intro digest
        change after.core.store.HoldsBlock setup digest ↔ _
        rw [store]
        exact node.core.store.holdsBlock_write (.batch bytes) decoded digest
      · exact fun weight weighs =>
          absurd weighs (blockWorklist_weightless collisionFree bytes weight)
      · rintro value ⟨other, rfl, suspended⟩
        exact ⟨other, rfl, (same other).mp suspended⟩
      · rintro value (⟨other, rfl, suspended⟩ | isTaken) viable
        · exact .inr ⟨.block other, ⟨other, rfl, (same other).mpr suspended⟩, viable, rfl⟩
        · cases isTaken
          exact .inl rfl

/-- A block that goes through `process_block` in a turn after which the core still runs. -/
theorem Node.Enters.outcome {node after : Node} {event : Event} {block : Block} {start : Core}
    (enters : node.Enters setup event block start) (turn : Turn setup name node event after)
    (collisionFree : CollisionFree) (apart : setup.BatchesApart)
    (linked : start.store.Linked setup) (running : after.halted = false) :
    start.Outcome setup after.core block := by
  rw [enters.processed turn]
  exact Core.processBlock_outcome collisionFree apart linked (enters.returns turn running)

/-- A turn that catches up is a step of the work list. -/
theorem Node.Turn.catchesUp {node after : Node} {event : Event}
    (turn : Turn setup name node event after) (collisionFree : CollisionFree)
    (apart : setup.BatchesApart) (linked : node.core.store.Linked setup) (tended : node.Tended)
    {blocks : List Block} (allowed : event.catchesUp blocks)
    (ready : ∀ block ∈ blocks, node.core.Ready setup block) (running : after.halted = false) :
    (blockWorklist collisionFree setup).Step event.arrival (node.progress setup)
      (after.progress setup) := by
  have whole := turn
  cases turn with
  | message message =>
      have recorded : node.core.SameLedger (node.core.record (.received message)) :=
        (Core.record_books ..).ledger
      cases message with
      | propose block =>
          have enters : node.Enters setup _ block _ := .proposal block (ready block allowed)
          have takesUp := TakesUp.proposal (Core.handleMessage setup name (.propose block))
            (Core.accept_books (node.core.record (.received (.propose block))) block).ledger
          have linkedStart := takesUp.ledger.store.symm ▸ linked
          exact takesUp.step collisionFree linkedStart
            (enters.outcome whole collisionFree apart linkedStart running)
      | vote vote =>
          exact ledger_step collisionFree recorded rfl rfl
            (Core.handleVote_ledger setup name vote)
      | timeout timeout =>
          exact ledger_step collisionFree recorded rfl rfl
            (Core.handleTimeout_ledger setup name timeout)
      | tc tc =>
          exact ledger_step collisionFree recorded rfl rfl
            (Core.handleTc_ledger setup name tc)
      | syncRequest missing origin =>
          exact ledger_step collisionFree recorded rfl rfl (.crash _)
  | loopback block rest wasRunning next =>
      have enters : node.Enters setup _ block _ := .resumed block rest next
      have takesUp := TakesUp.resumed (Core.processBlock setup name block) next
      have linkedStart := takesUp.ledger.store.symm ▸ linked
      exact takesUp.step collisionFree linkedStart
        (enters.outcome whole collisionFree apart linkedStart running)
  | timer =>
      exact ledger_step collisionFree ⟨rfl, rfl, rfl⟩ rfl rfl
        (Core.localTimeoutRound_ledger setup name)
  | clean => exact allowed.elim
  | skip => exact allowed.elim
  | build => exact allowed.elim
  | payloadReady => exact allowed.elim
  | parentMissing block rest synchronizer next received =>
      exact tended.suspends_step collisionFree next received
  | parentReady index block synchronizer released => exact resumes_step collisionFree released
  | retry old synchronizer retried =>
      refine idle_step collisionFree (fun _ taken => by cases taken) (fun _ => Iff.rfl) rfl ?_
      intro block
      unfold Suspended
      rw [(Synchronizer.retry_cases retried).2]
  | batch bytes => exact batch_step collisionFree linked bytes rfl rfl fun block => Iff.rfl
  | _ =>
      exact idle_step collisionFree (fun _ taken => by cases taken) (fun _ => Iff.rfl) rfl
        fun block => Iff.rfl

/-- Nothing in the work list of a node at rest can go on. -/
theorem Node.AtRest.atRest {node : Node} (rest : node.AtRest) (collisionFree : CollisionFree)
    (tended : node.Tended) :
    (blockWorklist collisionFree setup).AtRest (node.progress setup) := by
  rintro value ⟨block, rfl, queued | waits | returns⟩ viable
  · rw [rest.inner] at queued
    cases queued
  · refine ⟨block.parent, if_neg ?_, ?_⟩
    · rw [tended.waiting block waits]
      exact Bool.false_ne_true
    · rintro ⟨parent, present⟩
      rw [rest.waiting block waits] at present
      cases present
  · rw [rest.loopback] at returns
    cases returns

/-- A core that runs at the end ran all the time. -/
theorem Node.running_of_execute {node after : Node} {events : List Event}
    (executed : (machine setup name).execute node events = some after)
    (running : after.halted = false) : node.halted = false := by
  induction events generalizing node with
  | nil =>
      cases executed
      exact running
  | cons event rest ih =>
      obtain ⟨middle, steps, executed⟩ := Option.bind_eq_some_iff.mp executed
      exact (step_turn steps).halted (ih executed)

/-- A run in which the node catches up is a run of the work list. -/
theorem Node.catchUp_run (collisionFree : CollisionFree) (apart : setup.BatchesApart)
    {node after : Node} (reachable : (machine setup name).Reachable node) {events : List Event}
    (executed : (machine setup name).execute node events = some after) {blocks : List Block}
    (only : ∀ event ∈ events, event.catchesUp blocks)
    (ready : ∀ block ∈ blocks, node.core.Ready setup block) (running : after.halted = false)
    {start : Worklist.Progress Value Digest} {items : List Value}
    (run : (blockWorklist collisionFree setup).Run start items (node.progress setup)) :
    (machine setup name).Reachable after ∧ (blockWorklist collisionFree setup).Run start
      (items ++ events.filterMap Event.arrival) (after.progress setup) := by
  induction events generalizing node items with
  | nil =>
      cases executed
      exact ⟨reachable, by simpa using run⟩
  | cons event rest ih =>
      obtain ⟨middle, steps, executed⟩ := Option.bind_eq_some_iff.mp executed
      have turn := step_turn steps
      have linked := reachable_linked collisionFree reachable
      have kept := (turn.keepsLinks collisionFree linked).2
      have step := turn.catchesUp collisionFree apart linked (reachable_tended reachable)
        (only event (List.mem_cons_self ..)) ready (running_of_execute executed running)
      obtain ⟨reachableAfter, whole⟩ := ih (reachable.next steps) executed
        (fun event inside => only event (List.mem_cons_of_mem _ inside))
        (fun block inside => (ready block inside).mono kept) (.next _ run step)
      refine ⟨reachableAfter, ?_⟩
      have arrivals : (event :: rest).filterMap Event.arrival =
          event.arrival.toList ++ rest.filterMap Event.arrival := by
        rw [List.filterMap_cons]
        cases event.arrival <;> rfl
      rw [arrivals, ← List.append_assoc]
      exact whole

/-- Two runs in which a node catches up on the same blocks, in whatever order, end with the same
stored blocks and the same last committed round. -/
theorem catch_up_confluent (collisionFree : CollisionFree) (setup : Setup)
    (apart : setup.BatchesApart) (name : PublicKey) (node : Node)
    (reachable : (Node.machine setup name).Reachable node) (blocks : List Block)
    (ready : ∀ block ∈ blocks, node.core.Ready setup block) {first second : List Event}
    {after after' : Node} (catchesUp : node.CatchesUp setup name blocks first after)
    (catchesUp' : node.CatchesUp setup name blocks second after')
    (batches : ∀ bytes, setup.decodeBatch bytes ≠ none →
      (.batch bytes ∈ first ↔ .batch bytes ∈ second)) :
    (∀ digest, after.core.StoresBlock digest ↔ after'.core.StoresBlock digest) ∧
      after.core.lastCommittedRound = after'.core.lastCommittedRound := by
  obtain ⟨reached, run⟩ := Node.catchUp_run collisionFree apart reachable catchesUp.executed
    catchesUp.only ready catchesUp.rest.running .start
  obtain ⟨reached', run'⟩ := Node.catchUp_run collisionFree apart reachable catchesUp'.executed
    catchesUp'.only ready catchesUp'.rest.running .start
  have linked := Node.reachable_linked collisionFree reached
  have linked' := Node.reachable_linked collisionFree reached'
  obtain ⟨finished, bound⟩ := run.confluent
    (catchesUp.rest.atRest collisionFree (Node.reachable_tended reached)) run'
    (catchesUp'.rest.atRest collisionFree (Node.reachable_tended reached')) fun value viable => by
      rw [List.nil_append, List.nil_append, catchesUp.arrives, catchesUp'.arrives]
      cases value with
      | block block => exact Iff.rfl
      | batch bytes => exact batches bytes viable
  have holds (digest : Digest) : after.core.store.HoldsBlock setup digest ↔
      after'.core.store.HoldsBlock setup digest := Set.ext_iff.mp finished digest
  exact ⟨fun digest =>
    ⟨linked.storesBlock_of linked' collisionFree fun digest => (holds digest).mp,
      linked'.storesBlock_of linked collisionFree fun digest => (holds digest).mpr⟩, bound⟩

end

namespace Plain

/-- The checks of `handle_proposal` succeed for the block. -/
def readyAt (setup : Setup) (core : Core) (block : Block) : Bool :=
  decide (block.author = setup.committee.getLeader block.round) &&
    accepts (block.verify setup.committee) &&
    block.payload.all fun digest => (core.store.read digest).isSome

/-- The computed check of a block says that it is ready. -/
theorem of_readyAt {setup : Setup} {core : Core} {block : Block}
    (ready : readyAt setup core block = true) : core.Ready setup block := by
  unfold readyAt at ready
  rw [Bool.and_eq_true, Bool.and_eq_true, decide_eq_true_eq, accepts_iff, List.all_eq_true] at ready
  exact ⟨ready.1.1, ready.1.2, ready.2⟩

/-- The core runs, and no block is suspended. -/
def settled (node : Node) : Bool :=
  !node.halted && node.rxLoopback.isEmpty && node.core.innerChannel.isEmpty &&
    node.synchronizer.waiting.isEmpty

/-- The computed check of a node says that it is at rest. -/
theorem of_settled {node : Node} (isSettled : settled node = true) : node.AtRest := by
  unfold settled at isSettled
  simp only [Bool.and_eq_true, Bool.not_eq_true', List.isEmpty_iff] at isSettled
  obtain ⟨⟨⟨running, loopback⟩, inner⟩, waiting⟩ := isSettled
  refine ⟨running, loopback, inner, ?_⟩
  rw [waiting]
  exact fun _ inside => absurd inside List.not_mem_nil

/-- Four equal members for whom the batch with the single byte zero decodes as a block. -/
def legible : Setup := setup (committee 4 1 four_nonempty four_light) fun bytes =>
  if bytes = [0] then some (propose .genesis none 0 0) else none

/-- The one batch that decodes as a block carries the genesis QC. -/
theorem apart_legible : legible.BatchesApart := by
  intro bytes block decoded
  change (if bytes = [0] then some (propose .genesis none 0 0) else none) = some block at decoded
  split at decoded
  · cases decoded
    exact .inl (QC.beq_iff.mpr ⟨rfl, rfl⟩)
  · cases decoded

/-- The last committed round of the first member after the events, when it is at rest there. -/
def caughtUp (events : List Event) : Option Nat := do
  let after ← (Node.machine legible (0 : Nat)).execute (Node.boot legible (0 : Nat)) events
  if settled after then some after.core.lastCommittedRound else none

/-- A computed catch-up with its last committed round. -/
theorem of_caughtUp {events : List Event} {round : Nat} (taken : caughtUp events = some round)
    (blocks : List Block) (only : ∀ event ∈ events, event.catchesUp blocks)
    (all : ∀ block ∈ blocks, .message (.propose block) ∈ events) :
    ∃ after, (Node.boot legible (0 : Nat)).CatchesUp legible (0 : Nat) blocks events after ∧
      after.core.lastCommittedRound = round := by
  obtain ⟨after, executed, taken⟩ := Option.bind_eq_some_iff.mp taken
  split at taken
  · rename_i isSettled
    exact ⟨after, ⟨executed, only, all, of_settled isSettled⟩, Option.some.inj taken⟩
  · cases taken

def missed : List Block := [firstBlock, secondBlock, thirdBlock]

/-- The blocks arrive in their order, and the batch after them. -/
def forwards : List Event := [
  .message (.propose firstBlock), .message (.propose secondBlock), .message (.propose thirdBlock),
  .batch [0]]

/-- The blocks arrive from the last to the first, and the synchronizer resumes two of them. -/
def backwards : List Event := [
  .batch [0], .message (.propose thirdBlock), .parentMissing,
  .message (.propose secondBlock), .parentMissing,
  .message (.propose firstBlock),
  .parentReady 1, .loopback, .parentReady 0, .loopback]

/-- Forwards and backwards the member ends with the same blocks and commits the first round. -/
theorem catch_up_confluent_backwards : ∃ after after',
    (Node.boot legible (0 : Nat)).CatchesUp legible (0 : Nat) missed forwards after ∧
    (Node.boot legible (0 : Nat)).CatchesUp legible (0 : Nat) missed backwards after' ∧
    after.core.lastCommittedRound = 1 ∧
    (∀ digest, after.core.StoresBlock digest ↔ after'.core.StoresBlock digest) ∧
    after.core.lastCommittedRound = after'.core.lastCommittedRound := by
  have ready : ∀ block ∈ missed, (Node.boot legible (0 : Nat)).core.Ready legible block := by
    have checked : missed.all (readyAt legible (Node.boot legible (0 : Nat)).core) = true := by
      decide +kernel
    exact fun block inside => of_readyAt (List.all_eq_true.mp checked block inside)
  have caught : caughtUp forwards = some 1 := by decide +kernel
  have caught' : caughtUp backwards = some 1 := by decide +kernel
  obtain ⟨after, catchesUp, isRound⟩ := of_caughtUp caught missed
    (by simp [forwards, missed, Event.catchesUp]) (by simp [forwards, missed])
  obtain ⟨after', catchesUp', _⟩ := of_caughtUp caught' missed
    (by simp [backwards, missed, Event.catchesUp]) (by simp [backwards, missed])
  have batches (bytes : List UInt8) :
      .batch bytes ∈ forwards ↔ .batch bytes ∈ backwards := by simp [forwards, backwards]
  exact ⟨after, after', catchesUp, catchesUp', isRound,
    catch_up_confluent collisionFree legible apart_legible (0 : Nat) _ .start missed ready
      catchesUp catchesUp' fun bytes _ => batches bytes⟩

end Plain

end DeflHotstuff
