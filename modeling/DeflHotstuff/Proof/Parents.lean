import DeflHotstuff.Proof.Duplicates
import DeflHotstuff.Proof.Suspension

namespace DeflHotstuff

open Verification

section Stores

variable [Crypto] {setup : Setup} {store : Store}

/-- A batch that decodes as a block carries the genesis QC, or a QC for a hash that no string has:
the bytes of a batch, and so the hash, begin with the tag and the length of the batch. -/
def Setup.BatchesApart (setup : Setup) : Prop :=
  ∀ bytes block, setup.decodeBatch bytes = some block →
    (block.qc == QC.genesis) = true ∨ ∀ preimage, sha512 preimage ≠ block.parent

/-- The parents that a store can hold for a block. A batch may decode as one. -/
inductive Setup.Links (setup : Setup) (child : Block) : Block → Prop
  | genesis (embedded : (child.qc == QC.genesis) = true) : Links setup child .genesis
  | block (parent : Block) (embedded : (child.qc == QC.genesis) = false)
      (same : parent.digest = child.parent) : Links setup child parent
  | batch (bytes : List UInt8) (parent : Block) (embedded : (child.qc == QC.genesis) = false)
      (same : child.parent = sha512 (.batch bytes))
      (decoded : setup.decodeBatch bytes = some parent) : Links setup child parent

/-- No store holds a parent of the block: its QC is for the all-zero digest and not the one of
genesis, or it is for a batch that does not decode as a block. -/
def Setup.Lost (setup : Setup) (block : Block) : Prop :=
  (block.qc == QC.genesis) = false ∧ (block.parent = default ∨
    ∃ bytes, block.parent = sha512 (.batch bytes) ∧ setup.decodeBatch bytes = none)

/-- Copies of a block have one parent, or copies of it. -/
theorem Setup.Links.same (collisionFree : CollisionFree) {child copy parent parent' : Block}
    (same : child.digest = copy.digest) (links : setup.Links child parent)
    (links' : setup.Links copy parent') : parent.digest = parent'.digest := by
  have sameParent : child.parent = copy.parent := (collisionFree.block_digest same).2.2.2
  have zero {block : Block} (embedded : (block.qc == QC.genesis) = true) :
      block.parent = default := (QC.beq_iff.mp embedded).1
  cases links with
  | genesis embedded =>
      have isZero := sameParent.symm.trans (zero embedded)
      cases links' with
      | genesis => rfl
      | block _ _ isParent => exact absurd (isParent.trans isZero) (collisionFree.nonzero _)
      | batch _ _ _ isBatch => exact absurd (isBatch.symm.trans isZero) (collisionFree.nonzero _)
  | block _ _ isParent =>
      cases links' with
      | genesis embedded' =>
          exact absurd (isParent.trans (sameParent.trans (zero embedded')))
            (collisionFree.nonzero _)
      | block _ _ isParent' => exact isParent.trans (sameParent.trans isParent'.symm)
      | batch bytes _ _ isBatch =>
          exact absurd (isParent.trans (sameParent.trans isBatch))
            (collisionFree.block_ne_batch parent bytes)
  | batch bytes _ _ isBatch decoded =>
      cases links' with
      | genesis embedded' =>
          exact absurd (isBatch.symm.trans (sameParent.trans (zero embedded')))
            (collisionFree.nonzero _)
      | block _ _ isParent' =>
          exact absurd (isParent'.trans (sameParent.symm.trans isBatch))
            (collisionFree.block_ne_batch parent' bytes)
      | batch bytes' _ _ isBatch' decoded' =>
          have sameBytes := collisionFree.batch_digest
            (isBatch.symm.trans (sameParent.trans isBatch'))
          rw [sameBytes, decoded'] at decoded
          rw [Option.some.inj decoded]

/-- The digest under which the node stores the value. -/
def Value.digest : Value → Digest
  | .block stored => stored.digest
  | .batch bytes => sha512 (.batch bytes)

/-- Every value is stored under its digest, and the parent of every stored block is at hand. -/
structure Store.Linked (setup : Setup) (store : Store) : Prop where
  keys : ∀ key value, store.read key = some value → value.digest = key
  parents : ∀ key block, store.read key = some (.block block) →
    ∃ parent, setup.parentOf store block = some parent

/-- The search for the parent of the block does not fail: it is at hand, or no store holds it. -/
def Store.Sound (setup : Setup) (store : Store) (block : Block) : Prop :=
  (∃ parent, setup.parentOf store block = some parent) ∨
    ∀ preimage, sha512 preimage ≠ block.parent

namespace Store.Linked

variable (linked : store.Linked setup)

include linked

/-- A key of the store is a digest. -/
theorem hashed {key : Digest} {value : Value} (found : store.read key = some value) :
    ∃ preimage, sha512 preimage = key := by
  have isKey := linked.keys key value found
  cases value with
  | block block => exact ⟨_, isKey⟩
  | batch bytes => exact ⟨_, isKey⟩

/-- A parent that is read is one of those that the QC allows. -/
theorem links {child parent : Block} (found : setup.parentOf store child = some parent) :
    setup.Links child parent := by
  unfold Setup.parentOf at found
  split at found
  · rename_i embedded
    cases found
    exact .genesis embedded
  · rename_i embedded
    have isNot := Bool.eq_false_of_not_eq_true embedded
    obtain ⟨value, present, decoded⟩ := Option.bind_eq_some_iff.mp found
    have isKey := linked.keys _ _ present
    cases value with
    | batch bytes => exact .batch bytes parent isNot isKey.symm decoded
    | block block =>
        cases decoded
        exact .block parent isNot isKey

/-- A block whose parent was read is not lost. -/
theorem viable (collisionFree : CollisionFree) {child parent : Block}
    (found : setup.parentOf store child = some parent) : ¬ setup.Lost child := by
  rintro ⟨embedded, isZero | ⟨bytes, isBatch, undecoded⟩⟩
  · cases linked.links found with
    | genesis embedded' =>
        rw [embedded] at embedded'
        cases embedded'
    | block _ _ same => exact collisionFree.nonzero _ (same.trans isZero)
    | batch _ _ _ same => exact collisionFree.nonzero _ (same.symm.trans isZero)
  · cases linked.links found with
    | genesis embedded' =>
        rw [embedded] at embedded'
        cases embedded'
    | block _ _ same => exact collisionFree.block_ne_batch parent bytes (same.trans isBatch)
    | batch _ _ _ same decoded =>
        rw [collisionFree.batch_digest (same.symm.trans isBatch), undecoded] at decoded
        cases decoded

/-- A block that was read as a parent is sound. -/
theorem sound (apart : setup.BatchesApart) {child parent : Block}
    (found : setup.parentOf store child = some parent) : store.Sound setup parent := by
  have ofGenesis {block : Block} (embedded : (block.qc == QC.genesis) = true) :
      store.Sound setup block := .inl ⟨.genesis, if_pos embedded⟩
  unfold Setup.parentOf at found
  split at found
  · cases found
    exact ofGenesis (QC.beq_iff.mpr ⟨rfl, rfl⟩)
  · obtain ⟨value, present, decoded⟩ := Option.bind_eq_some_iff.mp found
    cases value with
    | batch bytes => exact (apart bytes parent decoded).elim ofGenesis .inr
    | block block =>
        cases decoded
        exact .inl (linked.parents _ _ present)

/-- A write keeps the parents that are at hand, or copies of them. -/
theorem parentOf_write (collisionFree : CollisionFree) (value : Value) {child parent : Block}
    (found : setup.parentOf store child = some parent) :
    ∃ copy, setup.parentOf (store.write value.digest value) child = some copy := by
  unfold Setup.parentOf at found ⊢
  split
  · exact ⟨_, rfl⟩
  · rename_i embedded
    rw [if_neg embedded] at found
    obtain ⟨old, present, decoded⟩ := Option.bind_eq_some_iff.mp found
    rw [Store.read_write]
    split
    · rename_i isKey
      have same : old.digest = value.digest := (linked.keys _ _ present).trans isKey
      cases value with
      | block block => exact ⟨block, rfl⟩
      | batch bytes =>
          cases old with
          | block block => exact absurd same (collisionFree.block_ne_batch block bytes)
          | batch other =>
              have sameBytes : other = bytes := collisionFree.batch_digest same
              exact ⟨parent, sameBytes ▸ decoded⟩
    · exact ⟨parent, found⟩

/-- The node stores a block only when its parent is at hand. -/
theorem write (collisionFree : CollisionFree) (value : Value)
    (parent : ∀ block, value = .block block →
      ∃ parent, setup.parentOf store block = some parent) :
    (store.write value.digest value).Linked setup := by
  constructor
  · intro key other found
    rw [Store.read_write] at found
    split at found
    · rename_i isKey
      cases found
      exact isKey.symm
    · exact linked.keys key other found
  · intro key block found
    have old : ∃ parent, setup.parentOf store block = some parent := by
      rw [Store.read_write] at found
      split at found
      · cases found
        exact parent block rfl
      · exact linked.parents key block found
    obtain ⟨_, atHand⟩ := old
    exact linked.parentOf_write collisionFree value atHand

end Store.Linked

namespace Core

/-- The store stays linked and keeps its keys. -/
def KeepsLinks (setup : Setup) (core after : Core) : Prop :=
  core.store.Linked setup → after.store.Linked setup ∧
    ∀ key, (core.store.read key).isSome → (after.store.read key).isSome

instance : Std.Refl (KeepsLinks setup) := ⟨fun _ linked => ⟨linked, fun _ => id⟩⟩

instance : IsTrans Core (KeepsLinks setup) := ⟨fun _ _ _ first second linked =>
  ⟨(second (first linked).1).1, fun key present =>
    (second (first linked).1).2 key ((first linked).2 key present)⟩⟩

/-- The links stay when the store does. -/
theorem keepsLinks_same {core after : Core} (same : after.store = core.store) :
    core.KeepsLinks setup after := by
  unfold KeepsLinks
  rw [same]
  exact fun linked => ⟨linked, fun _ => id⟩

/-- A write keeps the links when the parent of the block is at hand. -/
theorem keepsLinks_write {core after : Core} (collisionFree : CollisionFree) (value : Value)
    (written : after.store = core.store.write value.digest value)
    (parent : ∀ block, value = .block block →
      ∃ parent, setup.parentOf core.store block = some parent) : core.KeepsLinks setup after := by
  intro linked
  rw [written]
  exact ⟨linked.write collisionFree value parent, fun key =>
    core.store.read_write_isSome value.digest key value⟩

/-- The store of the boot is empty, and so it is linked. -/
theorem boot_linked {name : PublicKey} : (boot setup name).store.Linked setup := by
  have empty : (boot setup name).store = .new :=
    (proposeAsLeader_books setup name .new none).store
  rw [empty]
  constructor
  · intro key value found
    cases found
  · intro key block found
    cases found

end Core

end Stores

variable [Crypto] [Rounds] {setup : Setup} {name : PublicKey}

namespace Core

variable {core : Core} {block : Block}

/-- A search for the parent of a sound block finds it, or the parent is not in the store. -/
theorem getParentBlock_sound (linked : core.store.Linked setup)
    (sound : core.store.Sound setup block) :
    (∃ parent, setup.parentOf core.store block = some parent) ∨
      ∃ after, getParentBlock setup block core = (.ok none, after) := by
  obtain ⟨parent, found, _⟩ | ⟨failure, fails⟩ | ⟨_, _, missing⟩ :=
    getParentBlock_cases setup core block
  · exact .inl ⟨parent, found⟩
  · rcases sound with atHand | unhashed
    · exact .inl atHand
    · rw [getParentBlock_run] at fails
      split at fails
      · cases fails
      · split at fails
        · rename_i value present
          obtain ⟨preimage, isHash⟩ := linked.hashed present
          exact absurd isHash (unhashed preimage)
        · cases fails
  · exact .inr ⟨_, missing⟩

/-- The walk up from a sound block does not end in an error. -/
theorem collectAncestors_sound (linked : core.store.Linked setup) (apart : setup.BatchesApart)
    (bound fuel : Nat) (parent : Block) (toCommit : List Block)
    (sound : core.store.Sound setup parent)
    (returns : (collectAncestors setup bound fuel parent toCommit core).1.Returns) :
    ∃ collected,
      collectAncestors setup bound fuel parent toCommit core = (.ok collected, core) := by
  induction fuel generalizing parent toCommit with
  | zero => exact absurd returns Exit.diverge_not_returns
  | succ fuel ih =>
      unfold collectAncestors at returns ⊢
      split
      · rename_i above
        rw [if_pos above] at returns
        change (Handler.bind (getParentBlock setup parent) _ core).1.Returns at returns
        change ∃ collected, Handler.bind (getParentBlock setup parent) _ core = _
        unfold Handler.bind at returns ⊢
        obtain ⟨ancestor, found⟩ | ⟨after, missing⟩ := getParentBlock_sound linked sound
        · rw [getParentBlock_found found] at returns ⊢
          exact ih ancestor _ (linked.sound apart found) returns
        · rw [missing] at returns
          exact absurd returns (Exit.panic_not_returns _)
      · exact ⟨toCommit, rfl⟩

/-- A two-chain from a sound block on is committed when the task comes back. -/
theorem commitTwoChain_sound {b0 b1 : Block} (linked : core.store.Linked setup)
    (apart : setup.BatchesApart) (sound : core.store.Sound setup b0)
    (returns : (commitTwoChain setup b0 b1 core).1.Returns) :
    ∃ after, commitTwoChain setup b0 b1 core = (.ok (), after) ∧ after.store = core.store ∧
      after.innerChannel = core.innerChannel ∧
        after.lastCommittedRound = if Rounds.next b0.round = b1.round
          then max core.lastCommittedRound b0.round else core.lastCommittedRound := by
  unfold commitTwoChain at returns ⊢
  split
  · rename_i consecutive
    rw [if_pos consecutive, Handler.update_bind] at returns
    rw [Handler.update_bind]
    unfold commit at returns ⊢
    rw [Handler.read_bind] at returns ⊢
    split
    · rename_i reached
      exact ⟨_, rfl, rfl, rfl, (max_eq_left reached).symm⟩
    · rename_i above
      rw [if_neg above] at returns
      let decided : Core := { core with
        txMempool := core.txMempool ++ [.cleanup b0.round]
        txPayloadWaiter := core.txPayloadWaiter ++ [.cleanup b0.round]
        history := core.history ++ [.committed b0] }
      have linkedDecided : decided.store.Linked setup := linked
      obtain ⟨collected, collects⟩ := collectAncestors_sound linkedDecided apart _ _ b0 [] sound
        (Handler.bind_returns returns)
      change ∃ after, Handler.bind _ _ decided = _ ∧ _
      unfold Handler.bind
      rw [collects]
      exact ⟨_, rfl, rfl, rfl, (max_eq_right (Nat.not_le.mp above).le).symm⟩
  · exact ⟨core, rfl, rfl, rfl, rfl⟩

/-- The task of a block without its parent ends at once. -/
theorem processBlock_orphan (orphan : (block.qc == QC.genesis) = false)
    (absent : core.store.read block.parent = none) :
    processBlock setup name block core =
      (.ok (), { core with innerChannel := core.innerChannel ++ [block] }) := by
  have searched : getAncestors setup block core =
      (.ok none, { core with innerChannel := core.innerChannel ++ [block] }) := by
    unfold getAncestors
    exact parent_missing _ orphan absent
  unfold processBlock
  change Handler.bind _ _ core = _
  unfold Handler.bind
  rw [searched]
  rfl

/-- What becomes of a block in `process_block`: it is suspended for its parent, it is stored and
the commit that it completes is done, or no store holds a parent of it. -/
inductive Outcome (setup : Setup) (core after : Core) (block : Block) : Prop
  | suspended (store : after.store = core.store)
      (inner : after.innerChannel = core.innerChannel ++ [block])
      (committed : after.lastCommittedRound = core.lastCommittedRound)
  | stored (b0 b1 : Block) (parent : setup.parentOf core.store block = some b1)
      (grandparent : setup.parentOf core.store b1 = some b0)
      (store : after.store = core.store.write block.digest (.block block))
      (inner : after.innerChannel = core.innerChannel)
      (committed : after.lastCommittedRound = if Rounds.next b0.round = b1.round
        then max core.lastCommittedRound b0.round else core.lastCommittedRound)
  | lost (lost : setup.Lost block) (same : core.SameLedger after)

/-- A read that fails found a batch that does not decode as a block. -/
theorem lost_of_error (linked : core.store.Linked setup) {failure : ConsensusError}
    (fails : getParentBlock setup block core = (.error failure, core)) : setup.Lost block := by
  rw [getParentBlock_run] at fails
  split at fails
  · cases fails
  · rename_i embedded
    refine ⟨Bool.eq_false_of_not_eq_true embedded, .inr ?_⟩
    split at fails
    · rename_i value present
      split at fails
      · cases fails
      · rename_i undecoded
        cases value with
        | block stored => cases undecoded
        | batch bytes => exact ⟨bytes, (linked.keys _ _ present).symm, undecoded⟩
    · cases fails

/-- A task that comes back has left one of the three outcomes behind. -/
theorem processBlock_outcome (collisionFree : CollisionFree) (apart : setup.BatchesApart)
    (linked : core.store.Linked setup) (returns : (processBlock setup name block core).1.Returns) :
    core.Outcome setup (processBlock setup name block core).2 block := by
  obtain ⟨b1, parent, searched⟩ | ⟨failure, fails⟩ | ⟨orphan, absent, _⟩ :=
    getParentBlock_cases setup core block
  · obtain ⟨b0, grandparent⟩ | ⟨after, missing⟩ :=
      getParentBlock_sound linked (linked.sound apart parent)
    · rw [processBlock_found parent grandparent] at returns ⊢
      let stored := (core.storeBlock block).cleanupProposer b0 b1 block
      have linkedStored : stored.store.Linked setup :=
        linked.write collisionFree (.block block) fun other same => by
          cases same
          exact ⟨b1, parent⟩
      have soundStored : stored.store.Sound setup b0 :=
        (linked.sound apart grandparent).imp_left fun ⟨ancestor, found⟩ =>
          linked.parentOf_write collisionFree (.block block) found
      obtain ⟨middle, commits, store, inner, committed⟩ :=
        commitTwoChain_sound linkedStored apart soundStored (Handler.bind_returns returns)
      have same : middle.SameLedger
          ((commitTwoChain setup b0 b1 >>= fun _ => voteInRound setup name block) stored).2 := by
        change middle.SameLedger (Handler.bind _ _ stored).2
        unfold Handler.bind
        rw [commits]
        exact voteInRound_ledger setup name block middle
      exact .stored b0 b1 parent grandparent (same.store.trans store)
        (same.innerChannel.trans inner) (same.lastCommittedRound.trans committed)
    · have panics : (getAncestors setup block core).1 =
          .panic "We should have all ancestors of delivered blocks" := by
        unfold getAncestors
        change (Handler.bind (getParentBlock setup block) _ core).1 = _
        unfold Handler.bind
        rw [searched]
        change (Handler.bind (getParentBlock setup b1) _ core).1 = _
        unfold Handler.bind
        rw [missing]
        rfl
      have searches : (getAncestors setup block core).1.Returns := by
        unfold processBlock at returns
        exact Handler.bind_returns returns
      rw [panics] at searches
      exact absurd searches (Exit.panic_not_returns _)
  · have ends : processBlock setup name block core = (.error failure, core) := by
      unfold processBlock getAncestors
      change Handler.bind (Handler.bind (getParentBlock setup block) _) _ core = _
      unfold Handler.bind
      rw [fails]
    rw [ends]
    exact .lost (lost_of_error linked fails) (Std.Refl.refl _)
  · rw [processBlock_orphan orphan absent]
    exact .suspended rfl rfl rfl

/-- The task of a block writes nothing, or the block when its parent is at hand. -/
theorem processBlock_store (setup : Setup) (name : PublicKey) (block : Block) (core : Core) :
    (processBlock setup name block core).2.store = core.store ∨
      ∃ parent, setup.parentOf core.store block = some parent ∧
        (processBlock setup name block core).2.store =
          core.store.write block.digest (.block block) := by
  rcases searched : getAncestors setup block core with ⟨result, middle⟩
  have same : middle.store = core.store := by
    have searches : core.Searches (getAncestors setup block core).2 :=
      getAncestors_searches setup block core
    rw [searched] at searches
    exact searches.store
  have ends (stops : ∀ b0 b1, result ≠ .ok (some (b0, b1))) :
      (processBlock setup name block core).2.store = core.store := by
    rw [← same]
    unfold processBlock
    change (Handler.bind _ _ core).2.store = _
    unfold Handler.bind
    rw [searched]
    cases result with
    | ok found =>
        cases found with
        | none => rfl
        | some pair => exact absurd rfl (stops pair.1 pair.2)
    | error failure => rfl
    | panic message => rfl
    | diverge => rfl
  by_cases found : ∃ b0 b1, result = .ok (some (b0, b1))
  · obtain ⟨b0, b1, rfl⟩ := found
    obtain ⟨parent, grandparent⟩ := getAncestors_ok setup core searched
    refine .inr ⟨b1, parent, ?_⟩
    rw [processBlock_found parent grandparent]
    let stored := (core.storeBlock block).cleanupProposer b0 b1 block
    have searches : stored.Searches
        ((commitTwoChain setup b0 b1 >>= fun _ => voteInRound setup name block) stored).2 :=
      Handler.Frames.bind (commitTwoChain_searches setup b0 b1)
        (fun _ => (voteInRound_ledger setup name block).weaken fun _ _ same => same.searches) stored
    exact searches.store
  · exact .inl (ends fun b0 b1 same => found ⟨b0, b1, same⟩)

/-- Processing a block stores it with its parent at hand. -/
theorem processBlock_keepsLinks (collisionFree : CollisionFree) (block : Block) :
    (processBlock setup name block).Frames (KeepsLinks setup) := by
  intro core
  obtain same | ⟨parent, found, written⟩ := processBlock_store setup name block core
  · exact keepsLinks_same same
  · exact keepsLinks_write collisionFree (.block block) written fun other same => by
      cases same
      exact ⟨parent, found⟩

/-- No message makes the core store a block without its parent. -/
theorem handleMessage_keepsLinks (collisionFree : CollisionFree) (message : ConsensusMessage) :
    (handleMessage setup name message).Frames (KeepsLinks setup) := by
  have ofLedger {task : CoreTask Unit} (frames : task.Frames SameLedger) :
      task.Frames (KeepsLinks setup) := frames.weaken fun _ _ same => keepsLinks_same same.store
  cases message with
  | propose block =>
      refine .bind (.check _) fun _ => .bind (.check _) fun _ =>
        .bind (.update fun core => ?_) fun _ => .bind ?_ fun present => ?_
      · exact keepsLinks_same (accept_books core block).store
      · refine .bind .read fun core => ?_
        dsimp only
        split
        · exact .return true
        · exact .bind (.update fun core => keepsLinks_same rfl) fun _ => .return false
      · split
        · exact processBlock_keepsLinks collisionFree block
        · exact .return ()
  | vote vote => exact ofLedger (handleVote_ledger setup name vote)
  | timeout timeout => exact ofLedger (handleTimeout_ledger setup name timeout)
  | tc tc => exact ofLedger (handleTc_ledger setup name tc)
  | syncRequest missing origin => exact .crash _

end Core

namespace Node

/-- Every turn keeps the store linked. -/
theorem Turn.keepsLinks {node after : Node} {event : Event}
    (turn : Turn setup name node event after) (collisionFree : CollisionFree) :
    node.core.KeepsLinks setup after.core := by
  have runs {start : Node} {task : CoreTask Unit} (same : start.core.store = node.core.store)
      (frames : task.Frames (Core.KeepsLinks setup)) :
      node.core.KeepsLinks setup (start.runCore task).core := by
    rw [runCore_core]
    unfold Core.KeepsLinks
    rw [← same]
    exact frames start.core
  cases turn with
  | message message => exact runs rfl (Core.handleMessage_keepsLinks collisionFree message)
  | loopback block rest => exact runs rfl (Core.processBlock_keepsLinks collisionFree block)
  | timer =>
      exact runs rfl ((Core.localTimeoutRound_ledger setup name).weaken fun _ _ same =>
        Core.keepsLinks_same same.store)
  | batch bytes =>
      exact Core.keepsLinks_write collisionFree (.batch bytes) rfl fun _ same => by cases same
  | _ => exact Core.keepsLinks_same rfl

theorem reachable_linked (collisionFree : CollisionFree) {node : Node}
    (reachable : (machine setup name).Reachable node) : node.core.store.Linked setup :=
  reachable.invariant (fun node => node.core.store.Linked setup) Core.boot_linked
    fun _ _ _ _ linked steps => ((step_turn steps).keepsLinks collisionFree linked).1

end Node

end DeflHotstuff
