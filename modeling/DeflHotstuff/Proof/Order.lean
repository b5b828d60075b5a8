import DeflHotstuff.Construction.Plain
import DeflHotstuff.Proof.Commits

namespace DeflHotstuff

open Verification

section

variable [Crypto] {setup : Setup} {name : PublicKey}

/-- A digest of genesis or of a block that was delivered. -/
def Known (delivered : List Block) (digest : Digest) : Prop :=
  digest = Block.genesis.digest ∨ digest ∈ delivered.map Block.digest

/-- The parent as the core reads it: the block under the QC's hash, or what a batch decodes as. -/
def Setup.Reads (setup : Setup) (child parent : Block) : Prop :=
  parent.digest = child.parentDigest ∨
    ∃ bytes, child.parent = sha512 (.batch bytes) ∧ setup.decodeBatch bytes = some parent

/-- The position of the first delivery. -/
def firstDelivery (delivered : List Block) (digest : Digest) : Nat :=
  (delivered.map Block.digest).idxOf digest

/-- Every block is first delivered after its parent, and the parent that the core reads for it
is known. -/
structure Chronological (setup : Setup) (delivered : List Block) : Prop where
  linked : ∀ block ∈ delivered, block.digest ≠ Block.genesis.digest →
    block.parentDigest = Block.genesis.digest ∨ (∃ bytes, block.parent = sha512 (.batch bytes)) ∨
      firstDelivery delivered block.parentDigest < firstDelivery delivered block.digest
  decoded : ∀ block ∈ delivered, ∀ bytes parent, block.parent = sha512 (.batch bytes) →
    setup.decodeBatch bytes = some parent → Known delivered parent.digest

/-- A known digest stays known. -/
theorem Known.mono {delivered later : List Block} {digest : Digest}
    (known : Known delivered digest) (grows : delivered <+: later) : Known later digest :=
  known.imp_right fun inside => (grows.map Block.digest).subset inside

/-- Later deliveries leave the first one. -/
theorem firstDelivery_append {delivered : List Block} {digest : Digest}
    (inside : digest ∈ delivered.map Block.digest) (new : List Block) :
    firstDelivery (delivered ++ new) digest = firstDelivery delivered digest := by
  unfold firstDelivery
  rw [List.map_append, List.idxOf_append_of_mem inside]

/-- A block that is new is first delivered at the end. -/
theorem firstDelivery_new {delivered : List Block} {block : Block}
    (new : block.digest ∉ delivered.map Block.digest) :
    firstDelivery (delivered ++ [block]) block.digest = delivered.length := by
  unfold firstDelivery
  rw [List.map_append, List.idxOf_append_of_notMem new]
  simp

/-- A digest has a first delivery exactly when it was delivered. -/
theorem firstDelivery_lt {delivered : List Block} {digest : Digest} :
    firstDelivery delivered digest < delivered.length ↔ digest ∈ delivered.map Block.digest := by
  rw [← delivered.length_map Block.digest]
  exact List.idxOf_lt_length_iff

namespace CollisionFree

variable (collisionFree : CollisionFree)

include collisionFree

/-- A parent that is a hash has the digest that the block names. -/
theorem parentDigest_of_hash {block : Block} {preimage : Preimage PublicKey Digest}
    (isHash : block.parent = sha512 preimage) : block.parentDigest = block.parent := by
  refine if_neg fun zero => collisionFree.nonzero preimage ?_
  rw [← isHash]
  exact zero

/-- The parent that the core reads from its store. -/
theorem reads {core : Core} (stocked : core.Stocked) {child parent : Block}
    (found : setup.parentOf core.store child = some parent) : setup.Reads child parent := by
  unfold Setup.parentOf at found
  split at found
  · rename_i embedded
    cases found
    exact .inl (if_pos (QC.beq_iff.mp embedded).1).symm
  · obtain ⟨value, present, decoded⟩ := Option.bind_eq_some_iff.mp found
    have kept := stocked.entries _ _ (Store.mem_of_read present)
    generalize isKey : child.parent = key at kept
    cases kept with
    | batch bytes => exact .inr ⟨bytes, isKey, decoded⟩
    | block block =>
        cases decoded
        exact .inl (isKey.symm.trans (collisionFree.parentDigest_of_hash isKey).symm)

/-- A block whose parent is a batch has no parent among the blocks. -/
theorem batch_parent {block parent : Block} {bytes : List UInt8}
    (isBatch : block.parent = sha512 (.batch bytes)) : parent.digest ≠ block.parentDigest := by
  rw [collisionFree.parentDigest_of_hash isBatch, isBatch]
  exact collisionFree.block_ne_batch parent bytes

/-- The parent that the core reads for a known block is known. -/
theorem known_parent {delivered : List Block} (chronological : Chronological setup delivered)
    {child parent : Block} (known : Known delivered child.digest)
    (reads : setup.Reads child parent) : Known delivered parent.digest := by
  by_cases isGenesis : child.digest = Block.genesis.digest
  · rcases reads with digest | ⟨bytes, isBatch, _⟩
    · rw [digest, collisionFree.parentDigest isGenesis, genesis_parentDigest]
      exact .inl rfl
    · have zero : child.parent = default := (collisionFree.block_digest isGenesis).2.2.2
      exact absurd (isBatch.symm.trans zero) (collisionFree.nonzero _)
  · obtain ⟨block, inside, same⟩ := List.mem_map.mp (known.resolve_left isGenesis)
    have sameParent : block.parent = child.parent := (collisionFree.block_digest same).2.2.2
    rcases reads with digest | ⟨bytes, isBatch, decodes⟩
    · rw [digest, ← collisionFree.parentDigest same]
      rcases chronological.linked block inside (same ▸ isGenesis) with
        onGenesis | ⟨bytes, isBatch⟩ | earlier
      · exact .inl onGenesis
      · rw [sameParent] at isBatch
        exact absurd digest (collisionFree.batch_parent isBatch)
      · have within := firstDelivery_lt.mpr (List.mem_map_of_mem (f := Block.digest) inside)
        exact .inr (firstDelivery_lt.mp (earlier.trans within))
    · exact chronological.decoded block inside bytes parent (sameParent.trans isBatch) decodes

/-- Blocks of one digest have the same place in the order. -/
theorem linked_of_mem {delivered : List Block} (chronological : Chronological setup delivered)
    (new : List Block) {block : Block} (inside : block.digest ∈ delivered.map Block.digest)
    (notGenesis : block.digest ≠ Block.genesis.digest) :
    block.parentDigest = Block.genesis.digest ∨ (∃ bytes, block.parent = sha512 (.batch bytes)) ∨
      firstDelivery (delivered ++ new) block.parentDigest <
        firstDelivery (delivered ++ new) block.digest := by
  obtain ⟨first, isFirst, same⟩ := List.mem_map.mp inside
  have sameParent : first.parent = block.parent := (collisionFree.block_digest same).2.2.2
  rw [← collisionFree.parentDigest same, ← sameParent]
  refine (chronological.linked first isFirst (same ▸ notGenesis)).imp_right
    (Or.imp_right fun earlier => ?_)
  have within := earlier.trans (firstDelivery_lt.mpr (same ▸ inside))
  rw [firstDelivery_append (firstDelivery_lt.mp within), firstDelivery_append inside, ← same]
  exact earlier

/-- A block joins the order when it is known or its parent is. -/
theorem deliver {delivered : List Block} (chronological : Chronological setup delivered)
    {block : Block} (follows : Known delivered block.digest ∨
      ∃ parent, setup.Reads block parent ∧ Known delivered parent.digest) :
    Chronological setup (delivered ++ [block]) := by
  have grows : delivered <+: delivered ++ [block] := List.prefix_append _ _
  constructor
  · intro other inside notGenesis
    by_cases old : other.digest ∈ delivered.map Block.digest
    · exact collisionFree.linked_of_mem chronological _ old notGenesis
    · rcases List.mem_append.mp inside with earlier | now
      · exact absurd (List.mem_map_of_mem earlier) old
      · cases List.mem_singleton.mp now
        rcases follows with known | ⟨parent, digest | ⟨bytes, isBatch, _⟩, known⟩
        · exact absurd (known.resolve_left notGenesis) old
        · rw [← digest]
          refine known.imp_right fun before => .inr ?_
          rw [firstDelivery_append before, firstDelivery_new old]
          exact firstDelivery_lt.mpr before
        · exact .inr (.inl ⟨bytes, isBatch⟩)
  · intro other inside bytes parent isBatch decodes
    rcases List.mem_append.mp inside with earlier | now
    · exact (chronological.decoded other earlier bytes parent isBatch decodes).mono grows
    · cases List.mem_singleton.mp now
      rcases follows with known | ⟨parent', digest | ⟨bytes', isBatch', decodes'⟩, known⟩
      · exact (collisionFree.known_parent chronological known
          (.inr ⟨bytes, isBatch, decodes⟩)).mono grows
      · exact absurd digest (collisionFree.batch_parent isBatch)
      · cases collisionFree.batch_digest (isBatch.symm.trans isBatch')
        rw [decodes] at decodes'
        cases decodes'
        exact known.mono grows

/-- The ancestors that a commit collects from a known block are known. -/
theorem collects_known {core : Core} (stocked : core.Stocked) {delivered : List Block}
    (chronological : Chronological setup delivered) {lastCommittedRound : Nat} {block : Block}
    {ancestors : List Block}
    (collects : Collects setup core.store lastCommittedRound block ancestors)
    (known : Known delivered block.digest) :
    ∀ ancestor ∈ ancestors, Known delivered ancestor.digest := by
  induction collects with
  | stop reached => exact fun _ inside => nomatch inside
  | more above parent collects ih =>
      have knownParent := collisionFree.known_parent chronological known
        (collisionFree.reads stocked parent)
      exact List.forall_mem_cons.mpr ⟨knownParent, ih knownParent⟩

/-- Known blocks may be delivered again in any order. -/
theorem deliver_known {delivered again : List Block}
    (chronological : Chronological setup delivered)
    (known : ∀ block ∈ again, Known delivered block.digest) :
    Chronological setup (delivered ++ again) := by
  induction again generalizing delivered with
  | nil => simpa using chronological
  | cons block rest ih =>
      rw [List.forall_mem_cons] at known
      rw [List.append_cons]
      exact ih (collisionFree.deliver chronological (.inl known.1))
        fun other inside => (known.2 other inside).mono (List.prefix_append _ _)

end CollisionFree

/-- The commit finds at most one ancestor that is not delivered yet, and it collects that one. -/
def Core.FindsOne (setup : Setup) (core : Core) (b0 : Block) : Prop :=
  ∃ parent, setup.parentOf core.store b0 = some parent ∧
    (Known core.txCommit parent.digest ∨ core.lastCommittedRound + 1 < b0.round ∧
      ∃ grandparent, setup.parentOf core.store parent = some grandparent ∧
        Known core.txCommit grandparent.digest)

/-- An executable form of the condition. -/
def Core.findsOne (setup : Setup) (core : Core) (b0 : Block) : Bool :=
  let known (block : Block) : Bool := decide (block.digest = Block.genesis.digest) ||
    decide (block.digest ∈ core.txCommit.map Block.digest)
  match setup.parentOf core.store b0 with
  | none => false
  | some parent => known parent || decide (core.lastCommittedRound + 1 < b0.round) &&
      (setup.parentOf core.store parent).any known

/-- The computed check implies the condition. -/
theorem Core.findsOne_sound {core : Core} {b0 : Block} (finds : core.findsOne setup b0 = true) :
    core.FindsOne setup b0 := by
  unfold findsOne at finds
  split at finds
  · cases finds
  · rename_i parent isParent
    refine ⟨parent, isParent, ?_⟩
    simpa [Known, Option.any_eq_true, decide_eq_true_iff] using finds

/-- The condition looks only at what the commit reads. -/
theorem Core.findsOne_reads : Core.ReadsDelivery (Core.FindsOne setup) := by
  intro core later b0 store lastCommittedRound txCommit finds
  unfold FindsOne
  rw [store, lastCommittedRound, txCommit]
  exact finds

/-- A commit that finds at most one new ancestor keeps the order. -/
theorem CollisionFree.commit (collisionFree : CollisionFree) {core : Core} (stocked : core.Stocked)
    (chronological : Chronological setup core.txCommit) {b0 : Block} {ancestors : List Block}
    (finds : core.FindsOne setup b0)
    (collects : Collects setup core.store core.lastCommittedRound b0 ancestors) :
    Chronological setup (core.txCommit ++ (ancestors ++ [b0])) := by
  obtain ⟨parent, isParent, known⟩ := finds
  have reads := collisionFree.reads stocked isParent
  rw [← List.append_assoc]
  cases collects with
  | stop reached =>
      rw [List.append_nil]
      have parentKnown := known.resolve_right fun further => reached further.1
      exact collisionFree.deliver chronological (.inr ⟨parent, reads, parentKnown⟩)
  | more above found collects =>
      rw [isParent] at found
      cases found
      have first : Chronological setup (core.txCommit ++ [parent]) := by
        apply collisionFree.deliver chronological
        apply known.imp_right
        rintro ⟨_, grandparent, found, isKnown⟩
        exact ⟨grandparent, collisionFree.reads stocked found, isKnown⟩
      have parentKnown : Known (core.txCommit ++ [parent]) parent.digest :=
        .inr (List.mem_map_of_mem (List.mem_append_right _ (List.mem_singleton.mpr rfl)))
      rename_i rest
      have walked := collisionFree.deliver_known first
        (collisionFree.collects_known stocked first collects parentKnown)
      have regrouped : core.txCommit ++ parent :: rest ++ [b0] =
          core.txCommit ++ [parent] ++ rest ++ [b0] := by simp
      rw [regrouped]
      exact collisionFree.deliver walked
        (.inr ⟨parent, reads, parentKnown.mono (List.prefix_append _ _)⟩)

/-- What has an ancestor is the digest of a block. -/
theorem Ancestor.child {ancestor last : Digest} (descends : Ancestor ancestor last) :
    ∃ block : Block, block.digest = last := by
  cases descends with
  | single link =>
      obtain ⟨block, isChild, _⟩ := link
      exact ⟨block, isChild⟩
  | tail _ link =>
      obtain ⟨block, isChild, _⟩ := link
      exact ⟨block, isChild⟩

/-- The parent of a delivered block is genesis or delivered before. -/
theorem CollisionFree.parent_first (collisionFree : CollisionFree) {delivered : List Block}
    (chronological : Chronological setup delivered) {parent last : Digest}
    (link : Parent parent last) (notGenesis : last ≠ Block.genesis.digest)
    (inside : last ∈ delivered.map Block.digest) (isBlock : ∃ block : Block, block.digest = parent) :
    parent = Block.genesis.digest ∨
      firstDelivery delivered parent < firstDelivery delivered last := by
  obtain ⟨block, isInside, rfl⟩ := List.mem_map.mp inside
  cases collisionFree.parent_unique link ⟨block, rfl, rfl⟩
  apply (chronological.linked block isInside notGenesis).imp_right
  intro later
  apply later.resolve_left
  rintro ⟨bytes, isBatch⟩
  obtain ⟨parent, isParent⟩ := isBlock
  exact collisionFree.batch_parent isBatch isParent

/-- In a chronological delivery a block comes after all its proper ancestors but genesis. -/
theorem CollisionFree.ancestor_first (collisionFree : CollisionFree) {delivered : List Block}
    (chronological : Chronological setup delivered) {ancestor : Block} {last : Digest}
    (descends : Ancestor ancestor.digest last)
    (notGenesis : ancestor.digest ≠ Block.genesis.digest)
    (inside : last ∈ delivered.map Block.digest) :
    firstDelivery delivered ancestor.digest < firstDelivery delivered last := by
  have below {last : Digest} (descends : Ancestor ancestor.digest last) :
      last ≠ Block.genesis.digest := by
    rintro rfl
    exact notGenesis (collisionFree.ancestor_genesis descends)
  induction descends with
  | single link =>
      exact (collisionFree.parent_first chronological link (below (.single link)) inside
        ⟨ancestor, rfl⟩).resolve_left notGenesis
  | tail descends link ih =>
      have earlier := (collisionFree.parent_first chronological link
        (below (.tail descends link)) inside (Ancestor.child descends)).resolve_left (below descends)
      have within := earlier.trans (firstDelivery_lt.mpr inside)
      exact (ih (firstDelivery_lt.mp within)).trans earlier

/-- A step delivers a block after its parent where the commit finds one block. -/
theorem Core.Step.chronological {around : Surroundings} {core after : Core}
    (step : Core.Step setup name around core after) (collisionFree : CollisionFree)
    (stocked : core.Stocked) (chronological : Chronological setup core.txCommit)
    (finds : ∀ core b0, around.commits core b0 → core.FindsOne setup b0) :
    Chronological setup after.txCommit := by
  obtain ⟨same, _⟩ | ⟨b0, ancestors, _, commits, _, collects, _, delivered⟩ := step.commit_cases
  · rw [same]
    exact chronological
  · rw [delivered]
    exact collisionFree.commit stocked chronological (finds core b0 commits) collects

/-- A failed handler keeps the order of delivery. -/
theorem Core.Fault.chronological {core after : Core} (fault : Core.Fault setup core after)
    (chronological : Chronological setup core.txCommit) : Chronological setup after.txCommit := by
  rw [fault.same]
  exact chronological

/-- Nothing is delivered at the boot. -/
theorem Core.boot_chronological : Chronological setup (Core.boot setup name).txCommit := by
  have empty : (Core.boot setup name).txCommit = [] :=
    (Core.proposeAsLeader_books setup name .new none).txCommit
  rw [empty]
  exact ⟨fun _ => (nomatch ·), fun _ => (nomatch ·)⟩

/-- While each commit finds at most one ancestor that is not delivered yet, and collects it, every
proper ancestor of a delivered block but genesis is delivered, and before the block. -/
theorem delivery_order (collisionFree : CollisionFree) (setup : Setup) (name : PublicKey)
    (events : List Event) (node : Node)
    (run : (Node.machine setup name).Run (fun node event =>
      node.CommitsMeet setup (Core.FindsOne setup) event) events node)
    (ancestor block : Block) (delivered : block ∈ node.core.txCommit)
    (notGenesis : ancestor.digest ≠ Block.genesis.digest)
    (descends : Ancestor ancestor.digest block.digest) :
    firstDelivery node.core.txCommit ancestor.digest <
      firstDelivery node.core.txCommit block.digest := by
  obtain ⟨_, chronological⟩ := Node.run_core (committing (Core.FindsOne setup)) run
    (fun core => core.Regular setup name ∧ Chronological setup core.txCommit)
    ⟨Core.boot_regular, Core.boot_chronological⟩
    (fun node event _ _ meets => meets.permits Core.findsOne_reads)
    (fun _ _ step holds => ⟨step.regular holds.1,
      step.chronological collisionFree holds.1.stocked holds.2 fun _ _ => id⟩)
    (fun _ _ fault holds => ⟨fault.regular holds.1, fault.chronological holds.2⟩)
  exact collisionFree.ancestor_first chronological descends notGenesis (List.mem_map_of_mem delivered)

end

namespace Plain

def roundOne : Block := propose .genesis none 1 1
def roundThree : Block := propose (certify roundOne) (some (expire 2 1)) 3 3

/-- The second round has no block, and the block of the third round commits with its parent. -/
def gapRun : List Event :=
  let roundFour := propose (certify roundThree) none 0 4
  [roundOne, roundThree, roundFour, propose (certify roundFour) none 1 5].map
    fun block => .message (.propose block)

/-- The block of round one is an ancestor of the block of round three. -/
theorem roundOne_below : Ancestor roundOne.digest roundThree.digest :=
  .single ⟨roundThree, rfl, if_neg (by decide)⟩

/-- A node of the run with a gap delivers the two blocks in order. -/
theorem delivery_order_gapRun : ∃ node : Node,
    (Node.machine four.setup (2 : Nat)).execute (Node.boot four.setup (2 : Nat)) gapRun =
      some node ∧
    node.core.txCommit.map Block.round = [1, 3] ∧
      firstDelivery node.core.txCommit roundOne.digest <
        firstDelivery node.core.txCommit roundThree.digest := by
  have taken : ((Node.machine four.setup (2 : Nat)).execute (Node.boot four.setup (2 : Nat))
      gapRun).map (fun node => decide (node.core.txCommit.map Block.round = [1, 3] ∧
        roundThree.digest ∈ node.core.txCommit.map Block.digest)) = some true := by
    decide +kernel
  obtain ⟨node, executed, observed⟩ := Option.map_eq_some_iff.mp taken
  obtain ⟨rounds, inside⟩ := of_decide_eq_true observed
  obtain ⟨block, delivered, same⟩ := List.mem_map.mp inside
  have passes : (Node.machine four.setup (2 : Nat)).Run (fun node event =>
      node.commitsPass four.setup (Core.findsOne four.setup) event = true) gapRun node :=
    .of_execute (by decide +kernel) executed
  have run := passes.weaken fun _ _ => Node.commitsMeet_of_pass fun _ _ => Core.findsOne_sound
  refine ⟨node, executed, rounds, ?_⟩
  rw [← same]
  exact delivery_order collisionFree four.setup (2 : Nat) gapRun node run roundOne block delivered
    (by decide) (same ▸ roundOne_below)

/-- Neither the second nor the fourth round has a block, and the block of the fifth round commits
with two ancestors. -/
def doubleGapRun : List Event :=
  let roundFive := propose (certify roundThree) (some (expire 4 3)) 1 5
  let roundSix := propose (certify roundFive) (some (expire 5 5)) 2 6
  [roundOne, roundThree, roundFive, roundSix,
    propose (certify roundSix) (some (expire 6 6)) 3 7].map fun block => .message (.propose block)

/-- Of two ancestors that are committed together the younger one is delivered first. -/
theorem delivery_order_fails : ∃ node, (Node.machine four.setup (0 : Nat)).Run
      (fun _ event => event.certified four.setup.committee = true) doubleGapRun node ∧
    ∃ ancestor ∈ node.core.txCommit, ∃ block ∈ node.core.txCommit,
      ancestor.digest ≠ Block.genesis.digest ∧ Ancestor ancestor.digest block.digest ∧
      ¬ firstDelivery node.core.txCommit ancestor.digest <
        firstDelivery node.core.txCommit block.digest := by
  have taken : ((Node.machine four.setup (0 : Nat)).execute (Node.boot four.setup (0 : Nat))
      doubleGapRun).map (fun node => node.core.txCommit.map fun block => block.digest) =
        some [roundThree.digest, roundOne.digest,
          (propose (certify roundThree) (some (expire 4 3)) 1 5).digest] := by
    decide +kernel
  obtain ⟨node, executed, observed⟩ := Option.map_eq_some_iff.mp taken
  have digests : node.core.txCommit.map Block.digest = [roundThree.digest, roundOne.digest,
      (propose (certify roundThree) (some (expire 4 3)) 1 5).digest] := observed
  obtain ⟨block, delivered, isThree⟩ :=
    List.mem_map.mp (digests ▸ List.mem_cons_self .. : roundThree.digest ∈ node.core.txCommit.map _)
  obtain ⟨ancestor, delivered', isOne⟩ := List.mem_map.mp
    (digests ▸ List.mem_cons_of_mem _ (List.mem_cons_self ..) :
      roundOne.digest ∈ node.core.txCommit.map _)
  refine ⟨node, .of_execute (by decide +kernel) executed, ancestor, delivered', block, delivered,
    ?_, ?_, ?_⟩
  · rw [isOne]
    decide
  · rw [isOne, isThree]
    exact roundOne_below
  · rw [isOne, isThree]
    unfold firstDelivery
    rw [digests]
    decide

end Plain

end DeflHotstuff
