import DeflHotstuff.Construction.Chain
import DeflHotstuff.Proof.Evidence

namespace DeflHotstuff

open Verification

variable [Crypto] {setup : Setup} {name : PublicKey} {around : Surroundings}

/-- A value that is read stands in the store under its key. -/
theorem Store.mem_of_read {store : Store} {key : Digest} {value : Value}
    (found : store.read key = some value) : (key, value) ∈ store.entries := by
  obtain ⟨before, after, entries, _⟩ := List.lookup_eq_some_iff.mp found
  rw [entries]
  simp

namespace Core

/-- The parent of the block is genesis or in the store. -/
def Rooted (core : Core) (block : Block) : Prop :=
  (block.qc == QC.genesis) = true ∨ (core.store.read block.parent).isSome

/-- A stored batch has its own digest, and a stored block has its own digest and its parent. -/
inductive Kept (core : Core) : Digest → Value → Prop
  | batch (bytes : List UInt8) : Kept core (sha512 (.batch bytes)) (.batch bytes)
  | block (block : Block) (trusted : core.Trusted block) (rooted : core.Rooted block) :
      Kept core block.digest (.block block)

/-- The block that the core read as a parent. A batch may decode as a block. -/
inductive IsParent (core : Core) (child parent : Block) : Prop
  | genesis (embedded : (child.qc == QC.genesis) = true) (same : parent = .genesis)
  | stored (embedded : (child.qc == QC.genesis) = false) (digest : parent.digest = child.parent)
      (trusted : core.Trusted parent) (rooted : core.Rooted parent)
  | batch (embedded : (child.qc == QC.genesis) = false) (bytes : List UInt8)
      (digest : child.parent = sha512 (.batch bytes))

/-- The store holds only what the core put there, and the record of processed blocks agrees. -/
structure Stocked (core : Core) : Prop where
  entries : ∀ key value, (key, value) ∈ core.store.entries → core.Kept key value
  processed : ∀ b0 b1 block, .processed b0 b1 block ∈ core.history →
    core.Trusted block ∧ core.IsParent block b1 ∧ core.IsParent b1 b0
  committed : ∀ b0, .committed b0 ∈ core.history →
    ∃ b1 block, .processed b0 b1 block ∈ core.history ∧ b0.round + 1 = b1.round

/-- A later state of the core keeps the record and every key of the store. -/
structure Keeps (core after : Core) : Prop where
  history : ∀ action ∈ core.history, action ∈ after.history
  store : ∀ key, (core.store.read key).isSome → (after.store.read key).isSome

/-- Every core keeps what it has. -/
theorem Keeps.refl (core : Core) : core.Keeps core := ⟨fun _ => id, fun _ => id⟩

/-- What is kept twice is kept. -/
theorem Keeps.trans {core middle after : Core} (first : core.Keeps middle)
    (second : middle.Keeps after) : core.Keeps after where
  history action inside := second.history action (first.history action inside)
  store key present := second.store key (first.store key present)

/-- A rooted block stays rooted. -/
theorem Rooted.mono {core after : Core} {block : Block} (rooted : core.Rooted block)
    (keeps : Keeps core after) : after.Rooted block :=
  rooted.imp_right (keeps.store _)

/-- A kept value stays kept. -/
theorem Kept.mono {core after : Core} {key : Digest} {value : Value}
    (kept : core.Kept key value) (keeps : Keeps core after) : after.Kept key value := by
  cases kept with
  | batch bytes => exact .batch bytes
  | block block trusted rooted =>
      exact .block block (trusted.mono keeps.history) (rooted.mono keeps)

/-- A parent that the core reads stays the parent. -/
theorem IsParent.mono {core after : Core} {child parent : Block}
    (isParent : core.IsParent child parent) (keeps : Keeps core after) :
    after.IsParent child parent := by
  cases isParent with
  | genesis embedded same => exact .genesis embedded same
  | stored embedded digest trusted rooted =>
      exact .stored embedded digest (trusted.mono keeps.history) (rooted.mono keeps)
  | batch embedded bytes digest => exact .batch embedded bytes digest

/-- What `get_parent_block` reads is the parent. -/
theorem Stocked.parentOf {core : Core} (stocked : core.Stocked) {child parent : Block}
    (found : setup.parentOf core.store child = some parent) : core.IsParent child parent := by
  unfold Setup.parentOf at found
  split at found
  · rename_i embedded
    cases found
    exact .genesis embedded rfl
  · rename_i embedded
    have isNot := Bool.eq_false_of_not_eq_true embedded
    obtain ⟨value, present, decoded⟩ := Option.bind_eq_some_iff.mp found
    have kept := stocked.entries _ _ (Store.mem_of_read present)
    generalize isKey : child.parent = key at kept
    cases kept with
    | batch bytes => exact .batch isNot bytes isKey
    | block block trusted rooted =>
        cases decoded
        exact .stored isNot isKey.symm trusted rooted

/-- A step writes the block that it processes or a batch, and nothing else. -/
theorem Step.store_cases {core after : Core} (step : Step setup name around core after) :
    after.store = core.store ∨
      (∃ b0 b1 block, ((.accepted block ∈ core.history ∧
          ∀ digest ∈ block.payload, (core.store.read digest).isSome) ∨
          .resumed block ∈ core.history) ∧
        setup.parentOf core.store block = some b1 ∧ setup.parentOf core.store b1 = some b0 ∧
        after.store = core.store.write block.digest (.block block)) ∨
      ∃ bytes, after.store = core.store.write (sha512 (.batch bytes)) (.batch bytes) := by
  have sameBooks {after : Core} (books : SameBooks core after) : after.store = core.store :=
    books.store
  cases step with
  | accept block => exact .inl (sameBooks (accept_books ..))
  | process b0 b1 block handed parent grandparent =>
      exact .inr (.inl ⟨b0, b1, block, handed, parent, grandparent, rfl⟩)
  | assembleQc vote qc => exact .inl (sameBooks (assembleQc_books ..))
  | collectTimeout timeout => exact .inl (sameBooks (collectTimeout_books ..))
  | assembleTc timeout tc => exact .inl (sameBooks (assembleTc_books ..))
  | takeTc tc => exact .inl (sameBooks (takeTc_books ..))
  | storeBatch bytes => exact .inr (.inr ⟨bytes, rfl⟩)
  | _ => exact .inl rfl

/-- The child of a parent that was read is rooted. -/
theorem rooted_of_parentOf {core : Core} {child parent : Block}
    (found : setup.parentOf core.store child = some parent) : core.Rooted child := by
  unfold Setup.parentOf at found
  split at found
  · rename_i embedded
    exact .inl embedded
  · obtain ⟨value, present, _⟩ := Option.bind_eq_some_iff.mp found
    right
    rw [present]
    rfl

/-- A step keeps the record and the store. -/
theorem Step.keeps {core after : Core} (step : Step setup name around core after) :
    Keeps core after where
  history _ := step.history_subset
  store key present := by
    obtain same | ⟨_, _, block, _, _, _, written⟩ | ⟨bytes, written⟩ := step.store_cases
    · rw [same]
      exact present
    · rw [written]
      exact core.store.read_write_isSome _ _ _ present
    · rw [written]
      exact core.store.read_write_isSome _ _ _ present

/-- A step stores a block under its digest. -/
theorem Step.stocked {core after : Core} (step : Step setup name around core after)
    (tracked : core.Tracked name) (stocked : core.Stocked) : after.Stocked := by
  have keeps := step.keeps
  constructor
  · intro key value inside
    obtain same | ⟨b0, b1, block, handed, parent, _, written⟩ | ⟨bytes, written⟩ := step.store_cases
    · exact (stocked.entries key value (same ▸ inside)).mono keeps
    · rw [written] at inside
      rcases List.mem_cons.mp inside with new | old
      · cases new
        exact .block block ((tracked.handed (handed.imp_left And.left)).mono keeps.history)
          ((rooted_of_parentOf parent).mono keeps)
      · exact (stocked.entries key value old).mono keeps
    · rw [written] at inside
      rcases List.mem_cons.mp inside with new | old
      · cases new
        exact .batch bytes
      · exact (stocked.entries key value old).mono keeps
  · intro b0 b1 block inside
    obtain old | ⟨handed, parent, grandparent⟩ := step.new_action inside
    · obtain ⟨trusted, parent, grandparent⟩ := stocked.processed b0 b1 block old
      exact ⟨trusted.mono keeps.history, parent.mono keeps, grandparent.mono keeps⟩
    · exact ⟨(tracked.handed (handed.imp_left And.left)).mono keeps.history,
        (stocked.parentOf parent).mono keeps, (stocked.parentOf grandparent).mono keeps⟩
  · intro b0 inside
    obtain old | ⟨b1, block, processed, consecutive⟩ := step.new_action inside
    · obtain ⟨b1, block, processed, consecutive⟩ := stocked.committed b0 old
      exact ⟨b1, block, keeps.history _ processed, consecutive⟩
    · exact ⟨b1, block, keeps.history _ processed, consecutive⟩

/-- A failed handler keeps the record and the store. -/
theorem Fault.keeps {core after : Core} (fault : Fault setup core after) : Keeps core after := by
  rw [fault.same]
  exact ⟨fun _ => id, fun _ => id⟩

/-- A failed handler leaves the store sound. -/
theorem Fault.stocked {core after : Core} (fault : Fault setup core after)
    (stocked : core.Stocked) : after.Stocked := by
  have keeps := fault.keeps
  have same : after.store = core.store ∧ after.history = core.history := by
    rw [fault.same]
    exact ⟨rfl, rfl⟩
  constructor
  · intro key value inside
    exact (stocked.entries key value (same.1 ▸ inside)).mono keeps
  · intro b0 b1 block inside
    obtain ⟨trusted, parent, grandparent⟩ := stocked.processed b0 b1 block (same.2 ▸ inside)
    exact ⟨trusted.mono keeps.history, parent.mono keeps, grandparent.mono keeps⟩
  · rw [same.2]
    exact stocked.committed

/-- The store is empty at the boot. -/
theorem boot_stocked : (boot setup name).Stocked := by
  constructor
  · intro key value inside
    have empty : (boot setup name).store = .new :=
      (proposeAsLeader_books setup name .new none).store
    rw [empty] at inside
    cases inside
  · intro b0 b1 block inside
    cases (mem_boot inside).1
  · intro b0 inside
    cases (mem_boot inside).1

/-- What holds of the core in every reachable state of a node, whatever arrives. -/
structure Regular (setup : Setup) (name : PublicKey) (core : Core) : Prop where
  tracked : core.Tracked name
  disciplined : core.Disciplined
  evidenced : core.Evidenced setup name
  stocked : core.Stocked

/-- A step keeps what holds of the core alone. -/
theorem Step.regular {core after : Core} (step : Step setup name around core after)
    (regular : core.Regular setup name) : after.Regular setup name where
  tracked := step.tracked regular.tracked
  disciplined := step.disciplined regular.tracked regular.disciplined
  evidenced := step.evidenced regular.evidenced
  stocked := step.stocked regular.tracked regular.stocked

/-- A failed handler keeps what holds of the core alone. -/
theorem Fault.regular {core after : Core} (fault : Fault setup core after)
    (regular : core.Regular setup name) : after.Regular setup name where
  tracked := fault.tracked regular.tracked
  disciplined := fault.disciplined regular.disciplined
  evidenced := fault.evidenced regular.evidenced
  stocked := fault.stocked regular.stocked

/-- What holds of the core alone holds at the boot. -/
theorem boot_regular : (boot setup name).Regular setup name :=
  ⟨boot_tracked, boot_disciplined, boot_evidenced, boot_stocked⟩

end Core

/-- What holds of the core alone holds in every reachable state. -/
theorem Node.reachable_regular {node : Node} (reachable : (machine setup name).Reachable node) :
    node.core.Regular setup name :=
  reachable_core reachable _ Core.boot_regular (fun _ _ step => step.regular)
    fun _ _ fault => fault.regular

end DeflHotstuff
