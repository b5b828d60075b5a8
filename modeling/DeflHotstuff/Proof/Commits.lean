import DeflHotstuff.Proof.Storage

namespace DeflHotstuff

open Verification

variable [Crypto] {setup : Setup} {name : PublicKey} {around : Surroundings}

/-- A step delivers blocks only in a commit, which raises the last committed round. -/
theorem Core.Step.commit_cases {core after : Core} (step : Step setup name around core after) :
    (after.txCommit = core.txCommit ∧ after.lastCommittedRound = core.lastCommittedRound) ∨
      ∃ b0 ancestors, .committed b0 ∈ core.history ∧ around.commits core b0 ∧
        core.lastCommittedRound < b0.round ∧
        Collects setup core.store core.lastCommittedRound b0 ancestors ∧
        after.lastCommittedRound = b0.round ∧
        after.txCommit = core.txCommit ++ (ancestors ++ [b0]) := by
  have sameBooks {after : Core} (books : SameBooks core after) :
      after.txCommit = core.txCommit ∧ after.lastCommittedRound = core.lastCommittedRound :=
    ⟨books.txCommit, books.lastCommittedRound⟩
  cases step with
  | accept block => exact .inl (sameBooks (accept_books ..))
  | commit b0 ancestors decided commits above collects =>
      exact .inr ⟨b0, ancestors, decided, commits, above, collects, rfl, rfl⟩
  | assembleQc vote qc => exact .inl (sameBooks (assembleQc_books ..))
  | collectTimeout timeout => exact .inl (sameBooks (collectTimeout_books ..))
  | assembleTc timeout tc => exact .inl (sameBooks (assembleTc_books ..))
  | takeTc tc => exact .inl (sameBooks (takeTc_books ..))
  | _ => exact .inl ⟨rfl, rfl⟩

/-- The event makes the core process the block. -/
inductive Node.Hands (setup : Setup) (node : Node) : Event → Block → Prop
  | proposal (block : Block) (ready : node.core.Ready setup block) :
      Hands setup node (.message (.propose block)) block
  | resumed (block : Block) (rest : List Block) (next : node.rxLoopback = block :: rest) :
      Hands setup node .loopback block

/-- Every commit above the last committed round that the event brings about meets the condition,
which is read after the block that completes the two-chain is stored. -/
def Node.CommitsMeet (setup : Setup) (meets : Core → Block → Prop) (node : Node) (event : Event) :
    Prop :=
  ∀ block b0, node.Hands setup event block → node.core.Decides setup block b0 →
    meets (node.core.storeBlock block) b0

/-- A condition on the store, the last committed round and the blocks delivered so far. -/
def Core.ReadsDelivery (meets : Core → Block → Prop) : Prop :=
  ∀ core later b0, later.store = core.store → later.lastCommittedRound = core.lastCommittedRound →
    later.txCommit = core.txCommit → meets core b0 → meets later b0

/-- The surroundings in which every commit meets the condition. -/
def committing (meets : Core → Block → Prop) : Surroundings :=
  { Node.unrestricted with commits := meets }

/-- A turn whose commits meet the condition permits such commits only. -/
theorem Node.CommitsMeet.permits {node : Node} {event : Event} {meets : Core → Block → Prop}
    (commitsMeet : node.CommitsMeet setup meets event) (reads : Core.ReadsDelivery meets) :
    node.Permits setup (committing meets) event := by
  have allows {block : Block} (hands : node.Hands setup event block) :
      (committing meets).Allows setup node.core block := by
    intro b0 later decides processing
    exact reads (node.core.storeBlock block) later b0 processing.store
      processing.lastCommittedRound processing.txCommit (commitsMeet block b0 hands decides)
  have anything : node.Permits setup Node.unrestricted event := permits_unrestricted node event
  exact { anything with
    proposes := by
      rintro block rfl ready
      exact allows (.proposal block ready)
    resumes := by
      rintro block rest rfl next
      exact allows (.resumed block rest next) }

/-- The block that the core takes from the event, if it passes its checks. -/
def Node.handed (node : Node) : Event → Option Block
  | .message (.propose block) => some block
  | .loopback => node.rxLoopback.head?
  | _ => none

/-- The head of the two-chain that the block completes. -/
def Core.decided (setup : Setup) (core : Core) (block : Block) : Option Block := do
  let b1 ← setup.parentOf core.store block
  let b0 ← setup.parentOf core.store b1
  if b0.round + 1 = b1.round ∧ core.lastCommittedRound < b0.round then some b0 else none

/-- An executable check of the commit that the event may bring about. -/
def Node.commitsPass (setup : Setup) (check : Core → Block → Bool) (node : Node) (event : Event) :
    Bool :=
  match node.handed event with
  | none => true
  | some block =>
      match node.core.decided setup block with
      | none => true
      | some b0 => check (node.core.storeBlock block) b0

/-- The block that the commit starts from is the computed one. -/
theorem Core.Decides.decided {core : Core} {block b0 : Block}
    (decides : core.Decides setup block b0) : core.decided setup block = some b0 := by
  obtain ⟨b1, parent, grandparent, consecutive, above⟩ := decides
  simp [Core.decided, parent, grandparent, consecutive, above]

/-- The block that the event hands over is the computed one. -/
theorem Node.Hands.handed {node : Node} {event : Event} {block : Block}
    (hands : node.Hands setup event block) : node.handed event = some block := by
  cases hands with
  | proposal block ready => rfl
  | resumed block rest next => simp [Node.handed, next]

/-- The executable check decides no less than the condition that it is sound for. -/
theorem Node.commitsMeet_of_pass {node : Node} {event : Event} {meets : Core → Block → Prop}
    {check : Core → Block → Bool} (sound : ∀ core b0, check core b0 = true → meets core b0)
    (pass : node.commitsPass setup check event = true) : node.CommitsMeet setup meets event := by
  intro block b0 hands decides
  apply sound
  unfold commitsPass at pass
  simpa only [hands.handed, decides.decided] using pass

end DeflHotstuff
