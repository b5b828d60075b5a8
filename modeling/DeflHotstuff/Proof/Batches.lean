import DeflHotstuff.Construction.Chain
import DeflHotstuff.Construction.Plain
import DeflHotstuff.Proof.Channel

namespace DeflHotstuff

open Verification

section

variable [Crypto] {setup : Setup} {name : PublicKey}

/-- The action changes the buffer of the proposer. -/
def Action.Buffers : Action → Prop
  | .announced _ => True
  | .cleaned _ => True
  | .built _ _ _ _ => True
  | _ => False

namespace Node

/-- A turn only adds to the record. -/
theorem Turn.history_prefix {node after : Node} {event : Event}
    (turn : Turn setup name node event after) (sound : node.Sound) :
    node.core.history <+: after.core.history :=
  turn.core_preserve (fun core => node.core.history <+: core.history) sound
    (permits_unrestricted node event) List.prefix_rfl
    (fun _ _ step grows => grows.trans step.history_prefix)
    fun _ _ fault grows => by
      rw [fault.same]
      exact grows

/-- Only the turns of the proposer change its buffer. -/
theorem Turn.untouched {node after : Node} {event : Event}
    (turn : Turn setup name node event after) (sound : node.Sound)
    (notDigest : ∀ index, event ≠ .digest index)
    (notProposer : ∀ drained, event ≠ .proposer drained) :
    after.proposer = node.proposer ∧
      ∀ action ∈ after.core.history, action.Buffers → action ∈ node.core.history := by
  let around : Surroundings :=
    { unrestricted with announces := fun _ _ => False, proposing := False }
  have permits : node.Permits setup around event :=
    { permits_unrestricted node event with
      announces := fun index _ isDigest => absurd isDigest (notDigest index)
      proposing := fun drained isProposer => absurd isProposer (notProposer drained) }
  constructor
  · cases turn with
    | message message => exact (runCore_same ..).1
    | loopback block rest => exact (runCore_same ..).1
    | timer => exact (runCore_same ..).1
    | digest index => exact absurd rfl (notDigest index)
    | clean drained => exact absurd rfl (notProposer drained)
    | build drained => exact absurd rfl (notProposer drained)
    | _ => rfl
  · refine turn.core_preserve (fun core => ∀ action ∈ core.history, action.Buffers →
      action ∈ node.core.history) sound permits (fun _ inside _ => inside) ?_ ?_
    · intro core after step holds action inside buffers
      obtain old | caused := step.new_action inside
      · exact holds action old buffers
      · cases action with
        | announced digest => exact caused.elim
        | cleaned digests => exact caused.1.elim
        | built sent qc tc block => exact caused.1.elim
        | _ => exact buffers.elim
    · intro core after fault holds
      rw [fault.same]
      exact holds

/-- A digest that the mempool announced is in the buffer, or a cleanup or an own block took it. -/
def Accounts (node : Node) : Prop :=
  ∀ digest, .announced digest ∈ node.core.history →
    digest ∈ node.proposer.buffer ∨ node.core.Cleaned digest ∨
      ∃ sent qc tc block, .built sent qc tc block ∈ node.core.history ∧ digest ∈ block.payload

/-- A turn keeps every announced digest accounted for. -/
theorem Turn.accounts {node after : Node} {event : Event}
    (turn : Turn setup name node event after) (sound : node.Sound) (accounts : node.Accounts) :
    after.Accounts := by
  have grows := turn.history_prefix sound
  have keeps : ∀ action ∈ node.core.history, action ∈ after.core.history :=
    fun _ inside => grows.subset inside
  have untouched := turn.untouched sound
  -- a digest that had left the buffer before is accounted for as before
  have taken {digest : Digest} (gone : node.core.Cleaned digest ∨ ∃ sent qc tc block,
      .built sent qc tc block ∈ node.core.history ∧ digest ∈ block.payload) :
      after.core.Cleaned digest ∨ ∃ sent qc tc block,
        .built sent qc tc block ∈ after.core.history ∧ digest ∈ block.payload :=
    gone.imp (Core.Cleaned.mono · keeps) fun ⟨sent, qc, tc, block, built, inside⟩ =>
      ⟨sent, qc, tc, block, keeps _ built, inside⟩
  intro digest announced
  cases turn with
  | digest index arrived next =>
      obtain old | new := Core.mem_history_append announced
      · exact (accounts digest old).imp (List.mem_insert_of_mem ·) taken
      · cases new
        exact .inl List.mem_insert_self
  | clean drained sent digests rest next =>
      obtain old | new := Core.mem_history_append announced
      · rcases accounts digest old with buffered | gone
        · by_cases named : digest ∈ digests
          · exact .inr (.inl ⟨digests, List.mem_append_right _ (List.mem_singleton.mpr rfl), named⟩)
          · exact .inl (List.mem_filter.mpr ⟨buffered, by simpa using named⟩)
        · exact .inr (taken gone)
      · cases new
  | skip drained sent round qc rest late empty next =>
      exact (accounts digest announced).imp_right taken
  | build drained sent round qc tc rest drains full next =>
      obtain old | new := Core.mem_history_append announced
      · rcases accounts digest old with buffered | gone
        · refine .inr (.inr ⟨_, _, _, _, List.mem_append_right _ (List.mem_singleton.mpr rfl), ?_⟩)
          exact drains.mem_iff.mpr buffered
        · exact .inr (taken gone)
      · cases new
  | _ =>
      obtain ⟨same, only⟩ := untouched (fun _ => (nomatch ·)) (fun _ => (nomatch ·))
      rw [same]
      exact (accounts digest (only _ announced trivial)).imp_right taken

/-- In every reachable state every announced digest is accounted for. -/
theorem reachable_accounts {node : Node} (reachable : (machine setup name).Reachable node) :
    node.Accounts := by
  apply reachable.invariant Accounts
  · intro digest announced
    cases (Core.mem_boot announced).1
  · intro node event after reached accounts steps
    exact (step_turn steps).accounts (reachable_sound reached) accounts

end Node

/-- When the proposer builds a block, every digest that the mempool announced before is in its
payload, or in the payload of an earlier own block, or in the payload of a block that the core
processed or of its parent or grandparent. -/
theorem batches_kept (setup : Setup) (name : PublicKey) (node after : Node)
    (reachable : (Node.machine setup name).Reachable node) (drained : List Digest)
    (steps : node.step setup name (.proposer drained) = some after) (sent : Nat) (qc : QC)
    (tc : Option TC) (block : Block)
    (builds : after.core.history = node.core.history ++ [.built sent qc tc block])
    (digest : Digest) (announced : .announced digest ∈ node.core.history) :
    digest ∈ block.payload ∨
      (∃ sent qc tc earlier, .built sent qc tc earlier ∈ node.core.history ∧
        digest ∈ earlier.payload) ∨
      ∃ b0 b1 processed, .processed b0 b1 processed ∈ node.core.history ∧
        digest ∈ b0.payload ++ b1.payload ++ processed.payload := by
  rcases Node.reachable_accounts reachable digest announced with
    buffered | ⟨digests, cleaned, named⟩ | built
  · left
    cases Node.step_turn steps with
    | clean _ stamp digests rest next =>
        cases List.append_cancel_left builds
    | skip _ stamp round qc' rest late empty next =>
        exact absurd builds (by simp)
    | build _ stamp round qc' tc' rest drains full next =>
        cases List.append_cancel_left builds
        exact drains.mem_iff.mpr buffered
  · obtain ⟨b0, b1, processed, recorded, rfl⟩ :=
      (Node.reachable_channelled reachable).cleaned digests cleaned
    exact .inr (.inr ⟨b0, b1, processed, recorded, named⟩)
  · exact .inr (.inl built)

end

namespace Plain

/-- The round, the payload and the parent of the block that the node recorded last. -/
def lastBuilt (node : Node) : Option (Nat × List (List Nat) × List Nat) :=
  node.core.history.getLast?.bind fun action => match action with
    | .built _ _ _ block => some (block.round, block.payload, block.qc.hash)
    | _ => none

def announces (digest : Digest) : Action → Bool
  | .announced other => decide (other = digest)
  | _ => false

/-- The first leader builds a block with its batch, and the next four rounds pass by a timeout. -/
def abandonedRun : List Event :=
  [.batch [7], .digest 0, .proposer [hash (.batch [7])], .message (.tc (expire 4 0))]

/-- After the view change the leader builds an empty block on genesis. -/
theorem abandonedRun_builds : ∃ node after : Node,
    (Node.machine four.setup (1 : Nat)).execute (Node.boot four.setup (1 : Nat)) abandonedRun =
      some node ∧
    node.step four.setup (1 : Nat) (.proposer []) = some after ∧
    .announced (hash (.batch [7])) ∈ node.core.history ∧ ∃ sent qc tc block,
      after.core.history = node.core.history ++ [.built sent qc tc block] ∧
      block.payload = [] ∧ block.qc.hash = default := by
  have taken : ((Node.machine four.setup (1 : Nat)).execute (Node.boot four.setup (1 : Nat))
      abandonedRun).bind (fun node =>
        (node.step four.setup (1 : Nat) (.proposer [])).map fun after =>
          decide (lastBuilt node = none ∧ lastBuilt after = some (5, [], []) ∧
            node.core.history.any (announces (hash (.batch [7]))) = true)) = some true := by
    decide +kernel
  obtain ⟨node, executed, taken⟩ := Option.bind_eq_some_iff.mp taken
  obtain ⟨after, steps, observed⟩ := Option.map_eq_some_iff.mp taken
  obtain ⟨notBuilt, isBuilt, announced⟩ := of_decide_eq_true observed
  refine ⟨node, after, executed, steps, ?_, ?_⟩
  · obtain ⟨action, recorded, isDigest⟩ := List.any_eq_true.mp announced
    cases action with
    | announced digest =>
        cases of_decide_eq_true isDigest
        exact recorded
    | _ => cases isDigest
  · cases Node.step_turn steps with
    | clean _ sent digests rest next => simp [lastBuilt] at isBuilt
    | skip _ sent round qc rest late empty next =>
        change lastBuilt node = _ at isBuilt
        rw [notBuilt] at isBuilt
        cases isBuilt
    | build _ sent round qc tc rest drains full next =>
        simp only [lastBuilt, Core.record_history, List.getLast?_append, List.getLast?_singleton,
          Option.some_or, Option.bind_some, Option.some.injEq, Prod.mk.injEq] at isBuilt
        exact ⟨sent, qc, tc, _, rfl, isBuilt.2.1, isBuilt.2.2⟩

/-- The next block of the leader is empty, and the batch is accounted for by an earlier one. -/
theorem batches_kept_abandoned : ∃ (node after : Node) (sent : Nat) (qc : QC) (tc : Option TC)
    (block : Block),
    (Node.machine four.setup (1 : Nat)).execute (Node.boot four.setup (1 : Nat)) abandonedRun =
      some node ∧
    node.step four.setup (1 : Nat) (.proposer []) = some after ∧
    after.core.history = node.core.history ++ [.built sent qc tc block] ∧ block.payload = [] ∧
    .announced (hash (.batch [7])) ∈ node.core.history ∧
    (hash (.batch [7]) ∈ block.payload ∨
      (∃ sent qc tc earlier, .built sent qc tc earlier ∈ node.core.history ∧
        hash (.batch [7]) ∈ earlier.payload) ∨
      ∃ b0 b1 processed, .processed b0 b1 processed ∈ node.core.history ∧
        hash (.batch [7]) ∈ b0.payload ++ b1.payload ++ processed.payload) := by
  obtain ⟨node, after, executed, steps, announced, sent, qc, tc, block, builds, empty, _⟩ :=
    abandonedRun_builds
  exact ⟨node, after, sent, qc, tc, block, executed, steps, builds, empty, announced,
    batches_kept four.setup (1 : Nat) node after (.execute executed) [] steps sent qc tc block
      builds _ announced⟩

/-- The batch of the abandoned block is neither in the next own block nor on the chain below. -/
theorem batches_kept_fails : ∃ (node after : Node) (sent : Nat) (qc : QC) (tc : Option TC)
    (block : Block) (digest : Digest), (Node.machine four.setup (1 : Nat)).Reachable node ∧
      node.step four.setup (1 : Nat) (.proposer []) = some after ∧
      after.core.history = node.core.history ++ [.built sent qc tc block] ∧
      .announced digest ∈ node.core.history ∧ digest ∉ block.payload ∧
      ∀ carrier : Block, carrier.digest = block.parentDigest ∨
        Ancestor carrier.digest block.parentDigest → digest ∉ carrier.payload := by
  obtain ⟨node, after, executed, steps, announced, sent, qc, tc, block, builds, empty, onGenesis⟩ :=
    abandonedRun_builds
  refine ⟨node, after, sent, qc, tc, block, _, .execute executed, steps, builds, announced, ?_, ?_⟩
  · simp [empty]
  · intro carrier onChain inside
    have isParent : block.parentDigest = Block.genesis.digest := if_pos onGenesis
    rw [isParent] at onChain
    have isGenesis : carrier.digest = Block.genesis.digest :=
      onChain.elim id collisionFree.ancestor_genesis
    rw [(collisionFree.block_digest isGenesis).2.2.1] at inside
    cases inside

end Plain

end DeflHotstuff
