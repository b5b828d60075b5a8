import DeflHotstuff.Proof.Handlers
import DeflHotstuff.Construction.System
import DeflHotstuff.Proof.Turns

namespace DeflHotstuff

open Verification

variable [Crypto] {setup : Setup} {name : PublicKey} {around : Surroundings}

namespace Core

/-- A checked block stays checked. -/
theorem Trusted.mono {core after : Core} {block : Block} (trusted : core.Trusted block)
    (keeps : ∀ action ∈ core.history, action ∈ after.history) : after.Trusted block :=
  trusted.imp (keeps _) fun ⟨sent, qc, tc, built⟩ => ⟨sent, qc, tc, keeps _ built⟩

/-- The queues of the two waiters grow by blocks that the core handles. The payload of a suspended
block is present, or the digests that are awaited cover the rest of it. -/
structure Queues (core after : Core) : Prop where
  inner : ∀ block ∈ after.innerChannel, block ∈ core.innerChannel ∨
    (.accepted block ∈ core.history ∧
      ∀ digest ∈ block.payload, (core.store.read digest).isSome) ∨ .resumed block ∈ core.history
  awaited : ∀ missing block, .wait missing block ∈ after.txPayloadWaiter →
    .wait missing block ∈ core.txPayloadWaiter ∨ .accepted block ∈ core.history ∧
      ∀ digest ∈ block.payload, digest ∈ missing ∨ (core.store.read digest).isSome

/-- A step of the core queues only blocks that it handles. -/
theorem Step.queued {core after : Core} (step : Step setup name around core after) :
    core.Queues after := by
  have unchanged {after : Core} (inner : after.innerChannel = core.innerChannel)
      (awaits : after.txPayloadWaiter = core.txPayloadWaiter) : core.Queues after := by
    constructor
    · rw [inner]
      exact fun _ => .inl
    · rw [awaits]
      exact fun _ _ => .inl
  have sameBooks {after : Core} (books : SameBooks core after) :=
    unchanged books.innerChannel books.txPayloadWaiter
  cases step with
  | suspend block handed =>
      refine ⟨fun other inside => ?_, fun _ _ => .inl⟩
      rcases List.mem_append.mp inside with old | new
      · exact .inl old
      · cases List.mem_singleton.mp new
        exact .inr handed
  | accept block => exact sameBooks (accept_books ..)
  | awaitPayload block missing accepted absent =>
      refine ⟨fun _ => .inl, fun other awaited inside => ?_⟩
      rcases List.mem_append.mp inside with old | new
      · exact .inl old
      · cases List.mem_singleton.mp new
        refine .inr ⟨accepted, fun digest inside => ?_⟩
        cases present : core.store.read digest with
        | some value => exact .inr rfl
        | none =>
            left
            rw [absent, List.mem_filter, present]
            exact ⟨inside, rfl⟩
  | decide b0 b1 block =>
      refine ⟨fun _ => .inl, fun missing awaited inside => ?_⟩
      rcases List.mem_append.mp inside with old | new
      · exact .inl old
      · cases List.mem_singleton.mp new
  | assembleQc vote qc => exact sameBooks (assembleQc_books ..)
  | collectTimeout timeout => exact sameBooks (collectTimeout_books ..)
  | assembleTc timeout tc => exact sameBooks (assembleTc_books ..)
  | takeTc tc => exact sameBooks (takeTc_books ..)
  | awaited message rest next =>
      refine ⟨fun _ => .inl, fun missing block inside => .inl ?_⟩
      rw [next]
      exact List.mem_cons_of_mem _ inside
  | suspended block rest next =>
      refine ⟨fun other inside => .inl ?_, fun _ _ => .inl⟩
      rw [next]
      exact List.mem_cons_of_mem _ inside
  | _ => exact unchanged rfl rfl

/-- Blocks that are resumed or wait in a queue of the core have been checked or built here. -/
structure Settled (core : Core) : Prop where
  resumed : ∀ block, .resumed block ∈ core.history → core.Trusted block
  inner : ∀ block ∈ core.innerChannel, core.Trusted block
  awaited : ∀ missing block, .wait missing block ∈ core.txPayloadWaiter → core.Trusted block

/-- A handed block was checked or built here. -/
theorem Settled.handed {core : Core} (settled : core.Settled) {block : Block}
    (handed : core.Handed block) : core.Trusted block :=
  handed.elim .inl (settled.resumed block)

/-- A step resumes and queues checked blocks only. -/
theorem Step.settled {core after : Core} (step : Step setup name around core after)
    (settled : core.Settled) : after.Settled := by
  have keeps : ∀ action ∈ core.history, action ∈ after.history := fun _ => step.history_subset
  obtain ⟨inner, awaited⟩ := step.queued
  constructor
  · intro block resumed
    obtain old | trusted := step.new_action resumed
    · exact (settled.resumed block old).mono keeps
    · exact Trusted.mono trusted.1 keeps
  · intro block inside
    obtain old | handed := inner block inside
    · exact (settled.inner block old).mono keeps
    · exact (settled.handed (handed.imp_left And.left)).mono keeps
  · intro missing block inside
    obtain old | accepted := awaited missing block inside
    · exact (settled.awaited missing block old).mono keeps
    · exact Trusted.mono (.inl accepted.1) keeps

/-- A fault only adds a block to the inner channel. -/
theorem Fault.same {core after : Core} (fault : Fault setup core after) :
    after = { core with innerChannel := after.innerChannel } := by
  cases fault <;> rfl

end Core

/-- The event meets the condition in the state before it. -/
structure Node.Permits (setup : Setup) (around : Surroundings) (node : Node) (event : Event) :
    Prop where
  arrives : ∀ message, event = .message message → around.arrives message
  announces : ∀ index digest, event = .digest index → node.rxMempool[index]? = some digest →
    around.announces node.core digest
  proposing : ∀ drained, event = .proposer drained → around.proposing
  admits : ∀ tc, event = .message (.tc tc) →
    around.admits (node.core.record (.received (.tc tc))) tc
  proposes : ∀ block, event = .message (.propose block) → node.core.Ready setup block →
    around.Allows setup node.core block
  resumes : ∀ block rest, event = .loopback → node.rxLoopback = block :: rest →
    around.Allows setup node.core block
  back : ∀ block rest, event = .loopback → node.rxLoopback = block :: rest →
    around.resumes node.core block

/-- The turn of a node changes its core by steps, and a fault halts the core. -/
def Node.Turns (setup : Setup) (name : PublicKey) (around : Surroundings) (node after : Node) :
    Prop :=
  ∃ last, Relation.ReflTransGen (Core.Step setup name around) node.core last ∧
    (after.core = last ∧ after.halted = node.halted ∨
      after.halted = true ∧ Core.Fault setup last after.core)

/-- The blocks on their way back to the core. -/
inductive Node.InFlight (node : Node) : Block → Prop
  | loopback (block : Block) (inside : block ∈ node.rxLoopback) : InFlight node block
  | payload (wait : PayloadWait) (inside : wait ∈ node.payloadWaiter.waiting) :
      InFlight node wait.block
  | parent (block : Block) (inside : block ∈ node.synchronizer.waiting) : InFlight node block

/-- Until the core halts, every block on its way back has been checked or built here. -/
structure Node.Sound (node : Node) : Prop where
  settled : node.halted = false → node.core.Settled
  inFlight : node.halted = false → ∀ block, node.InFlight block → node.core.Trusted block

namespace Node

/-- A handler that leads from the first core makes a turn of the node. -/
theorem runCore_turns {node : Node} {task : CoreTask Unit} {start : Core}
    (first : Relation.ReflTransGen (Core.Step setup name around) start node.core)
    (leads : task.Leads (Core.Step setup name around) (Core.Fault setup) node.core
      fun _ _ => True) (origin : Node) (same : origin.core = start)
    (sameHalted : node.halted = origin.halted) :
    Turns setup name around origin (node.runCore task) := by
  unfold Handler.Leads at leads
  unfold Turns runCore
  rw [same]
  rcases outcome : task node.core with ⟨result, core⟩
  rw [outcome] at leads
  cases result with
  | ok value => exact ⟨core, first.trans leads.1, .inl ⟨rfl, sameHalted⟩⟩
  | error failure => exact ⟨core, first.trans leads, .inl ⟨rfl, sameHalted⟩⟩
  | panic message =>
      obtain ⟨last, steps, fault⟩ := leads
      exact ⟨last, first.trans steps, .inr ⟨rfl, fault⟩⟩
  | diverge =>
      obtain ⟨last, steps, fault⟩ := leads
      exact ⟨last, first.trans steps, .inr ⟨rfl, fault⟩⟩

/-- The condition on a block does not look at the record. -/
theorem Permits.record {node : Node} {block : Block} {action : Action}
    (allows : around.Allows setup node.core block) :
    around.Allows setup (node.core.record action) block :=
  fun b0 later decides processing => allows b0 later decides
    ⟨processing.store, processing.lastCommittedRound, processing.txCommit⟩

/-- The core changes only by its steps. -/
theorem Turn.turns {node after : Node} {event : Event} (turn : Turn setup name node event after)
    (sound : node.Sound) (permits : node.Permits setup around event) :
    Turns setup name around node after := by
  have unchanged {after : Node} (same : after.core = node.core)
      (sameHalted : after.halted = node.halted) : Turns setup name around node after :=
    ⟨node.core, .refl, .inl ⟨same, sameHalted⟩⟩
  have single {after : Node} (step : Core.Step setup name around node.core after.core)
      (sameHalted : after.halted = node.halted) : Turns setup name around node after :=
    ⟨after.core, .single step, .inl ⟨rfl, sameHalted⟩⟩
  cases turn with
  | message message running forCore =>
      have received : Action.received message ∈
          (node.core.record (.received message)).history :=
        List.mem_append_right _ (List.mem_singleton.mpr rfl)
      refine runCore_turns (.single (.receive message (permits.arrives message rfl))) ?_ node rfl rfl
      apply Core.handleMessage_leads _ message received forCore
      · rintro tc rfl
        exact permits.admits tc rfl
      · rintro block rfl ready
        exact Permits.record (permits.proposes block rfl
          ⟨ready.leader, ready.verified, ready.payload⟩)
  | loopback block rest running next =>
      have trusted := sound.inFlight running block
        (.loopback block (next ▸ List.mem_cons_self ..))
      have resumed : Action.resumed block ∈ (node.core.record (.resumed block)).history :=
        List.mem_append_right _ (List.mem_singleton.mpr rfl)
      refine runCore_turns (.single (.resume block trusted (permits.back block rest rfl next))) ?_
        node rfl rfl
      exact Core.processBlock_leads _ block (.inr resumed)
        (Permits.record (permits.resumes block rest rfl next))
  | timer running =>
      exact runCore_turns .refl (Core.localTimeoutRound_leads node.core) node rfl rfl
  | digest index digest next =>
      exact single (.announce digest (permits.announces index digest rfl next)) rfl
  | clean drained sent digests rest next =>
      exact single (.clean sent digests rest (permits.proposing drained rfl) next) rfl
  | skip drained sent round qc rest late empty next =>
      exact single (.skip sent round qc rest (permits.proposing drained rfl) next) rfl
  | build drained sent round qc tc rest drains full next =>
      exact single (.build sent round qc tc rest drained (permits.proposing drained rfl) next
        full) rfl
  | payloadMessage message rest next => exact single (.awaited message rest next) rfl
  | parentMissing block rest synchronizer next => exact single (.suspended block rest next) rfl
  | batch bytes => exact single (.storeBatch bytes) rfl
  | _ => exact unchanged rfl rfl

/-- The surroundings that forbid nothing. -/
def unrestricted : Surroundings :=
  ⟨fun _ => True, fun _ _ => True, True, fun _ _ => True, fun _ _ => True, fun _ _ => True⟩

/-- Every event meets the empty condition. -/
theorem permits_unrestricted (node : Node) (event : Event) :
    node.Permits setup unrestricted event where
  arrives _ _ := trivial
  announces _ _ _ _ := trivial
  proposing _ _ := trivial
  admits _ _ := trivial
  proposes _ _ _ := fun _ _ _ _ => trivial
  resumes _ _ _ _ := fun _ _ _ _ => trivial
  back _ _ _ _ := trivial

/-- A halted core stays halted. -/
theorem Turn.halted [Rounds] {node after : Node} {event : Event}
    (turn : Turn setup name node event after) (running : after.halted = false) : node.halted = false := by
  cases turn with
  | message message wasRunning => exact wasRunning
  | loopback block rest wasRunning => exact wasRunning
  | timer wasRunning => exact wasRunning
  | _ => exact running

/-- A block on its way back was on its way before, or the core handled it in this turn. -/
theorem Turn.inFlight {node after : Node} {event : Event}
    (turn : Turn setup name node event after) (settled : node.core.Settled) {block : Block}
    (inFlight : after.InFlight block) :
    node.InFlight block ∨ node.core.Trusted block ∨ after.core.Trusted block := by
  cases inFlight with
  | loopback block inside =>
      obtain old | ⟨wait, waiting, rfl, _⟩ | waiting | ⟨built, _⟩ := turn.looped inside
      · exact .inl (.loopback block old)
      · exact .inl (.payload wait waiting)
      · exact .inl (.parent block waiting)
      · exact .inr (.inr (.inr built))
  | payload wait inside =>
      obtain old | queued := turn.waiting inside
      · exact .inl (.payload wait old)
      · exact .inr (.inl (settled.awaited _ _ queued))
  | parent block inside =>
      obtain old | queued := turn.suspended inside
      · exact .inl (.parent block old)
      · exact .inr (.inl (settled.inner block queued))

/-- The checks on the blocks in flight survive every turn. -/
theorem Turn.sound {node after : Node} {event : Event} (turn : Turn setup name node event after)
    (sound : node.Sound) : after.Sound := by
  obtain ⟨last, steps, kept⟩ := turn.turns sound (permits_unrestricted node event)
  have settles (running : after.halted = false) : after.core = last := by
    obtain ⟨same, _⟩ | ⟨halted, _⟩ := kept
    · exact same
    · rw [running] at halted
      cases halted
  constructor
  · intro running
    rw [settles running]
    exact steps_preserve steps (sound.settled (turn.halted running))
      fun _ _ step => step.settled
  · intro running block inFlight
    have keeps : ∀ action ∈ node.core.history, action ∈ after.core.history := by
      rw [settles running]
      exact fun _ => Core.steps_history_subset steps
    obtain old | trusted | trusted :=
      turn.inFlight (sound.settled (turn.halted running)) inFlight
    · exact (sound.inFlight (turn.halted running) block old).mono keeps
    · exact trusted.mono keeps
    · exact trusted

/-- The first state of a node has no block anywhere. -/
theorem boot_sound : (boot setup name).Sound := by
  have books := Core.proposeAsLeader_books setup name .new none
  constructor
  · intro _
    constructor
    · intro block resumed
      change Action.resumed block ∈ (Core.proposeAsLeader setup name none .new).history at resumed
      obtain old | ⟨_, new⟩ := Core.mem_proposeAsLeader resumed
      · cases old
      · cases new
    · intro block inside
      change block ∈ (Core.proposeAsLeader setup name none .new).innerChannel at inside
      rw [books.innerChannel] at inside
      cases inside
    · intro missing block inside
      change _ ∈ (Core.proposeAsLeader setup name none .new).txPayloadWaiter at inside
      rw [books.txPayloadWaiter] at inside
      cases inside
  · intro _ block inFlight
    cases inFlight with
    | loopback block inside => cases inside
    | payload wait inside => cases inside
    | parent block inside => cases inside

/-- Every reachable state of a node is sound. -/
theorem reachable_sound {node : Node} (reachable : (machine setup name).Reachable node) :
    node.Sound :=
  reachable.invariant Sound boot_sound fun _ _ _ _ sound steps => (step_turn steps).sound sound

/-- An invariant of the core that every step and every fault keeps holds after a turn. -/
theorem Turn.core_preserve {node after : Node} {event : Event}
    (turn : Turn setup name node event after) (invariant : Core → Prop) (sound : node.Sound)
    (permits : node.Permits setup around event) (holds : invariant node.core)
    (step : ∀ core after, Core.Step setup name around core after → invariant core → invariant after)
    (fault : ∀ core after, Core.Fault setup core after → invariant core → invariant after) :
    invariant after.core := by
  obtain ⟨last, steps, kept⟩ := turn.turns sound permits
  have reached := steps_preserve steps holds step
  obtain ⟨same, _⟩ | ⟨_, faulty⟩ := kept
  · rw [same]
    exact reached
  · exact fault _ _ faulty reached

/-- An invariant of the first core that every step and every fault keeps holds in every state. -/
theorem reachable_core {node : Node} (reachable : (machine setup name).Reachable node)
    (invariant : Core → Prop) (initially : invariant (Core.boot setup name))
    (step : ∀ core after, Core.Step setup name unrestricted core after →
      invariant core → invariant after)
    (fault : ∀ core after, Core.Fault setup core after → invariant core → invariant after) :
    invariant node.core := by
  exact reachable.invariant (fun node => invariant node.core) initially
    fun _ event _ reached holds steps =>
    (step_turn steps).core_preserve invariant (reachable_sound reached)
      (permits_unrestricted _ event) holds step fault

/-- An invariant under the condition of a run holds after it. -/
theorem run_core (around : Surroundings) {condition : Node → Event → Prop}
    {events : List Event} {node : Node}
    (run : (machine setup name).Run condition events node) (invariant : Core → Prop)
    (initially : invariant (Core.boot setup name))
    (permits : ∀ node event, (machine setup name).Reachable node → invariant node.core →
      condition node event → node.Permits setup around event)
    (step : ∀ core after, Core.Step setup name around core after →
      invariant core → invariant after)
    (fault : ∀ core after, Core.Fault setup core after → invariant core → invariant after) :
    invariant node.core :=
  run.invariant (fun node => invariant node.core) initially
    fun node event _ reached allowed holds steps =>
      (step_turn steps).core_preserve invariant (reachable_sound reached)
        (permits node event reached holds allowed) holds step fault

end Node

end DeflHotstuff

