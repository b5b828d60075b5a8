import DeflHotstuff.Library.TwoChain
import DeflHotstuff.Proof.Storage

namespace DeflHotstuff

open Verification

variable [Crypto]

namespace System

variable {system : System} {nodes after : PublicKey → Node}

/-- A turn belongs to an honest node, and what it delivers forges no signature. -/
structure Turned (system : System) (nodes : PublicKey → Node) (turn : PublicKey × Event)
    (after : PublicKey → Node) : Prop where
  honest : system.honest turn.1 = true
  deliverable : ∀ message, turn.2 = .message message → system.deliverable nodes message = true
  steps : (nodes turn.1).step system.setup turn.1 turn.2 = some (after turn.1)
  others : ∀ name, name ≠ turn.1 → after name = nodes name

/-- A turn of the system is a turn of one node. -/
theorem step_turned {turn : PublicKey × Event} (steps : system.step nodes turn = some after) :
    Turned system nodes turn after := by
  unfold step at steps
  split at steps
  · rename_i enabled
    obtain ⟨node, taken, rfl⟩ := Option.map_eq_some_iff.mp steps
    refine ⟨enabled.1, fun message same => ?_, ?_, fun name other => ?_⟩
    · have allowed := enabled.2
      rw [same] at allowed
      exact allowed
    · rw [Function.update_self]
      exact taken
    · exact Function.update_of_ne other _ _
  · cases steps

/-- Each node of a system runs on its own as one node does. -/
theorem reachable_node (reachable : system.machine.Reachable nodes) (name : PublicKey) :
    (Node.machine system.setup name).Reachable (nodes name) := by
  refine reachable.invariant (fun nodes => (Node.machine system.setup name).Reachable (nodes name))
    Machine.Reachable.start fun nodes turn after _ reached steps => ?_
  have turned := step_turned steps
  by_cases same : name = turn.1
  · subst same
    exact reached.next turned.steps
  · rw [turned.others name same]
    exact reached

/-- Every node of a reachable system meets what holds of a node alone. -/
theorem reachable_regular (reachable : system.machine.Reachable nodes) (name : PublicKey) :
    (nodes name).core.Regular system.setup name :=
  Node.reachable_regular (reachable_node reachable name)

/-- The records of all nodes only grow. -/
theorem Turned.keeps {turn : PublicKey × Event} (turned : Turned system nodes turn after)
    (sound : (nodes turn.1).Sound) (name : PublicKey) :
    ∀ action ∈ (nodes name).core.history, action ∈ (after name).core.history := by
  by_cases same : name = turn.1
  · subst same
    obtain ⟨last, steps, kept⟩ := (Node.step_turn turned.steps).turns sound
      (Node.permits_unrestricted _ _)
    intro action inside
    have reached := Core.steps_history_subset steps inside
    obtain ⟨same, _⟩ | ⟨_, fault⟩ := kept
    · rw [same]
      exact reached
    · rw [fault.same]
      exact reached
  · rw [turned.others name same]
    exact fun _ => id

/-- A node does not forget what it signed. -/
theorem signed_mono {node later : Node} {digest : Digest} (inside : digest ∈ node.signed)
    (keeps : ∀ action ∈ node.core.history, action ∈ later.core.history) :
    digest ∈ later.signed := by
  obtain ⟨action, recorded, signs⟩ := List.mem_filterMap.mp inside
  exact List.mem_filterMap.mpr ⟨action, keeps _ recorded, signs⟩

/-- What a turn adds to the messages that a node received is deliverable. -/
theorem Turned.received {turn : PublicKey × Event} (turned : Turned system nodes turn after)
    (sound : (nodes turn.1).Sound) {message : ConsensusMessage}
    (received : .received message ∈ (after turn.1).core.history) :
    .received message ∈ (nodes turn.1).core.history ∨ system.deliverable nodes message = true := by
  let around : Surroundings :=
    { Node.unrestricted with arrives := fun message => system.deliverable nodes message = true }
  have permits : (nodes turn.1).Permits system.setup around turn.2 :=
    { Node.permits_unrestricted (nodes turn.1) turn.2 with arrives := turned.deliverable }
  refine (Node.step_turn turned.steps).core_preserve
    (fun core => .received message ∈ core.history → .received message ∈ (nodes turn.1).core.history ∨
      system.deliverable nodes message = true) sound permits .inl ?_ ?_ received
  · intro core after step holds inside
    obtain old | arrives := step.new_action inside
    · exact holds old
    · exact .inr arrives
  · intro core after fault holds inside
    rw [fault.same] at inside
    exact holds inside

/-- A valid signature of an honest member in a received message is on a digest that it signed. -/
def Genuine (system : System) (nodes : PublicKey → Node) : Prop :=
  ∀ name message, .received message ∈ (nodes name).core.history → ∀ claim ∈ message.claims,
    system.honest claim.author = true → claim.Valid → claim.digest ∈ (nodes claim.author).signed

/-- A message that arrives carries genuine signatures of honest members only. -/
theorem genuine_of_deliverable {message : ConsensusMessage}
    (deliverable : system.deliverable nodes message = true) {claim : SignatureClaim}
    (inside : claim ∈ message.claims) (honest : system.honest claim.author = true)
    (valid : claim.Valid) : claim.digest ∈ (nodes claim.author).signed := by
  have checked := List.all_eq_true.mp deliverable claim inside
  unfold SignatureClaim.Valid at valid
  rw [honest, valid] at checked
  simpa using checked

/-- In a reachable system the signatures of honest members are genuine. -/
theorem reachable_genuine (reachable : system.machine.Reachable nodes) :
    Genuine system nodes := by
  refine reachable.invariant (Genuine system) ?_ fun nodes turn after reached genuine steps => ?_
  · intro name message inside
    cases (Core.mem_boot inside).1
  · have turned := step_turned steps
    have sound := Node.reachable_sound (reachable_node reached turn.1)
    intro name message received claim inside honest valid
    refine signed_mono ?_ (turned.keeps sound claim.author)
    by_cases same : name = turn.1
    · subst same
      obtain old | deliverable := turned.received sound received
      · exact genuine _ message old claim inside honest valid
      · exact genuine_of_deliverable deliverable inside honest valid
    · rw [turned.others name same] at received
      exact genuine name message received claim inside honest valid

/-- A valid signature of an honest member that a core holds is on a digest that it signed. -/
theorem signed_of_holds (genuine : Genuine system nodes) {name : PublicKey}
    {claim : SignatureClaim} (holds : (nodes name).core.Holds name claim)
    (honest : system.honest claim.author = true) (valid : claim.Valid) :
    claim.digest ∈ (nodes claim.author).signed := by
  rcases holds with ⟨message, received, inside⟩ | ⟨author, action, recorded, signs⟩
  · exact genuine name message received claim inside honest valid
  · rw [author]
    exact List.mem_filterMap.mpr ⟨action, recorded, signs⟩

end System

/-- A signed vote digest comes from a vote. -/
theorem CollisionFree.signed_vote (collisionFree : CollisionFree) {node : Node} {hash : Digest}
    {round : Nat} (inside : sha512 (.vote hash round) ∈ node.signed) :
    ∃ block, .voted block ∈ node.core.history ∧ block.digest = hash ∧ block.round = round := by
  obtain ⟨action, recorded, signs⟩ := List.mem_filterMap.mp inside
  cases action with
  | voted block =>
      obtain ⟨isHash, isRound⟩ := collisionFree.vote_digest (Option.some.inj signs)
      exact ⟨block, recorded, isHash, isRound⟩
  | expired timeout => cases collisionFree.signed _ _ rfl rfl (Option.some.inj signs)
  | built sent qc tc block => cases collisionFree.signed _ _ rfl rfl (Option.some.inj signs)
  | _ => cases signs

/-- A signed timeout digest comes from a timeout. -/
theorem CollisionFree.signed_timeout (collisionFree : CollisionFree) {node : Node}
    {round highQcRound : Nat} (inside : timeoutDigest round highQcRound ∈ node.signed) :
    ∃ timeout, .expired timeout ∈ node.core.history ∧ timeout.round = round ∧
      timeout.highQc.round = highQcRound := by
  obtain ⟨action, recorded, signs⟩ := List.mem_filterMap.mp inside
  cases action with
  | expired timeout =>
      obtain ⟨isRound, isHighQc⟩ := collisionFree.timeout_digest (Option.some.inj signs)
      exact ⟨timeout, recorded, isRound, isHighQc⟩
  | voted block => cases collisionFree.signed _ _ rfl rfl (Option.some.inj signs)
  | built sent qc tc block => cases collisionFree.signed _ _ rfl rfl (Option.some.inj signs)
  | _ => cases signs

end DeflHotstuff
