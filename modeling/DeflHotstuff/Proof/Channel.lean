import DeflHotstuff.Proof.Discipline

namespace DeflHotstuff

open Verification

variable [Crypto] {setup : Setup} {name : PublicKey} {around : Surroundings}

namespace Core

/-- The proposer has handled a cleanup that names the digest. -/
def Cleaned (core : Core) (digest : Digest) : Prop :=
  ∃ digests, .cleaned digests ∈ core.history ∧ digest ∈ digests

/-- The cleanup for a processed block names its payload and the payloads of its parents. -/
def CleansUp (core : Core) (digests : List Digest) : Prop :=
  ∃ b0 b1 block, .processed b0 b1 block ∈ core.history ∧
    digests = b0.payload ++ b1.payload ++ block.payload

/-- The payload of every block processed in the first part of the record is cleaned, or its
cleanup is in the queue. -/
def Covers (core : Core) (queue : List Stamped) (bound : Nat) : Prop :=
  ∀ b0 b1 block, .processed b0 b1 block ∈ core.history.take bound → ∀ digest ∈ block.payload,
    core.Cleaned digest ∨ ∃ sent digests, ⟨sent, .cleanup digests⟩ ∈ queue ∧ digest ∈ digests

/-- A request of the proposer channel stands behind the cleanups for the blocks processed
before it was sent. -/
structure Channelled (core : Core) : Prop where
  cleaned : ∀ digests, .cleaned digests ∈ core.history → core.CleansUp digests
  cleanups : ∀ sent digests, ⟨sent, .cleanup digests⟩ ∈ core.txProposer → core.CleansUp digests
  stamps : ∀ message ∈ core.txProposer, message.sent ≤ core.history.length
  covered : core.Covers core.txProposer core.history.length
  requests : ∀ earlier sent round qc tc later,
    core.txProposer = earlier ++ ⟨sent, .make round qc tc⟩ :: later → core.Covers earlier sent

/-- A digest that was cleaned stays so. -/
theorem Cleaned.mono {core after : Core} {digest : Digest} (cleaned : core.Cleaned digest)
    (keeps : ∀ action ∈ core.history, action ∈ after.history) : after.Cleaned digest := by
  obtain ⟨digests, recorded, inside⟩ := cleaned
  exact ⟨digests, keeps _ recorded, inside⟩

/-- Cleanups of processed blocks stay such when the record grows. -/
theorem CleansUp.mono {core after : Core} {digests : List Digest}
    (cleansUp : core.CleansUp digests)
    (keeps : ∀ action ∈ core.history, action ∈ after.history) : after.CleansUp digests := by
  obtain ⟨b0, b1, block, processed, same⟩ := cleansUp
  exact ⟨b0, b1, block, keeps _ processed, same⟩

/-- The part of the record before a message was sent does not change any more. -/
theorem take_of_start {actions later : List Action} {bound : Nat} (grows : actions <+: later)
    (within : bound ≤ actions.length) : later.take bound = actions.take bound := by
  obtain ⟨new, rfl⟩ := grows
  exact List.take_append_of_le_length within

/-- A later record and a longer queue cover no less. -/
theorem Covers.mono {core after : Core} {queue longer : List Stamped} {bound : Nat}
    (covers : core.Covers queue bound) (grows : core.history <+: after.history)
    (within : bound ≤ core.history.length) (longerQueue : ∀ message ∈ queue, message ∈ longer) :
    after.Covers longer bound := by
  intro b0 b1 block processed digest inside
  rw [take_of_start grows within] at processed
  obtain cleaned | ⟨sent, digests, queued, named⟩ := covers b0 b1 block processed digest inside
  · exact .inl (cleaned.mono fun _ recorded => grows.subset recorded)
  · exact .inr ⟨sent, digests, longerQueue _ queued, named⟩

/-- What is recorded silently after a cover processes no block. -/
theorem Covers.silent {core : Core} {queue : List Stamped} {old new : List Action}
    (covers : core.Covers queue old.length) (grown : core.history = old ++ new)
    (silent : ∀ action ∈ new, ∀ b0 b1 block, action ≠ .processed b0 b1 block) (bound : Nat) :
    core.Covers queue bound := by
  intro b0 b1 block processed digest inside
  have recorded := List.mem_of_mem_take processed
  rw [grown] at recorded
  rcases List.mem_append.mp recorded with earlier | now
  · refine covers b0 b1 block ?_ digest inside
    rw [grown, List.take_append_of_le_length le_rfl, List.take_length]
    exact earlier
  · exact absurd rfl (silent _ now b0 b1 block)

/-- The first message of a queue may leave it when its cleanup is recorded. -/
theorem Covers.taken {core : Core} {queue : List Stamped} {message : Stamped} {bound : Nat}
    (covers : core.Covers (message :: queue) bound)
    (recorded : ∀ digests, message.message = .cleanup digests → .cleaned digests ∈ core.history) :
    core.Covers queue bound := by
  intro b0 b1 block processed digest inside
  obtain already | ⟨sent, digests, queued, named⟩ := covers b0 b1 block processed digest inside
  · exact .inl already
  · rcases List.mem_cons.mp queued with first | later
    · exact .inl ⟨digests, recorded digests (by rw [← first]), named⟩
    · exact .inr ⟨sent, digests, later, named⟩

/-- A message in a queue with a new last message is the last one or was there before. -/
theorem split_last {queue earlier later : List Stamped} {last message : Stamped}
    (same : queue ++ [last] = earlier ++ message :: later) :
    (earlier = queue ∧ message = last) ∨ ∃ before, queue = earlier ++ message :: before := by
  rcases List.eq_nil_or_concat later with rfl | ⟨before, final, rfl⟩
  · obtain ⟨sameQueue, sameLast⟩ := List.append_inj' same rfl
    exact .inl ⟨sameQueue.symm, (List.singleton_inj.mp sameLast).symm⟩
  · right
    have regrouped : queue ++ [last] = (earlier ++ message :: before) ++ [final] := by
      rw [same]
      simp
    exact ⟨before, (List.append_inj' regrouped rfl).1⟩

/-- Quiet actions process no block. -/
theorem quiet_unprocessed {new : List Action} (silent : ∀ action ∈ new, action.Quiet) :
    ∀ action ∈ new, ∀ b0 b1 block, action ≠ .processed b0 b1 block := by
  rintro action inside b0 b1 block rfl
  exact silent _ inside

/-- A step that processes no block and leaves the queue alone keeps its covers. -/
theorem Channelled.kept {core after : Core} (channelled : core.Channelled) {new : List Action}
    (grown : after.history = core.history ++ new)
    (silent : ∀ action ∈ new, ∀ b0 b1 block, action ≠ .processed b0 b1 block)
    (same : after.txProposer = core.txProposer)
    (cleaned : ∀ digests, .cleaned digests ∈ after.history → after.CleansUp digests) :
    after.Channelled := by
  have grows : core.history <+: after.history := ⟨new, grown.symm⟩
  constructor
  · exact cleaned
  · intro sent digests queued
    exact (channelled.cleanups sent digests (same ▸ queued)).mono fun _ old => grows.subset old
  · intro message queued
    exact (channelled.stamps message (same ▸ queued)).trans grows.length_le
  · rw [same]
    exact (channelled.covered.mono grows le_rfl fun _ => id).silent grown silent _
  · intro earlier sent round qc tc later split
    rw [same] at split
    have stamp := channelled.stamps ⟨sent, .make round qc tc⟩ (by rw [split]; simp)
    exact (channelled.requests earlier sent round qc tc later split).mono grows stamp fun _ => id

/-- A message leaves the queue, and its cleanup is recorded. -/
theorem Channelled.taken {core after : Core} (channelled : core.Channelled) {new : List Action}
    {message : Stamped} (grown : after.history = core.history ++ new)
    (silent : ∀ action ∈ new, ∀ b0 b1 block, action ≠ .processed b0 b1 block)
    (next : core.txProposer = message :: after.txProposer)
    (recorded : ∀ digests, message.message = .cleanup digests → .cleaned digests ∈ after.history)
    (cleaned : ∀ digests, .cleaned digests ∈ after.history → after.CleansUp digests) :
    after.Channelled := by
  have grows : core.history <+: after.history := ⟨new, grown.symm⟩
  constructor
  · exact cleaned
  · intro sent digests queued
    have old := channelled.cleanups sent digests (next ▸ List.mem_cons_of_mem _ queued)
    exact old.mono fun _ recorded => grows.subset recorded
  · intro other queued
    have old := channelled.stamps other (next ▸ List.mem_cons_of_mem _ queued)
    exact old.trans grows.length_le
  · have covers := (channelled.covered.mono grows le_rfl fun _ => id).silent grown silent
    rw [next] at covers
    exact (covers _).taken recorded
  · intro earlier sent round qc tc later split
    have whole : core.txProposer = (message :: earlier) ++ ⟨sent, .make round qc tc⟩ :: later := by
      rw [next, split]
      rfl
    have within := channelled.stamps ⟨sent, .make round qc tc⟩ (by rw [whole]; simp)
    have covers := channelled.requests _ sent round qc tc later whole
    exact (covers.mono grows within fun _ => id).taken recorded

/-- A message that joins the queue changes nothing for the requests in front of it. -/
theorem Channelled.sent {core after : Core} (channelled : core.Channelled) {message : Stamped}
    (grows : core.history <+: after.history)
    (sent : after.txProposer = core.txProposer ++ [message])
    (stamp : message.sent ≤ after.history.length)
    (cleanup : ∀ digests, message.message = .cleanup digests → after.CleansUp digests)
    (covered : after.Covers after.txProposer after.history.length)
    (request : ∀ round qc tc, message.message = .make round qc tc →
      after.Covers core.txProposer message.sent)
    (cleaned : ∀ digests, .cleaned digests ∈ after.history → after.CleansUp digests) :
    after.Channelled := by
  constructor
  · exact cleaned
  · intro other digests queued
    rw [sent] at queued
    rcases List.mem_append.mp queued with old | new
    · exact (channelled.cleanups other digests old).mono fun _ recorded => grows.subset recorded
    · exact cleanup digests (by rw [← List.mem_singleton.mp new])
  · intro other queued
    rw [sent] at queued
    rcases List.mem_append.mp queued with old | new
    · exact (channelled.stamps other old).trans grows.length_le
    · rw [List.mem_singleton.mp new]
      exact stamp
  · exact covered
  · intro earlier other round qc tc later split
    rw [sent] at split
    obtain ⟨rfl, isLast⟩ | ⟨before, split⟩ := split_last split
    · rw [← isLast] at request
      exact request round qc tc rfl
    · have within := channelled.stamps ⟨other, .make round qc tc⟩ (by rw [split]; simp)
      exact (channelled.requests earlier other round qc tc before split).mono grows within
        fun _ => id

/-- A step keeps the messages of the proposer channel in the order of the record. -/
theorem Step.channelled {core after : Core} (step : Step setup name around core after)
    (channelled : core.Channelled) : after.Channelled := by
  have grows := step.history_prefix
  have keeps : ∀ action ∈ core.history, action ∈ after.history := fun _ => step.history_subset
  have covered : after.Covers core.txProposer core.history.length :=
    channelled.covered.mono grows le_rfl fun _ => id
  have cleaned : ∀ digests, .cleaned digests ∈ after.history → after.CleansUp digests := by
    intro digests inside
    obtain old | ⟨_, sent, rest, next⟩ := step.new_action inside
    · exact (channelled.cleaned digests old).mono keeps
    · exact (channelled.cleanups sent digests (next ▸ List.mem_cons_self ..)).mono keeps
  cases step.effect with
  | quiet new silent grown same =>
      exact channelled.kept grown (quiet_unprocessed silent) same cleaned
  | votes block grown same =>
      exact channelled.kept grown (by simp) same cleaned
  | asks new qc tc silent grown sent leader makes =>
      rw [List.append_assoc] at grown
      have always := covered.silent grown
        (List.forall_mem_append.mpr ⟨quiet_unprocessed silent, by simp⟩)
      refine channelled.sent grows sent ?_ (fun digests => (nomatch ·)) ?_
        (fun _ _ _ _ => always _) cleaned
      · rw [grown]
        simp
      · rw [sent]
        exact (always _).mono List.prefix_rfl le_rfl fun _ => List.mem_append_left _
  | processes b0 b1 block grown sent =>
      have processed : .processed b0 b1 block ∈ after.history := by
        rw [grown]
        simp
      refine channelled.sent grows sent ?_ ?_ ?_ (fun _ _ _ => (nomatch ·)) cleaned
      · rw [grown, List.length_append, List.length_singleton]
      · rintro digests isCleanup
        cases isCleanup
        exact ⟨b0, b1, block, processed, rfl⟩
      · intro b0' b1' block' inside digest named
        rw [List.take_length, grown] at inside
        rw [sent]
        obtain old | new := mem_history_append inside
        · refine (covered.mono List.prefix_rfl grows.length_le
            fun _ => List.mem_append_left _) b0' b1' block' ?_ digest named
          rw [take_of_start grows le_rfl, List.take_length]
          exact old
        · cases new
          exact .inr ⟨_, _, List.mem_append_right _ (List.mem_singleton.mpr rfl),
            List.mem_append_right _ named⟩
  | cleans sent digests grown next =>
      refine channelled.taken grown (by simp) next ?_ cleaned
      intro named isCleanup
      cases isCleanup
      simp [grown]
  | skips sent round qc same next =>
      exact channelled.taken (same.trans (List.append_nil _).symm) (by simp) next
        (fun _ => nofun) cleaned
  | builds sent round qc tc payload full grown next =>
      exact channelled.taken grown (by simp) next (fun _ => nofun) cleaned

/-- A panic or an endless loop sends nothing to the proposer. -/
theorem Fault.channelled {core after : Core} (fault : Fault setup core after)
    (channelled : core.Channelled) : after.Channelled := by
  cases fault <;> exact { channelled with }

/-- At boot at most the first request is in the channel. -/
theorem boot_channelled : (boot setup name).Channelled := by
  have unprocessed (queue : List Stamped) (bound : Nat) :
      (boot setup name).Covers queue bound := by
    intro b0 b1 block processed
    cases (mem_boot (List.mem_of_mem_take processed)).1
  have queued : ∀ message ∈ (boot setup name).txProposer,
      message = ⟨0, .make 1 .genesis none⟩ := by
    intro message inside
    unfold boot at inside
    rw [proposeAsLeader_txProposer] at inside
    split at inside
    · exact List.mem_singleton.mp inside
    · cases inside
  constructor
  · intro digests inside
    cases (mem_boot inside).1
  · intro sent digests inside
    cases queued _ inside
  · intro message inside
    rw [queued message inside]
    exact Nat.zero_le _
  · exact unprocessed _ _
  · exact fun _ _ _ _ _ _ _ => unprocessed _ _

end Core

/-- In every reachable state the proposer channel follows the record. -/
theorem Node.reachable_channelled {node : Node} (reachable : (machine setup name).Reachable node) :
    node.core.Channelled :=
  reachable_core reachable _ Core.boot_channelled (fun _ _ step => step.channelled)
    fun _ _ fault => fault.channelled

end DeflHotstuff
