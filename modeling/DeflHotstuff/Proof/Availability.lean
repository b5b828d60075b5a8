import DeflHotstuff.Proof.Agreement
import DeflHotstuff.Proof.Commits
import DeflHotstuff.Proof.Crash

namespace DeflHotstuff

open Verification

section

variable [Crypto] {setup : Setup} {name : PublicKey} {around : Surroundings}

namespace Core

/-- The whole payload of the block is in the store. -/
def Supplied (core : Core) (block : Block) : Prop :=
  ∀ digest ∈ block.payload, (core.store.read digest).isSome

/-- The payload is in the store but for the missing digests. -/
def Lacks (core : Core) (missing : List Digest) (block : Block) : Prop :=
  ∀ digest ∈ block.payload, digest ∈ missing ∨ (core.store.read digest).isSome

/-- The QC of the block points to a stored batch. -/
def FromBatch (block : Block) : Prop :=
  (block.qc == QC.genesis) = false ∧ ∃ bytes, block.parent = sha512 (.batch bytes)

/-- The blocks that the core stores, resumes or finds as parents have their payloads. -/
structure Furnished (core : Core) : Prop where
  resumed : ∀ block, .resumed block ∈ core.history → core.Supplied block
  awaited : ∀ missing block, .wait missing block ∈ core.txPayloadWaiter → core.Lacks missing block
  stored : ∀ key block, (key, .block block) ∈ core.store.entries → core.Supplied block
  processed : ∀ b0 b1 block, .processed b0 b1 block ∈ core.history →
    (core.Supplied b1 ∨ FromBatch block) ∧ (core.Supplied b0 ∨ FromBatch b1)

/-- A block that is supplied stays so while the store keeps its keys. -/
theorem Supplied.mono {core after : Core} {block : Block} (supplied : core.Supplied block)
    (keeps : Keeps core after) : after.Supplied block :=
  fun digest inside => keeps.store digest (supplied digest inside)

/-- What a block lacks does not grow while the store keeps its keys. -/
theorem Lacks.mono {core after : Core} {missing : List Digest} {block : Block}
    (lacks : core.Lacks missing block) (keeps : Keeps core after) : after.Lacks missing block :=
  fun digest inside => (lacks digest inside).imp_right (keeps.store digest)

/-- A block is supplied once all that it lacks has arrived. -/
theorem Lacks.supplied {core : Core} {missing : List Digest} {block : Block}
    (lacks : core.Lacks missing block)
    (arrived : ∀ digest ∈ missing, (core.store.read digest).isSome) : core.Supplied block :=
  fun digest inside => (lacks digest inside).elim (arrived digest) id

/-- Genesis has no payload. -/
theorem supplied_genesis (core : Core) : core.Supplied .genesis := fun _ inside => nomatch inside

/-- A parent that was read has its payload, unless a batch was read in its place. -/
theorem Furnished.parentOf {core : Core} (furnished : core.Furnished) (stocked : core.Stocked)
    {child parent : Block} (found : setup.parentOf core.store child = some parent) :
    core.Supplied parent ∨ FromBatch child := by
  unfold Setup.parentOf at found
  split at found
  · cases found
    exact .inl core.supplied_genesis
  · rename_i embedded
    obtain ⟨value, present, decoded⟩ := Option.bind_eq_some_iff.mp found
    have entry := Store.mem_of_read present
    have kept := stocked.entries _ _ entry
    cases value with
    | block block =>
        cases decoded
        exact .inl (furnished.stored _ _ entry)
    | batch bytes =>
        generalize isKey : child.parent = key at kept
        cases kept with
        | batch => exact .inr ⟨Bool.eq_false_of_not_eq_true embedded, bytes, isKey⟩

/-- A block that the core handles with a check of its payload, or that was resumed. -/
theorem Furnished.handed {core : Core} (furnished : core.Furnished) {block : Block}
    (handed : (.accepted block ∈ core.history ∧
      ∀ digest ∈ block.payload, (core.store.read digest).isSome) ∨
      .resumed block ∈ core.history) : core.Supplied block :=
  handed.elim And.right (furnished.resumed block)

/-- A step keeps every stored and every delivered block supplied. -/
theorem Step.furnished {core after : Core} (step : Step setup name around core after)
    (furnished : core.Furnished) (stocked : core.Stocked)
    (supplies : ∀ core block, around.resumes core block → core.Supplied block) :
    after.Furnished := by
  have keeps := step.keeps
  constructor
  · intro block resumed
    obtain old | ⟨_, resumes⟩ := step.new_action resumed
    · exact (furnished.resumed block old).mono keeps
    · exact (supplies core block resumes).mono keeps
  · intro missing block inside
    obtain old | ⟨_, lacks⟩ := step.queued.awaited missing block inside
    · exact (furnished.awaited missing block old).mono keeps
    · exact Lacks.mono lacks keeps
  · intro key block inside
    obtain same | ⟨b0, b1, new, handed, _, _, written⟩ | ⟨bytes, written⟩ := step.store_cases
    · rw [same] at inside
      exact (furnished.stored key block inside).mono keeps
    · rw [written] at inside
      rcases List.mem_cons.mp inside with isNew | old
      · cases isNew
        exact (furnished.handed handed).mono keeps
      · exact (furnished.stored key block old).mono keeps
    · rw [written] at inside
      rcases List.mem_cons.mp inside with isNew | old
      · cases isNew
      · exact (furnished.stored key block old).mono keeps
  · intro b0 b1 block processed
    have grows {parent child : Block} : core.Supplied parent ∨ FromBatch child →
        after.Supplied parent ∨ FromBatch child := Or.imp_left fun supplied => supplied.mono keeps
    obtain old | ⟨_, parent, grandparent⟩ := step.new_action processed
    · obtain ⟨first, second⟩ := furnished.processed b0 b1 block old
      exact ⟨grows first, grows second⟩
    · exact ⟨grows (furnished.parentOf stocked parent),
        grows (furnished.parentOf stocked grandparent)⟩

/-- A panic or an endless loop leaves the store and the deliveries as they are. -/
theorem Fault.furnished {core after : Core} (fault : Fault setup core after)
    (furnished : core.Furnished) : after.Furnished := by
  rw [fault.same]
  exact ⟨furnished.resumed, furnished.awaited, furnished.stored, furnished.processed⟩

/-- The suspended blocks of a core have their payloads. -/
theorem Step.suspends {core after : Core} (step : Step setup name around core after)
    (furnished : core.Furnished) (supplied : ∀ block ∈ core.innerChannel, core.Supplied block) :
    ∀ block ∈ after.innerChannel, after.Supplied block := by
  intro block inside
  obtain old | handed := step.queued.inner block inside
  · exact (supplied block old).mono step.keeps
  · exact (furnished.handed handed).mono step.keeps

/-- At boot nothing is stored and nothing is delivered. -/
theorem boot_furnished : (boot setup name).Furnished := by
  have books := proposeAsLeader_books setup name .new none
  constructor
  · intro block resumed
    cases (mem_boot resumed).1
  · intro missing block inside
    change _ ∈ (proposeAsLeader setup name none .new).txPayloadWaiter at inside
    rw [books.txPayloadWaiter] at inside
    cases inside
  · intro key block inside
    change _ ∈ (proposeAsLeader setup name none .new).store.entries at inside
    rw [books.store] at inside
    cases inside
  · intro b0 b1 block processed
    cases (mem_boot processed).1

end Core

/-- The blocks on their way to the core have their payloads, and so has the next own block. -/
structure Node.Provided (node : Node) : Prop where
  core : node.core.Furnished
  inner : node.halted = false → ∀ block ∈ node.core.innerChannel, node.core.Supplied block
  waiting : ∀ wait ∈ node.payloadWaiter.waiting, node.core.Lacks wait.missing wait.block
  suspended : node.halted = false → ∀ block ∈ node.synchronizer.waiting, node.core.Supplied block
  loopback : node.halted = false → ∀ block ∈ node.rxLoopback, node.core.Supplied block
  announced : ∀ digest ∈ node.rxMempool, (node.core.store.read digest).isSome
  buffered : ∀ digest ∈ node.proposer.buffer, (node.core.store.read digest).isSome

namespace Node

/-- The surroundings in which every resumed block has its payload. -/
def supplying : Surroundings := { unrestricted with resumes := Core.Supplied }

/-- A node whose waiting blocks are provided for resumes supplied blocks only. -/
theorem Provided.permits {node : Node} (provided : node.Provided) {event : Event}
    (running : event = .loopback → node.halted = false) :
    node.Permits setup supplying event :=
  { permits_unrestricted node event with
    back := fun block _ isLoopback next =>
      provided.loopback (running isLoopback) block (next ▸ List.mem_cons_self ..) }

/-- The loopback is served only by a core that runs. -/
theorem Turn.running {node after : Node} {event : Event} (turn : Turn setup name node event after)
    (isLoopback : event = .loopback) : node.halted = false := by
  cases turn with
  | loopback block rest running => exact running
  | _ => cases isLoopback

/-- A turn keeps the record and every key of the store. -/
theorem Turn.keeps {node after : Node} {event : Event} (turn : Turn setup name node event after)
    (sound : node.Sound) : node.core.Keeps after.core :=
  turn.core_preserve (fun core => node.core.Keeps core) sound (permits_unrestricted node event)
    (.refl _) (fun _ _ step keeps => keeps.trans step.keeps)
    fun _ _ fault keeps => keeps.trans fault.keeps

/-- A turn keeps the waiting blocks provided for. -/
theorem Turn.provided {node after : Node} {event : Event}
    (turn : Turn setup name node event after) (sound : node.Sound)
    (regular : node.core.Regular setup name) (provided : node.Provided) : after.Provided := by
  have permits : node.Permits setup supplying event := provided.permits turn.running
  have keeps := turn.keeps sound
  have grows {block : Block} (supplied : node.core.Supplied block) : after.core.Supplied block :=
    supplied.mono keeps
  have step (core later : Core) (step : Core.Step setup name supplying core later)
      (holds : core.Regular setup name ∧ core.Furnished) :
      later.Regular setup name ∧ later.Furnished :=
    ⟨step.regular holds.1, step.furnished holds.2 holds.1.stocked fun _ _ => id⟩
  constructor
  · exact (turn.core_preserve (fun core => core.Regular setup name ∧ core.Furnished) sound permits
      ⟨regular, provided.core⟩ step fun _ _ fault holds =>
        ⟨fault.regular holds.1, fault.furnished holds.2⟩).2
  · intro running
    obtain ⟨last, steps, ⟨same, _⟩ | ⟨halted, _⟩⟩ := turn.turns sound permits
    · rw [same]
      let invariant (core : Core) : Prop := (core.Regular setup name ∧ core.Furnished) ∧
        ∀ block ∈ core.innerChannel, core.Supplied block
      have initially : invariant node.core :=
        ⟨⟨regular, provided.core⟩, provided.inner (turn.halted running)⟩
      exact (steps_preserve steps initially fun core later taken holds =>
        ⟨step core later taken holds.1, taken.suspends holds.1.2 holds.2⟩).2
    · rw [running] at halted
      cases halted
  · intro wait inside
    obtain old | queued := turn.waiting inside
    · exact (provided.waiting wait old).mono keeps
    · exact (provided.core.awaited _ _ queued).mono keeps
  · intro running block inside
    obtain old | queued := turn.suspended inside
    · exact grows (provided.suspended (turn.halted running) block old)
    · exact grows (provided.inner (turn.halted running) block queued)
  · intro running block inside
    obtain old | ⟨wait, waiting, rfl, arrived⟩ | waiting | ⟨_, buffered⟩ := turn.looped inside
    · exact grows (provided.loopback (turn.halted running) block old)
    · exact grows ((provided.waiting wait waiting).supplied arrived)
    · exact grows (provided.suspended (turn.halted running) block waiting)
    · exact grows fun digest listed => provided.buffered digest (buffered digest listed)
  · intro digest inside
    obtain old | stored := turn.announced inside
    · exact keeps.store digest (provided.announced digest old)
    · exact stored
  · intro digest inside
    obtain old | announced := turn.buffered inside
    · exact keeps.store digest (provided.buffered digest old)
    · exact keeps.store digest (provided.announced digest announced)

/-- At boot no block waits. -/
theorem boot_provided : (boot setup name).Provided where
  core := Core.boot_furnished
  inner _ block inside := by
    change block ∈ (Core.proposeAsLeader setup name none .new).innerChannel at inside
    rw [(Core.proposeAsLeader_books setup name .new none).innerChannel] at inside
    cases inside
  waiting _ inside := nomatch inside
  suspended _ _ inside := nomatch inside
  loopback _ _ inside := nomatch inside
  announced _ inside := nomatch inside
  buffered _ inside := nomatch inside

/-- In every reachable state the waiting blocks are provided for. -/
theorem reachable_provided {node : Node} (reachable : (machine setup name).Reachable node) :
    node.Provided :=
  reachable.invariant Provided boot_provided fun _ _ _ reached provided steps =>
    (step_turn steps).provided (reachable_sound reached) (reachable_regular reached) provided

end Node

namespace Core

/-- The reader returns a parent that is at hand. -/
theorem getParentBlock_found [Rounds] {core : Core} {block parent : Block}
    (found : setup.parentOf core.store block = some parent) :
    getParentBlock setup block core = (.ok (some parent), core) := by
  rw [getParentBlock_run]
  unfold Setup.parentOf at found
  split at found
  · rename_i embedded
    cases found
    rw [if_pos embedded]
  · rename_i embedded
    obtain ⟨value, present, decoded⟩ := Option.bind_eq_some_iff.mp found
    rw [if_neg embedded, present]
    dsimp only
    rw [decoded]

/-- The loop of `commit` returns the ancestors when it has enough turns for them. -/
theorem collectAncestors_collects {core : Core} {bound : Nat} {block : Block}
    {ancestors : List Block} (collects : Collects setup core.store bound block ancestors)
    (fuel : Nat) (enough : ancestors.length < fuel) (toCommit : List Block) :
    collectAncestors setup bound fuel block toCommit core =
      (.ok (ancestors.reverse ++ toCommit), core) := by
  induction collects generalizing fuel toCommit with
  | stop reached =>
      cases fuel with
      | zero => cases enough
      | succ fuel =>
          unfold collectAncestors
          rw [Rounds.next_unbounded, if_neg reached]
          rfl
  | more above found collects ih =>
      rename_i child ancestor rest
      cases fuel with
      | zero => cases enough
      | succ fuel =>
          unfold collectAncestors
          rw [Rounds.next_unbounded, if_pos above]
          change Handler.bind (getParentBlock setup child) _ core = _
          unfold Handler.bind
          rw [getParentBlock_found found]
          dsimp only
          rw [ih fuel (Nat.lt_of_succ_lt_succ enough)]
          simp

end Core

/-- The loop climbs as far as it collects. -/
theorem Collects.climbs {store : Store} {bound turns : Nat} {start block : Block}
    {ancestors : List Block} (collects : Collects setup store bound block ancestors)
    (climbs : Climbs setup store bound start turns block) :
    ∃ last, Climbs setup store bound start (turns + ancestors.length) last := by
  induction collects generalizing turns with
  | stop reached => exact ⟨_, climbs⟩
  | more above found collects ih =>
      obtain ⟨last, climbed⟩ := ih (.turn climbs above found)
      refine ⟨last, ?_⟩
      rw [List.length_cons, Nat.add_comm _ 1, ← Nat.add_assoc]
      exact climbed

namespace System.Safe

variable {system : System} {nodes : PublicKey → Node} (safe : System.Safe system nodes)

include safe

/-- A certificate of a checked or own block is for no batch. -/
theorem not_fromBatch {name : PublicKey} {block : Block}
    (trusted : (nodes name).core.Trusted block) : ¬ Core.FromBatch block := by
  rintro ⟨embedded, bytes, same⟩
  rcases safe.voters ((safe.regular name).backed trusted) with
    isGenesis | ⟨voters, isQuorum, voted⟩
  · rw [embedded] at isGenesis
    cases isGenesis
  · exact safe.hash_ne_batch isQuorum voted bytes same

/-- A checked or own block with its parent at hand has a stored block as parent. -/
theorem parent_stored {name : PublicKey} {block : Block}
    (trusted : (nodes name).core.Trusted block) (rooted : (nodes name).core.Rooted block) :
    (block.qc == QC.genesis) = true ∨ ∃ parent, parent.digest = block.parent ∧
      (nodes name).core.store.read block.parent = some (.block parent) := by
  cases embedded : (block.qc == QC.genesis) with
  | true => exact .inl rfl
  | false =>
      right
      rcases rooted with isGenesis | present
      · rw [embedded] at isGenesis
        cases isGenesis
      · obtain ⟨value, found⟩ := Option.isSome_iff_exists.mp present
        have kept := (safe.regular name).stocked.entries _ _ (Store.mem_of_read found)
        generalize isKey : block.parent = key at kept found
        cases kept with
        | batch bytes => exact absurd ⟨embedded, bytes, isKey⟩ (safe.not_fromBatch trusted)
        | block parent => exact ⟨parent, rfl, found⟩

/-- The walk up the stored parents of a certified block ends. -/
theorem collects_exist {name : PublicKey} (bound : Nat) {block : Block}
    (reached : block = .genesis ∨ system.Anchored nodes name block) :
    ∃ ancestors, Collects system.setup (nodes name).core.store bound block ancestors := by
  induction isRound : block.round using Nat.strong_induction_on generalizing block with
  | _ round ih =>
      by_cases above : bound + 1 < block.round
      · rcases reached with rfl | anchored
        · cases above
        · have found : ∃ parent,
              system.setup.parentOf (nodes name).core.store block = some parent := by
            unfold Setup.parentOf
            rcases safe.parent_stored anchored.trusted anchored.rooted with
              isGenesis | ⟨parent, _, present⟩
            · exact ⟨_, if_pos isGenesis⟩
            · by_cases embedded : (block.qc == QC.genesis) = true
              · exact ⟨_, if_pos embedded⟩
              · rw [if_neg embedded, present]
                exact ⟨parent, rfl⟩
          obtain ⟨parent, found⟩ := found
          obtain ⟨parentRound, known⟩ := safe.parent_known anchored.trusted found
          have below := safe.qc_below anchored
          obtain ⟨ancestors, collects⟩ :=
            ih parent.round (by omega) (known.imp_right And.left) rfl
          exact ⟨parent :: ancestors, .more above found collects⟩
      · exact ⟨[], .stop above⟩

/-- The ancestors of a committed head are fewer than the turns of the loop of `commit`. -/
theorem walk_collects {name : PublicKey} {b0 : Block}
    (committed : .committed b0 ∈ (nodes name).core.history) (bound : Nat) :
    ∃ ancestors, Collects system.setup (nodes name).core.store bound b0 ancestors ∧
      ancestors.length < (nodes name).core.store.entries.length + 2 := by
  have reached := (safe.committed committed).imp_right And.left
  obtain ⟨ancestors, collects⟩ := safe.collects_exist bound reached
  obtain ⟨last, climbs⟩ := collects.climbs .start
  obtain ⟨visited, isLength, climbed⟩ := safe.climbed committed climbs
  have few := safe.climbed_length climbed
  exact ⟨ancestors, collects, by omega⟩

/-- The loop of `commit` finds every ancestor of a committed head within its turns. -/
theorem walk_returns {name : PublicKey} {b0 : Block}
    (committed : .committed b0 ∈ (nodes name).core.history) (bound : Nat) :
    ∃ toCommit, Core.collectAncestors system.setup bound
      ((nodes name).core.store.entries.length + 2) b0 [] (nodes name).core =
        (.ok toCommit, (nodes name).core) := by
  obtain ⟨ancestors, collects, few⟩ := safe.walk_collects committed bound
  exact ⟨_, Core.collectAncestors_collects collects _ few []⟩

/-- A commit within the turn delivers only blocks whose payload is in the store. -/
theorem delivers {name : PublicKey} {core : Core} (keeps : core.Keeps (nodes name).core)
    (regular : core.Regular system.setup name) (furnished : core.Furnished) {bound : Nat}
    {b0 : Block} {ancestors : List Block} (decided : .committed b0 ∈ core.history)
    (collects : Collects system.setup core.store bound b0 ancestors) :
    ∀ block ∈ ancestors ++ [b0], core.Supplied block := by
  have head : core.Supplied b0 := by
    obtain ⟨b1, block, processed, _⟩ := regular.stocked.committed b0 decided
    obtain ⟨trusted, parent, _⟩ := regular.stocked.processed b0 b1 block processed
    apply (furnished.processed b0 b1 block processed).2.resolve_right
    intro fromBatch
    rcases (safe.parent (trusted.mono keeps.history) (parent.mono keeps)).2 with
      rfl | ⟨_, anchored⟩
    · have isGenesis : (Block.genesis.qc == QC.genesis) = true := QC.beq_iff.mpr ⟨rfl, rfl⟩
      rw [fromBatch.1] at isGenesis
      cases isGenesis
    · exact safe.not_fromBatch anchored.trusted fromBatch
  have reached : b0 = .genesis ∨ system.Anchored nodes name b0 :=
    (safe.committed (keeps.history _ decided)).imp_right And.left
  have above : ∀ block ∈ ancestors, core.Supplied block := by
    clear head decided
    induction collects with
    | stop => simp
    | more above found collects ih =>
        rcases reached with rfl | anchored
        · cases above
        · have isParent := (regular.stocked.parentOf found).mono keeps
          have next := (safe.parent anchored.trusted isParent).2.imp_right And.right
          have supplied := (furnished.parentOf regular.stocked found).resolve_right
            (safe.not_fromBatch anchored.trusted)
          exact List.forall_mem_cons.mpr ⟨supplied, ih next⟩
  rintro block inside
  rcases List.mem_append.mp inside with isAncestor | isHead
  · exact above block isAncestor
  · exact List.mem_singleton.mp isHead ▸ head

end System.Safe

/-- A turn delivers only blocks whose payload is in the store. -/
theorem System.Turned.delivers {system : System} {nodes after : PublicKey → Node}
    {turn : PublicKey × Event} (turned : System.Turned system nodes turn after)
    (safe : System.Safe system nodes) (safeAfter : System.Safe system after)
    (supplied : ∀ block ∈ (nodes turn.1).core.txCommit, (nodes turn.1).core.Supplied block) :
    ∀ block ∈ (after turn.1).core.txCommit, (after turn.1).core.Supplied block := by
  have reachable := reachable_node safe.reachable turn.1
  have provided := Node.reachable_provided reachable
  have taken := Node.step_turn turned.steps
  have preserved := taken.core_preserve (fun core => (core.Regular system.setup turn.1 ∧
      core.Furnished) ∧ (core.Keeps (after turn.1).core →
        ∀ block ∈ core.txCommit, core.Supplied block))
    (Node.reachable_sound reachable) (provided.permits taken.running)
    ⟨⟨safe.regular turn.1, provided.core⟩, fun _ => supplied⟩ ?_ ?_
  · exact preserved.2 (.refl _)
  · intro core later step ⟨⟨regular, furnished⟩, holds⟩
    refine ⟨⟨step.regular regular, step.furnished furnished regular.stocked fun _ _ => id⟩, ?_⟩
    intro keeps block inside
    have old := holds (step.keeps.trans keeps)
    obtain ⟨same, _⟩ | ⟨b0, ancestors, decided, _, _, collects, _, delivers⟩ := step.commit_cases
    · rw [same] at inside
      exact (old block inside).mono step.keeps
    · rw [delivers] at inside
      rcases List.mem_append.mp inside with isOld | isNew
      · exact (old block isOld).mono step.keeps
      · exact (safeAfter.delivers (step.keeps.trans keeps) regular furnished decided collects
          block isNew).mono step.keeps
  · intro core later fault ⟨⟨regular, furnished⟩, holds⟩
    refine ⟨⟨fault.regular regular, fault.furnished furnished⟩, fun keeps block inside => ?_⟩
    have same : later.txCommit = core.txCommit := by rw [fault.same]
    rw [same] at inside
    exact (holds (fault.keeps.trans keeps) block inside).mono fault.keeps

/-- Stored blocks have their parents and payloads, every walk of `commit` succeeds, and the
batches of delivered blocks are in the store. -/
theorem data_available (collisionFree : CollisionFree) (system : System)
    (few : 3 * system.faultyStake < system.setup.committee.totalVotes)
    (small : 2 * system.setup.committee.totalVotes < 2 ^ 32) (nodes : PublicKey → Node)
    (reachable : system.machine.Reachable nodes) (name : PublicKey) :
    (∀ key block, (key, .block block) ∈ (nodes name).core.store.entries →
      ((block.qc == QC.genesis) = true ∨ ∃ parent, parent.digest = block.parent ∧
        (nodes name).core.store.read block.parent = some (.block parent)) ∧
      ∀ digest ∈ block.payload, ((nodes name).core.store.read digest).isSome) ∧
    (∀ b0, .committed b0 ∈ (nodes name).core.history → ∀ lastCommittedRound,
      ∃ toCommit, Core.collectAncestors system.setup lastCommittedRound
        ((nodes name).core.store.entries.length + 2) b0 [] (nodes name).core =
          (.ok toCommit, (nodes name).core)) ∧
    ∀ block ∈ (nodes name).core.txCommit, ∀ digest ∈ block.payload,
      ((nodes name).core.store.read digest).isSome := by
  have safe : System.Safe system nodes := ⟨collisionFree, few, small, reachable⟩
  refine ⟨fun key block inside => ?_, fun b0 committed => safe.walk_returns committed, ?_⟩
  · have provided := Node.reachable_provided (System.reachable_node reachable name)
    refine ⟨?_, provided.core.stored key block inside⟩
    cases (safe.regular name).stocked.entries _ _ inside with
    | block _ trusted rooted => exact safe.parent_stored trusted rooted
  · refine reachable.invariant (fun nodes => ∀ name, ∀ block ∈ (nodes name).core.txCommit,
      (nodes name).core.Supplied block) ?_ ?_ name
    · intro name block inside
      change block ∈ (Core.proposeAsLeader system.setup name none .new).txCommit at inside
      rw [(Core.proposeAsLeader_books system.setup name .new none).txCommit] at inside
      cases inside
    · intro nodes turn after reached supplied steps name
      have turned := System.step_turned steps
      by_cases same : name = turn.1
      · subst same
        exact turned.delivers ⟨collisionFree, few, small, reached⟩
          ⟨collisionFree, few, small, reached.next steps⟩ (supplied _)
      · rw [turned.others name same]
        exact supplied name

end

namespace Plain

/-- The payload of the committed blocks is at hand after a run without faults. -/
theorem data_available_commitRun : ∃ nodes, four.machine.Reachable nodes ∧
    (nodes (1 : Nat)).core.txCommit ≠ [] ∧
    ∀ block ∈ (nodes (1 : Nat)).core.txCommit, ∀ digest ∈ block.payload,
      ((nodes (1 : Nat)).core.store.read digest).isSome := by
  have taken : ((four.machine.execute four.machine.initial commitRun).map
      fun nodes => (nodes (1 : Nat)).core.txCommit.isEmpty) = some false := by
    decide +kernel
  obtain ⟨nodes, executed, delivered⟩ := Option.map_eq_some_iff.mp taken
  refine ⟨nodes, .execute executed, fun empty => ?_, ?_⟩
  · rw [empty] at delivered
    cases delivered
  · exact (data_available collisionFree four (by decide) (by decide) nodes (.execute executed)
      (1 : Nat)).2.2

/-- Four members whose doubled stake wraps around to zero. One batch decodes as a child of
genesis whose payload nobody has. -/
def wrapped : System where
  setup := setup (committee 4 (2 ^ 29) four_nonempty four_heavy) fun bytes =>
    if bytes = [7] then some (Block.new .genesis none (0 : Nat) 2 [[9]] (sign 0)) else none
  faulty key := decide (key = (3 : Nat))

/-- A QC that the faulty member signs alone. -/
def forge (hash : List Nat) (round : Nat) : QC where
  hash := hash
  round := round
  votes := [((3 : Nat), sign 3 (sha512 (.vote hash round)))]

/-- The child of the batch in the leader's third round. -/
def batchChild : Block := propose (forge (hash (.batch [7])) 2) none 3 3

/-- The child completes a two-chain on the batch. -/
def forgedRun : List (Nat × Event) :=
  [(0, .batch [7]), (0, .message (.propose batchChild)),
    (0, .message (.propose (Block.new (forge batchChild.digest 3) none (3 : Nat) 7
      [hash (.batch [7])] (sign 3))))]

/-- Where the quorum overflows, the core delivers a block whose payload is not in the store. -/
theorem data_available_fails : 3 * wrapped.faultyStake < wrapped.setup.committee.totalVotes ∧
    ∃ nodes, wrapped.machine.Reachable nodes ∧ ∃ block ∈ (nodes (0 : Nat)).core.txCommit,
      ∃ digest ∈ block.payload, ((nodes (0 : Nat)).core.store.read digest).isSome = false := by
  have taken : ((wrapped.machine.execute wrapped.machine.initial forgedRun).map
      fun nodes => (nodes (0 : Nat)).core.txCommit.any fun block => block.payload.any fun digest =>
        !((nodes (0 : Nat)).core.store.read digest).isSome) = some true := by
    decide +kernel
  obtain ⟨nodes, executed, delivered⟩ := Option.map_eq_some_iff.mp taken
  obtain ⟨block, inside, lacks⟩ := List.any_eq_true.mp delivered
  obtain ⟨digest, listed, absent⟩ := List.any_eq_true.mp lacks
  exact ⟨by decide +kernel, nodes, .execute executed, block, inside, digest, listed,
    by simpa using absent⟩

end Plain

end DeflHotstuff
