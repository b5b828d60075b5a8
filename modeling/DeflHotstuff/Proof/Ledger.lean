import DeflHotstuff.Library.Replication
import DeflHotstuff.Proof.Delivery
import DeflHotstuff.Proof.Order
import DeflHotstuff.Proof.Overflow

namespace DeflHotstuff

open Verification

section

variable [Crypto]

/-- A block is on the chain of another one when the links lead down to it. -/
theorem onChain_iff {block : Block} {digest : Digest} :
    OnChain block digest ↔ Relation.ReflTransGen Parent digest block.digest := by
  rw [Relation.reflTransGen_iff_eq_or_transGen]
  unfold OnChain Ancestor
  rw [eq_comm]

/-- The chain of a block continues the chain of its head. -/
theorem OnChain.trans {head block : Block} {digest : Digest} (onHead : OnChain head block.digest)
    (onBlock : OnChain block digest) : OnChain head digest := by
  rw [onChain_iff] at onHead onBlock ⊢
  exact onBlock.trans onHead

/-- Two blocks on one chain are equal or one extends the other. -/
theorem CollisionFree.onChain_line (collisionFree : CollisionFree) {head : Block}
    {digest digest' : Digest} (onChain : OnChain head digest) (onChain' : OnChain head digest') :
    digest = digest' ∨ Ancestor digest digest' ∨ Ancestor digest' digest := by
  rw [onChain_iff] at onChain onChain'
  have unique : ∀ first second entry, Parent first entry → Parent second entry → first = second :=
    fun _ _ _ => collisionFree.parent_unique
  rcases line_of_unique unique onChain onChain' with descends | descends
  · rcases Relation.reflTransGen_iff_eq_or_transGen.mp descends with same | descends
    · exact .inl same.symm
    · exact .inr (.inl descends)
  · rcases Relation.reflTransGen_iff_eq_or_transGen.mp descends with same | descends
    · exact .inl same
    · exact .inr (.inr descends)

namespace Core

/-- What the core delivered is on the chain of a head that it committed. -/
def Headed (core : Core) : Prop :=
  ∀ block ∈ core.txCommit, ∃ head, .committed head ∈ core.history ∧ OnChain head block.digest

/-- The heads stay while nothing is delivered. -/
theorem Headed.mono {core after : Core} (headed : core.Headed)
    (delivers : after.txCommit = core.txCommit)
    (keeps : ∀ action ∈ core.history, action ∈ after.history) : after.Headed := by
  intro block delivered
  rw [delivers] at delivered
  obtain ⟨head, committed, onChain⟩ := headed block delivered
  exact ⟨head, keeps _ committed, onChain⟩

/-- A commit delivers blocks on the chain of its head. -/
theorem Step.headed {system : System} {nodes : PublicKey → Node} {name : PublicKey}
    {around : Surroundings} {core after : Core}
    (step : Core.Step system.setup name around core after) (safe : System.Safe system nodes)
    (stocked : core.Stocked) (keeps : Core.Keeps after (nodes name).core)
    (headed : core.Headed) : after.Headed := by
  have kept : ∀ action ∈ core.history, action ∈ after.history := fun _ => step.history_subset
  obtain ⟨same, _⟩ | ⟨b0, ancestors, decided, _, _, collects, _, delivers⟩ := step.commit_cases
  · exact headed.mono same kept
  · intro block delivered
    rw [delivers] at delivered
    rcases List.mem_append.mp delivered with old | new
    · obtain ⟨head, committed, onChain⟩ := headed block old
      exact ⟨head, kept _ committed, onChain⟩
    · have committed := kept _ decided
      have reached := safe.head_reached (.inr (keeps.history _ committed))
      obtain ⟨last, walked⟩ := safe.walked stocked (step.keeps.trans keeps) collects reached
      have visited : block ∈ b0 :: ancestors :=
        (List.perm_append_singleton b0 ancestors).mem_iff.mp new
      exact ⟨b0, committed, (walked.chain _).mpr (.inl (List.mem_map_of_mem visited))⟩

/-- A core that boots has delivered nothing. -/
theorem boot_headed {setup : Setup} {name : PublicKey} : (Core.boot setup name).Headed := by
  intro block delivered
  have empty : (Core.boot setup name).txCommit = [] :=
    (Core.proposeAsLeader_books setup name .new none).txCommit
  rw [empty] at delivered
  cases delivered

end Core

/-- A failed handler delivers nothing without a head. -/
theorem Core.Fault.headed {setup : Setup} {core after : Core}
    (fault : Core.Fault setup core after) (headed : core.Headed) : after.Headed := by
  cases fault <;> exact headed

/-- A turn of the system keeps what each step of the core and each fault of it keep, where the
steps may look ahead to the end of the turn. -/
theorem System.Turned.core_keeps {system : System} {nodes after : PublicKey → Node}
    {turn : PublicKey × Event} (turned : System.Turned system nodes turn after)
    (reachable : system.machine.Reachable nodes) {around : Surroundings}
    (permits : (nodes turn.1).Permits system.setup around turn.2) {invariant : Core → Prop}
    (holds : invariant (nodes turn.1).core)
    (steps : ∀ core next, Core.Step system.setup turn.1 around core next → core.Stocked →
      next.Keeps (after turn.1).core → invariant core → invariant next)
    (faults : ∀ core next, Core.Fault system.setup core next → invariant core → invariant next) :
    invariant (after turn.1).core := by
  have sound := Node.reachable_sound (System.reachable_node reachable turn.1)
  have preserved := (Node.step_turn turned.steps).core_preserve
    (fun core => core.Regular system.setup turn.1 ∧
      (core.Keeps (after turn.1).core → invariant core))
    sound permits ⟨System.reachable_regular reachable turn.1, fun _ => holds⟩
    (fun core next step holds => ⟨step.regular holds.1, fun keeps =>
      steps core next step holds.1.stocked keeps (holds.2 (step.keeps.trans keeps))⟩)
    fun core next fault holds => ⟨fault.regular holds.1, fun keeps =>
      faults core next fault (holds.2 (fault.keeps.trans keeps))⟩
  exact preserved.2 (Core.Keeps.refl _)

/-- In a safe state every delivered block is below a commit. -/
theorem System.Safe.headed {system : System} {nodes : PublicKey → Node}
    (safe : System.Safe system nodes) (name : PublicKey) : (nodes name).core.Headed := by
  refine safe.reachable.invariant (fun nodes => ∀ name, (nodes name).core.Headed)
    (fun name => Core.boot_headed) ?_ name
  intro nodes turn after reachable headed steps name
  have turned := System.step_turned steps
  by_cases same : name = turn.1
  · subst same
    have safeAfter : System.Safe system after :=
      ⟨safe.collisionFree, safe.few, safe.small, reachable.next steps⟩
    exact turned.core_keeps reachable (Node.permits_unrestricted _ _) (headed turn.1)
      (fun _ _ step stocked keeps => step.headed safeAfter stocked keeps)
      fun _ _ fault => fault.headed
  · rw [turned.others name same]
    exact headed name

/-- While the rounds fit `u64`, any two blocks that honest nodes deliver, as heads of a commit or as
their ancestors, are equal or one extends the other. -/
theorem delivered_line (collisionFree : CollisionFree) (system : System)
    (few : 3 * system.faultyStake < system.setup.committee.totalVotes)
    (small : 2 * system.setup.committee.totalVotes < 2 ^ 32) (nodes : PublicKey → Node)
    (inRange : system.InRange nodes) (first second : PublicKey) (block block' : Block)
    (delivered : block ∈ (nodes first).core.txCommit)
    (delivered' : block' ∈ (nodes second).core.txCommit) :
    block.digest = block'.digest ∨ Ancestor block.digest block'.digest ∨
      Ancestor block'.digest block.digest := by
  have safe : System.Safe system nodes := ⟨collisionFree, few, small, inRange.reachable⟩
  obtain ⟨head, committed, onHead⟩ := safe.headed first block delivered
  obtain ⟨head', committed', onHead'⟩ := safe.headed second block' delivered'
  rcases Nat.le_total head.round head'.round with ordered | ordered
  · have onLater : OnChain head' head.digest := safe.committed_line committed committed' ordered
    exact collisionFree.onChain_line (onLater.trans onHead) onHead'
  · have onLater : OnChain head head'.digest := safe.committed_line committed' committed ordered
    exact collisionFree.onChain_line onHead (onLater.trans onHead')

/-- The digests are of blocks of ascending rounds. -/
def Earlier (earlier later : Digest) : Prop :=
  ∃ block block' : Block, block.digest = earlier ∧ block'.digest = later ∧
    block.round < block'.round

/-- No digest is both earlier and later than another. -/
theorem CollisionFree.earlier_asymm (collisionFree : CollisionFree) (earlier later : Digest)
    (lower : Earlier earlier later) : ¬ Earlier later earlier := by
  rintro ⟨last, first, isLast, isFirst, higher⟩
  obtain ⟨block, block', isBlock, isBlock', lower⟩ := lower
  have sameRound := (collisionFree.block_digest (isBlock.trans isFirst.symm)).2.1
  have sameRound' := (collisionFree.block_digest (isBlock'.trans isLast.symm)).2.1
  omega

namespace Core

/-- The delivered blocks other than genesis, in the order of their delivery. -/
def ledger (core : Core) : List Block :=
  core.txCommit.filter fun block => block.digest ≠ Block.genesis.digest

/-- The ledger has the delivered blocks other than genesis. -/
theorem mem_ledger {core : Core} {block : Block} : block ∈ core.ledger ↔
    block ∈ core.txCommit ∧ block.digest ≠ Block.genesis.digest := by
  simp [ledger]

/-- The digests of the ledger are the delivered ones other than that of genesis. -/
theorem mem_ledger_digests {core : Core} {digest : Digest} :
    digest ∈ core.ledger.map Block.digest ↔
      digest ∈ core.delivered ∧ digest ≠ Block.genesis.digest := by
  unfold delivered
  constructor
  · intro listed
    obtain ⟨block, inside, rfl⟩ := List.mem_map.mp listed
    obtain ⟨delivered, notGenesis⟩ := mem_ledger.mp inside
    exact ⟨List.mem_map_of_mem delivered, notGenesis⟩
  · rintro ⟨delivered, notGenesis⟩
    obtain ⟨block, inside, rfl⟩ := List.mem_map.mp delivered
    exact List.mem_map_of_mem (mem_ledger.mpr ⟨inside, notGenesis⟩)

/-- The commit leaves no gap to the last one and finds at most one ancestor that is new. -/
def Aligned (setup : Setup) (core : Core) (b0 : Block) : Prop :=
  core.Connects b0 ∧ core.FindsOne setup b0

/-- An aligned commit is so by what the commit reads. -/
theorem aligned_reads {setup : Setup} : ReadsDelivery (Aligned setup) := by
  intro core later b0 store lastCommittedRound txCommit aligned
  exact ⟨connects_reads core later b0 store lastCommittedRound txCommit aligned.1,
    findsOne_reads core later b0 store lastCommittedRound txCommit aligned.2⟩

/-- The ledger of a core whose commits are aligned. -/
structure Sequenced (setup : Setup) (core : Core) : Prop where
  once : core.DeliversOnce
  chronological : Chronological setup core.txCommit
  ascending : core.ledger.Pairwise fun earlier later => earlier.round < later.round

end Core

namespace System.Safe

variable {system : System} {nodes : PublicKey → Node} (safe : System.Safe system nodes)

include safe

/-- Of the ancestors of a walk only the first can be new. -/
theorem walk_news {core : Core} (stocked : core.Stocked)
    (chronological : Chronological system.setup core.txCommit) {b0 : Block} {ancestors : List Block}
    (finds : core.FindsOne system.setup b0)
    (collects : Collects system.setup core.store core.lastCommittedRound b0 ancestors) :
    ∀ later ∈ ancestors.tail, Known core.txCommit later.digest := by
  cases collects with
  | stop reached => exact fun _ inside => nomatch inside
  | more above found collects =>
      obtain ⟨parent, isParent, known⟩ := finds
      rw [isParent] at found
      cases found
      rcases known with known | ⟨_, grandparent, isGrandparent, known⟩
      · exact safe.collisionFree.collects_known stocked chronological collects known
      · cases collects with
        | stop reached => exact fun _ inside => nomatch inside
        | more above found collects =>
            rw [isGrandparent] at found
            cases found
            exact List.forall_mem_cons.mpr ⟨known,
              safe.collisionFree.collects_known stocked chronological collects known⟩

/-- What is on the ledger is from no later round than the last commit. -/
theorem ledger_round {name : PublicKey} {core : Core} (once : core.DeliversOnce)
    (keeps : Core.Keeps core (nodes name).core) {block : Block} (listed : block ∈ core.ledger) :
    block.round ≤ core.lastCommittedRound := by
  obtain ⟨delivered, notGenesis⟩ := Core.mem_ledger.mp listed
  have onChain := (once.chain _ notGenesis).mp (List.mem_map_of_mem delivered)
  rw [← once.round]
  exact safe.onChain_round (safe.head_reached (once.head.imp_right (keeps.history _))) onChain

/-- What an aligned commit visits is genesis or from a later round than the last commit. -/
theorem walk_later {name : PublicKey} {core : Core} (once : core.DeliversOnce)
    (keeps : Core.Keeps core (nodes name).core) {b0 last : Block} {blocks : List Block}
    (committed : .committed b0 ∈ (nodes name).core.history)
    (above : core.lastCommittedRound < b0.round) (connects : core.Connects b0)
    (walked : Walked system nodes name (core.lastCommittedRound + 1) b0 blocks last)
    {visited : Block} (inside : visited ∈ blocks) :
    visited = .genesis ∨ core.lastCommittedRound < visited.round := by
  rcases walked.high visited inside with rfl | beyond
  · exact (safe.walk_ends once keeps committed above connects walked).1
  · right
    omega

/-- An aligned commit appends to the ledger in the order of the rounds. -/
theorem commit_ascends {name : PublicKey} {core : Core} (ordered : core.Sequenced system.setup)
    (stocked : core.Stocked) (keeps : Core.Keeps core (nodes name).core) {b0 : Block}
    {ancestors : List Block} (committed : .committed b0 ∈ (nodes name).core.history)
    (above : core.lastCommittedRound < b0.round) (aligned : core.Aligned system.setup b0)
    (collects : Collects system.setup core.store core.lastCommittedRound b0 ancestors) :
    (core.ledger ++ (ancestors ++ [b0]).filter fun block =>
      block.digest ≠ Block.genesis.digest).Pairwise fun earlier later =>
        earlier.round < later.round := by
  obtain ⟨last, walked⟩ := safe.walked stocked keeps collects (safe.head_reached (.inr committed))
  have later {visited : Block} (inside : visited ∈ b0 :: ancestors) :=
    safe.walk_later ordered.once keeps committed above aligned.1 walked inside
  have isGenesis {visited : Block} (inside : visited ∈ b0 :: ancestors)
      (known : Known core.txCommit visited.digest) : visited.digest = Block.genesis.digest := by
    by_contra notGenesis
    obtain ⟨block, delivered, same⟩ := List.mem_map.mp (known.resolve_left notGenesis)
    have low := safe.ledger_round ordered.once keeps
      (Core.mem_ledger.mpr ⟨delivered, same ▸ notGenesis⟩)
    have sameRound := (safe.collisionFree.block_digest same).2.1
    rcases later inside with rfl | high
    · exact notGenesis rfl
    · omega
  have news := safe.walk_news stocked ordered.chronological aligned.2 collects
  have head := (List.pairwise_cons.mp walked.descending).1
  refine List.pairwise_append.mpr ⟨ordered.ascending, ?_, ?_⟩
  · rw [List.filter_append]
    refine List.pairwise_append.mpr ⟨?_, (List.pairwise_singleton _ b0).filter _, ?_⟩
    · cases ancestors with
      | nil => exact List.Pairwise.nil
      | cons parent rest =>
          have nothing : (rest.filter fun block => block.digest ≠ Block.genesis.digest) = [] := by
            rw [List.filter_eq_nil_iff]
            intro visited inside
            simpa using isGenesis (List.mem_cons_of_mem _ (List.mem_cons_of_mem _ inside))
              (news visited inside)
          rw [List.filter_cons, nothing]
          split
          · exact List.pairwise_singleton _ _
          · exact List.Pairwise.nil
    · intro earlier isEarlier last isLast
      cases List.mem_singleton.mp (List.mem_of_mem_filter isLast)
      exact head earlier (List.mem_of_mem_filter isEarlier)
  · intro old listed new isNew
    have low := safe.ledger_round ordered.once keeps listed
    obtain ⟨inside, notGenesis⟩ := List.mem_filter.mp isNew
    rcases later ((List.perm_append_singleton b0 ancestors).mem_iff.mp inside) with rfl | high
    · simp at notGenesis
    · omega

/-- Below a reached block there is genesis and what honest members voted for. -/
theorem chain_voted {name : PublicKey} {head : Block} {digest : Digest}
    (reached : head = .genesis ∨ system.Anchored nodes name head) (onChain : OnChain head digest) :
    digest = Block.genesis.digest ∨ ∃ voter block, system.honest voter = true ∧
      .voted block ∈ (nodes voter).core.history ∧ block.digest = digest := by
  rw [onChain_iff] at onChain
  induction onChain using Relation.ReflTransGen.head_induction_on with
  | refl =>
      rcases reached with rfl | anchored
      · exact .inl rfl
      · obtain ⟨voters, isQuorum, voted⟩ := anchored.certified
        obtain ⟨voter, block, honest, isVoted, isHead, _⟩ := safe.voter isQuorum voted
        exact .inr ⟨voter, block, honest, isVoted, isHead⟩
  | head link _ ih =>
      rcases ih with rfl | ⟨voter, block, honest, isVoted, rfl⟩
      · exact .inl (safe.collisionFree.parent_unique link
          ⟨Block.genesis, rfl, genesis_parentDigest⟩)
      · have trusted := ((safe.regular voter).disciplined.voted block isVoted).2.2.2.2
        rw [safe.collisionFree.parent_unique link ⟨block, rfl, rfl⟩]
        apply (safe.parent_voted trusted).imp_right
        rintro ⟨other, parent, isHonest, voted, isParent, _⟩
        exact ⟨other, parent, isHonest, voted, isParent⟩

/-- The rounds ascend along the chain of a reached block. -/
theorem chain_ascends {name : PublicKey} {head block ancestor : Block}
    (reached : head = .genesis ∨ system.Anchored nodes name head)
    (onChain : OnChain head block.digest) (notGenesis : block.digest ≠ Block.genesis.digest)
    (descends : Ancestor ancestor.digest block.digest) : ancestor.round < block.round := by
  obtain ⟨voter, vote, _, voted, same⟩ := (safe.chain_voted reached onChain).resolve_left notGenesis
  rw [← same] at descends
  rw [← (safe.collisionFree.block_digest same).2.1]
  exact safe.below_voted vote.round voter vote voted rfl descends

/-- The ledger whose head is on the chain of another one's head is a prefix of that one. -/
theorem ledger_prefix {name : PublicKey} {core core' : Core}
    (ordered : core.Sequenced system.setup) (ordered' : core'.Sequenced system.setup)
    (keeps : Core.Keeps core' (nodes name).core)
    (below : core.lastCommitted = .genesis ∨
      OnChain core'.lastCommitted core.lastCommitted.digest) :
    core.ledger.map Block.digest <+: core'.ledger.map Block.digest := by
  have onChain {digest : Digest} (delivered : digest ∈ core.delivered)
      (notGenesis : digest ≠ Block.genesis.digest) : OnChain core'.lastCommitted digest := by
    have onOwn := (ordered.once.chain digest notGenesis).mp delivered
    rcases below with isGenesis | onOther
    · rw [isGenesis] at onOwn
      exact absurd (onOwn.elim id safe.collisionFree.ancestor_genesis) notGenesis
    · exact onOther.trans onOwn
  have reached := safe.head_reached (ordered'.once.head.imp_right (keeps.history _))
  have ascends {core : Core} (ordered : core.Sequenced system.setup) :
      (core.ledger.map Block.digest).Pairwise Earlier :=
    List.pairwise_map.mpr (ordered.ascending.imp fun lower => ⟨_, _, rfl, rfl, lower⟩)
  apply prefix_of_closed safe.collisionFree.earlier_asymm (ascends ordered) (ascends ordered')
  · intro digest listed
    obtain ⟨delivered, notGenesis⟩ := Core.mem_ledger_digests.mp listed
    exact Core.mem_ledger_digests.mpr
      ⟨(ordered'.once.chain digest notGenesis).mpr (onChain delivered notGenesis), notGenesis⟩
  · rintro _ listed _ listed' ⟨earlier, later, rfl, rfl, lower⟩
    obtain ⟨delivered, notGenesis⟩ := Core.mem_ledger_digests.mp listed
    obtain ⟨delivered', notGenesis'⟩ := Core.mem_ledger_digests.mp listed'
    have onEarlier := (ordered'.once.chain _ notGenesis).mp delivered
    apply Core.mem_ledger_digests.mpr ⟨?_, notGenesis⟩
    apply (ordered.once.chain _ notGenesis).mpr
    have onLater := (ordered.once.chain _ notGenesis').mp delivered'
    rcases safe.collisionFree.onChain_line onEarlier (onChain delivered' notGenesis') with
      same | descends | descends
    · rw [same]
      exact onLater
    · exact onLater.trans (.inr descends)
    · have above := safe.chain_ascends reached onEarlier notGenesis descends
      omega

/-- Of two ledgers one is a prefix of the other. -/
theorem ledgers_agree {first second : PublicKey}
    (ordered : (nodes first).core.Sequenced system.setup)
    (ordered' : (nodes second).core.Sequenced system.setup) :
    (nodes first).core.ledger.map Block.digest <+: (nodes second).core.ledger.map Block.digest ∨
      (nodes second).core.ledger.map Block.digest <+:
        (nodes first).core.ledger.map Block.digest := by
  rcases ordered.once.head with isGenesis | committed
  · exact .inl (safe.ledger_prefix ordered ordered' (Core.Keeps.refl _) (.inl isGenesis))
  · rcases ordered'.once.head with isGenesis | committed'
    · exact .inr (safe.ledger_prefix ordered' ordered (Core.Keeps.refl _) (.inl isGenesis))
    · rcases Nat.le_total (nodes first).core.lastCommitted.round
        (nodes second).core.lastCommitted.round with lower | lower
      · exact .inl (safe.ledger_prefix ordered ordered' (Core.Keeps.refl _)
          (.inr (safe.committed_line committed committed' lower)))
      · exact .inr (safe.ledger_prefix ordered' ordered (Core.Keeps.refl _)
          (.inr (safe.committed_line committed' committed lower)))

end System.Safe

/-- A step keeps the ledger in sequence where commits are aligned. -/
theorem Core.Step.keepsOrder {system : System} {nodes : PublicKey → Node} {name : PublicKey}
    {around : Surroundings} {core after : Core}
    (step : Core.Step system.setup name around core after) (safe : System.Safe system nodes)
    (stocked : core.Stocked) (keeps : Core.Keeps after (nodes name).core)
    (aligned : ∀ core b0, around.commits core b0 → core.Aligned system.setup b0)
    (ordered : core.Sequenced system.setup) : after.Sequenced system.setup := by
  have once := step.deliversOnce safe stocked keeps ordered.once
    fun core b0 commits => (aligned core b0 commits).1
  have chronological := step.chronological safe.collisionFree stocked ordered.chronological
    fun core b0 commits => (aligned core b0 commits).2
  refine ⟨once, chronological, ?_⟩
  obtain ⟨same, _⟩ | ⟨b0, ancestors, decided, commits, above, collects, _, delivers⟩ :=
    step.commit_cases
  · unfold ledger
    rw [same]
    exact ordered.ascending
  · unfold ledger
    rw [delivers, List.filter_append]
    exact safe.commit_ascends ordered stocked (step.keeps.trans keeps)
      (keeps.history _ (step.history_subset decided)) above (aligned core b0 commits) collects

/-- A failed handler keeps the ledger in sequence. -/
theorem Core.Fault.keepsOrder {setup : Setup} {core after : Core}
    (fault : Core.Fault setup core after) (ordered : core.Sequenced setup) :
    after.Sequenced setup := by
  refine ⟨fault.deliversOnce ordered.once, fault.chronological ordered.chronological, ?_⟩
  cases fault <;> exact ordered.ascending

/-- An empty ledger is in sequence. -/
theorem Core.boot_keepsOrder (collisionFree : CollisionFree) {setup : Setup} {name : PublicKey} :
    (Core.boot setup name).Sequenced setup := by
  refine ⟨Core.boot_deliversOnce collisionFree, Core.boot_chronological, ?_⟩
  have empty : (Core.boot setup name).txCommit = [] :=
    (Core.proposeAsLeader_books setup name .new none).txCommit
  unfold ledger
  rw [empty]
  exact List.Pairwise.nil

/-- While all commits are aligned, the ledger of every node is ordered. -/
theorem System.run_ordered {system : System} (collisionFree : CollisionFree)
    (few : 3 * system.faultyStake < system.setup.committee.totalVotes)
    (small : 2 * system.setup.committee.totalVotes < 2 ^ 32)
    {turns : List (PublicKey × Event)} {nodes : PublicKey → Node}
    (run : system.machine.Run (fun nodes turn =>
      (nodes turn.1).CommitsMeet system.setup (Core.Aligned system.setup) turn.2) turns nodes)
    (name : PublicKey) : (nodes name).core.Sequenced system.setup := by
  refine run.invariant (fun nodes => ∀ name, (nodes name).core.Sequenced system.setup)
    (fun name => Core.boot_keepsOrder collisionFree) ?_ name
  intro nodes turn after reachable meets ordered steps name
  have turned := System.step_turned steps
  by_cases same : name = turn.1
  · subst same
    have safe : System.Safe system after := ⟨collisionFree, few, small, reachable.next steps⟩
    exact turned.core_keeps reachable (meets.permits Core.aligned_reads) (ordered turn.1)
      (fun _ _ step stocked keeps => step.keepsOrder safe stocked keeps fun _ _ => id)
      fun _ _ fault => fault.keepsOrder
  · rw [turned.others name same]
    exact ordered name

/-- While the rounds fit `u64` and each commit leaves no gap to the last one and finds at most one new
ancestor, the blocks other than genesis that two honest nodes deliver are, in order, one list and a
prefix of it, and their rounds ascend. -/
theorem total_order (collisionFree : CollisionFree) (system : System)
    (few : 3 * system.faultyStake < system.setup.committee.totalVotes)
    (small : 2 * system.setup.committee.totalVotes < 2 ^ 32)
    (turns : List (PublicKey × Event)) (nodes : PublicKey → Node)
    (run : system.machine64.Run (fun nodes turn => system.roundsFit nodes turn = true ∧
      (nodes turn.1).CommitsMeet system.setup (Core.Aligned system.setup) turn.2) turns nodes)
    (first second : PublicKey) :
    ((nodes first).core.ledger.Pairwise fun earlier later => earlier.round < later.round) ∧
      ((nodes first).core.ledger.map Block.digest <+:
          (nodes second).core.ledger.map Block.digest ∨
        (nodes second).core.ledger.map Block.digest <+:
          (nodes first).core.ledger.map Block.digest) := by
  have unbounded := (System.run64 fun _ _ => And.left).mp run
  have safe : System.Safe system nodes := ⟨collisionFree, few, small, unbounded.reachable⟩
  have ordered := System.run_ordered collisionFree few small
    (unbounded.weaken fun _ _ => And.right)
  exact ⟨(ordered first).ascending, safe.ledgers_agree (ordered first) (ordered second)⟩

end

namespace Plain

/-- The QC that the next leader assembles from its own vote and two others. -/
def thirdCertificate : QC where
  hash := thirdBlock.digest
  round := 3
  votes := [0, 1, 2].map fun (key : Nat) => (key, sign key (sha512 (.vote thirdBlock.digest 3)))

/-- The member with key zero builds the fourth block, which reaches one member. -/
def ledgerRun : List (Nat × Event) := commitRun ++ [
  (0, .message (.propose firstBlock)), (0, .message (.propose secondBlock)),
  (0, .message (.propose thirdBlock)),
  (0, .message (.vote (voteFor thirdBlock 1))), (0, .message (.vote (voteFor thirdBlock 2))),
  (0, .proposer []), (0, .proposer []), (0, .proposer []), (0, .proposer []),
  (2, .message (.propose (propose thirdCertificate none 0 4)))]

/-- The run delivers one block at the first member and two at the second. -/
theorem ledgerRun_delivers :
    ((four.machine64.execute four.machine64.initial ledgerRun).map fun nodes =>
      ((nodes (1 : Nat)).core.txCommit.map Block.round,
        (nodes (2 : Nat)).core.txCommit.map Block.round)) = some ([1], [1, 2]) := by
  decide +kernel

/-- An executable form of the condition on the commits. -/
def commitsAligned (core : Core) (b0 : Block) : Bool :=
  commitsNext core b0 && core.findsOne four.setup b0

/-- The computed check of a commit implies that it is aligned. -/
theorem commitsAligned_sound (core : Core) (b0 : Block) (aligned : commitsAligned core b0 = true) :
    core.Aligned four.setup b0 := by
  rw [commitsAligned, Bool.and_eq_true] at aligned
  exact ⟨commitsNext_sound core b0 aligned.1, Core.findsOne_sound aligned.2⟩

/-- One member delivered one block and another one two. -/
theorem total_order_ledgerRun : ∃ nodes : Nat → Node,
    four.machine64.execute four.machine64.initial ledgerRun = some nodes ∧
    (nodes 1).core.txCommit.map Block.round = [1] ∧
      (nodes 2).core.txCommit.map Block.round = [1, 2] ∧
      ((nodes 1).core.ledger.map Block.digest <+: (nodes 2).core.ledger.map Block.digest ∨
        (nodes 2).core.ledger.map Block.digest <+: (nodes 1).core.ledger.map Block.digest) := by
  obtain ⟨nodes, executed, observed⟩ := Option.map_eq_some_iff.mp ledgerRun_delivers
  obtain ⟨atOne, atTwo⟩ := Prod.mk.inj observed
  have passes : four.machine64.Run (fun nodes turn => (four.roundsFit nodes turn &&
      (nodes turn.1).commitsPass four.setup commitsAligned turn.2) = true) ledgerRun nodes :=
    .of_execute (by decide +kernel) executed
  have run := passes.weaken fun _ _ allowed => (Bool.and_eq_true _ _ ▸ allowed).imp_right
    (Node.commitsMeet_of_pass commitsAligned_sound)
  have ordered := total_order collisionFree four (by decide) (by decide) ledgerRun nodes run
    (1 : Nat) (2 : Nat)
  exact ⟨nodes, executed, atOne, atTwo, ordered.2⟩

/-- The two members of the run deliver blocks of one chain. -/
theorem delivered_line_ledgerRun : ∃ (nodes : Nat → Node) (block block' : Block),
    four.machine64.execute four.machine64.initial ledgerRun = some nodes ∧
    block ∈ (nodes 1).core.txCommit ∧ block' ∈ (nodes 2).core.txCommit ∧ block.round = 1 ∧
      block'.round = 2 ∧ (block.digest = block'.digest ∨ Ancestor block.digest block'.digest ∨
        Ancestor block'.digest block.digest) := by
  obtain ⟨nodes, executed, observed⟩ := Option.map_eq_some_iff.mp ledgerRun_delivers
  obtain ⟨atOne, atTwo⟩ := Prod.mk.inj observed
  have first : 1 ∈ (nodes (1 : Nat)).core.txCommit.map Block.round := by
    rw [atOne]
    exact List.mem_cons_self
  have second : 2 ∈ (nodes (2 : Nat)).core.txCommit.map Block.round := by
    rw [atTwo]
    exact List.mem_cons_of_mem _ List.mem_cons_self
  obtain ⟨block, delivered, isFirst⟩ := List.mem_map.mp first
  obtain ⟨block', delivered', isSecond⟩ := List.mem_map.mp second
  exact ⟨nodes, block, block', executed, delivered, delivered', isFirst, isSecond,
    delivered_line collisionFree four (by decide) (by decide) nodes
      (.of_execute (by decide +kernel) executed) (1 : Nat) (2 : Nat) block block' delivered
      delivered'⟩

end Plain

end DeflHotstuff
