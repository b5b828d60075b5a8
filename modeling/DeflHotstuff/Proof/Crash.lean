import DeflHotstuff.Construction.Plain
import DeflHotstuff.Proof.Overflow
import DeflHotstuff.Proof.Votes

namespace DeflHotstuff

open Verification

section

variable [Crypto] {setup : Setup} {name : PublicKey} {around : Surroundings}

namespace Core

/-- A TC message lists a vote, or it makes no request. -/
def AdmitsVotes (setup : Setup) (name : PublicKey) (core : Core) (tc : TC) : Prop :=
  tc.votes ≠ [] ∨ name ≠ setup.committee.getLeader (max core.round (tc.round + 1))

/-- Every TC in a proposal request lists a vote. -/
def RequestsVotes (core : Core) : Prop :=
  ∀ round qc tc, .made round qc (some tc) ∈ core.history → tc.votes ≠ []

/-- A step requests a block with a TC only when the TC lists votes. -/
theorem Step.requestsVotes {core after : Core} (step : Step setup name around core after)
    (requests : core.RequestsVotes) (regular : core.Regular setup name)
    (lists : ∀ core tc, around.admits core tc → core.AdmitsVotes setup name tc) :
    after.RequestsVotes := by
  intro round qc tc inside
  obtain old | ⟨leader, makes, _⟩ := step.new_action inside
  · exact requests round qc tc old
  · cases makes with
    | assembledTc timeout tc assembles =>
        have assembled := (regular.evidenced.addTimeout assembles.arrived assembles.verified).2 tc
          assembles.assembled
        exact TC.votes_ne_nil assembled.1
    | takenTc tc arrived admits =>
        rw [advanceRound_round] at leader
        exact (lists core tc admits).resolve_right (not_not.mpr leader)

/-- A panic or an endless loop requests nothing. -/
theorem Fault.requestsVotes {core after : Core} (fault : Fault setup core after)
    (requests : core.RequestsVotes) : after.RequestsVotes := by
  rw [fault.same]
  exact requests

/-- The request at boot has no TC. -/
theorem boot_requestsVotes : (boot setup name).RequestsVotes := by
  intro round qc tc inside
  cases (mem_boot inside).1

/-- The keys under which the core stored a value. -/
def keys (core : Core) : List Digest := core.store.entries.map Prod.fst

/-- A digest that can be read is a key. -/
theorem mem_keys_of_read {core : Core} {key : Digest} (present : (core.store.read key).isSome) :
    key ∈ core.keys := by
  obtain ⟨value, found⟩ := Option.isSome_iff_exists.mp present
  exact List.mem_map.mpr ⟨_, Store.mem_of_read found, rfl⟩

end Core

/-- What the loop of `commit` has visited below its present block, the latest block first. -/
structure System.Climbed (system : System) (nodes : PublicKey → Node) (name : PublicKey)
    (start present : Block) (visited : List Block) : Prop where
  reached : present = .genesis ∨
    system.Anchored nodes name present ∧ present.digest ∈ start.digest :: (nodes name).core.keys
  above : ∀ block ∈ visited, present.round < block.round
  ordered : visited.Pairwise fun first second => first.round < second.round
  known : ∀ block ∈ visited, block.digest ∈ start.digest :: (nodes name).core.keys

/-- A certified block that is not genesis has its parent at hand. -/
theorem System.present_parent {system : System} {nodes : PublicKey → Node} {name : PublicKey}
    {block : Block} (reached : block = .genesis ∨ system.Anchored nodes name block)
    (embedded : (block.qc == QC.genesis) = false) :
    (nodes name).core.store.read block.parent ≠ none := by
  rcases reached with rfl | anchored
  · have isGenesis : (Block.genesis.qc == QC.genesis) = true := QC.beq_iff.mpr ⟨rfl, rfl⟩
    rw [embedded] at isGenesis
    cases isGenesis
  · intro absent
    rcases anchored.rooted with isGenesis | present
    · rw [embedded] at isGenesis
      cases isGenesis
    · rw [absent] at present
      cases present

namespace System.Safe

variable {system : System} {nodes : PublicKey → Node} (safe : System.Safe system nodes)

include safe

/-- A stored parent of a checked block is genesis or stands under its own digest. -/
theorem parent_known {name : PublicKey} {child parent : Block}
    (trusted : (nodes name).core.Trusted child)
    (found : system.setup.parentOf (nodes name).core.store child = some parent) :
    parent.round = child.qc.round ∧ (parent = .genesis ∨
      system.Anchored nodes name parent ∧ parent.digest ∈ (nodes name).core.keys) := by
  obtain ⟨⟨_, round⟩, isGenesis | ⟨digest, anchored⟩⟩ :=
    safe.parent trusted ((safe.regular name).stocked.parentOf found)
  · exact ⟨round, .inl isGenesis⟩
  · refine ⟨round, ?_⟩
    rcases Core.rooted_of_parentOf found with embedded | present
    · left
      unfold Setup.parentOf at found
      rw [if_pos embedded] at found
      exact (Option.some.inj found).symm
    · right
      rw [digest]
      exact ⟨anchored, Core.mem_keys_of_read present⟩

/-- Every turn of the loop goes to a certified block of a lower round. -/
theorem climbed {name : PublicKey} {start present : Block} {lastCommittedRound turns : Nat}
    (committed : .committed start ∈ (nodes name).core.history)
    (climbs : Climbs system.setup (nodes name).core.store lastCommittedRound start turns present) :
    ∃ visited, visited.length = turns ∧ Climbed system nodes name start present visited := by
  induction climbs with
  | start =>
      refine ⟨[], rfl, ?_, by simp, List.Pairwise.nil, by simp⟩
      exact (safe.committed committed).imp_right fun head => ⟨head.1, List.mem_cons_self ..⟩
  | turn climbs above found ih =>
      rename_i turns child ancestor
      obtain ⟨visited, isLength, climbed⟩ := ih
      rcases climbed.reached with rfl | ⟨anchored, known⟩
      · cases above
      · obtain ⟨round, reached⟩ := safe.parent_known anchored.trusted found
        have below := safe.qc_below anchored
        refine ⟨child :: visited, by rw [List.length_cons, isLength], ?_, ?_, ?_, ?_⟩
        · exact reached.imp_right fun next => ⟨next.1, List.mem_cons_of_mem _ next.2⟩
        · intro block inside
          rcases List.mem_cons.mp inside with rfl | earlier
          · omega
          · have := climbed.above block earlier
            omega
        · exact List.pairwise_cons.mpr ⟨climbed.above, climbed.ordered⟩
        · intro block inside
          rcases List.mem_cons.mp inside with rfl | earlier
          · exact known
          · exact climbed.known block earlier

/-- The loop visits no digest twice, so it ends within the number of stored entries. -/
theorem climbed_length {name : PublicKey} {start present : Block} {visited : List Block}
    (climbed : Climbed system nodes name start present visited) :
    visited.length ≤ (nodes name).core.store.entries.length + 1 := by
  have distinct : (visited.map Block.digest).Nodup :=
    safe.collisionFree.distinct_of_rounds (climbed.ordered.imp fun below => below.ne)
  have inside : visited.map Block.digest ⊆ start.digest :: (nodes name).core.keys := by
    intro digest listed
    obtain ⟨block, isVisited, rfl⟩ := List.mem_map.mp listed
    exact climbed.known block isVisited
  have bound := (distinct.subperm inside).length_le
  simpa [Core.keys] using bound

/-- No core whose requests carry votes can end up where a fault leaves it. -/
theorem no_fault {name : PublicKey} {core : Core}
    (requests : (nodes name).core.RequestsVotes)
    (fault : Core.Fault system.setup core (nodes name).core) : False := by
  have regular := safe.regular name
  have same := fault.same
  have sameStore : core.store = (nodes name).core.store := by rw [same]
  have sameHistory : core.history = (nodes name).core.history := by rw [same]
  have trusts {block : Block} (handed : core.Handed block) : (nodes name).core.Trusted block := by
    unfold Core.Handed at handed
    rw [sameHistory] at handed
    exact regular.tracked.handed handed
  generalize isAfter : (nodes name).core = after at fault
  cases fault with
  | emptyTc block tc handed carried empty =>
      rcases trusts handed with accepted | ⟨sent, qc, cert, built⟩
      · obtain ⟨_, verified, _⟩ := regular.evidenced.accepted block accepted
        exact TC.votes_ne_nil ((Block.verify_ok.mp verified).2.2.2.1 tc carried) empty
      · obtain ⟨_, _, rfl, made⟩ := regular.tracked.built sent qc cert block built
        rw [carried] at made
        exact requests _ _ tc made empty
  | missingParent block parent handed found embedded absent =>
      rw [sameStore] at found absent
      have reached := (safe.parent (trusts handed) (regular.stocked.parentOf found)).2
      exact System.present_parent (reached.imp_right And.right) embedded absent
  | missingAncestor block ancestor turns decided climbs embedded absent =>
      rw [sameStore] at climbs absent
      rw [sameHistory] at decided
      obtain ⟨visited, _, climbed⟩ := safe.climbed decided climbs
      exact System.present_parent (climbed.reached.imp_right And.left) embedded absent
  | endless block ancestor decided climbs =>
      rw [sameStore] at climbs
      rw [sameHistory] at decided
      obtain ⟨visited, isLength, climbed⟩ := safe.climbed decided climbs
      have bound := safe.climbed_length climbed
      omega

end System.Safe

/-- A TC message lists a vote, or it makes no request. -/
def Node.takesVotes (setup : Setup) (name : PublicKey) (node : Node) : Event → Bool
  | .message (.tc tc) => !tc.votes.isEmpty ||
      decide (name ≠ setup.committee.getLeader (max node.core.round (tc.round + 1)))
  | _ => true

/-- The checked turns admit TC messages with votes only. -/
theorem Node.admits_of_takesVotes {node : Node} {event : Event}
    (allowed : node.takesVotes setup name event = true) (tc : TC)
    (isTc : event = .message (.tc tc)) : node.core.AdmitsVotes setup name tc := by
  subst isTc
  simpa [takesVotes, Core.AdmitsVotes] using allowed

/-- A turn that meets the condition halts no core. -/
theorem System.Turned.runs {system : System} {nodes after : PublicKey → Node}
    {turn : PublicKey × Event} (turned : Turned system nodes turn after)
    (safe : System.Safe system nodes) (safeAfter : System.Safe system after)
    (allowed : (nodes turn.1).takesVotes system.setup turn.1 turn.2 = true)
    (running : (nodes turn.1).halted = false) (requests : (nodes turn.1).core.RequestsVotes) :
    (after turn.1).halted = false ∧ (after turn.1).core.RequestsVotes := by
  let around : Surroundings :=
    { Node.unrestricted with admits := fun core tc => core.AdmitsVotes system.setup turn.1 tc }
  have permits : (nodes turn.1).Permits system.setup around turn.2 :=
    { Node.permits_unrestricted (nodes turn.1) turn.2 with
      admits := Node.admits_of_takesVotes allowed }
  have sound := Node.reachable_sound (reachable_node safe.reachable turn.1)
  have taken := Node.step_turn turned.steps
  have kept : (after turn.1).core.RequestsVotes :=
    (taken.core_preserve (fun core => core.Regular system.setup turn.1 ∧ core.RequestsVotes)
      sound permits ⟨safe.regular turn.1, requests⟩
      (fun _ _ step holds =>
        ⟨step.regular holds.1, step.requestsVotes holds.2 holds.1 fun _ _ => id⟩)
      fun _ _ fault holds => ⟨fault.regular holds.1, fault.requestsVotes holds.2⟩).2
  obtain ⟨last, _, ⟨_, sameHalted⟩ | ⟨_, fault⟩⟩ := taken.turns sound permits
  · exact ⟨sameHalted.trans running, kept⟩
  · exact (safeAfter.no_fault kept fault).elim

/-- Below the largest `u64` and while every TC message that makes a request lists a vote, no core
panics or loops for ever. -/
theorem core_never_halts (collisionFree : CollisionFree) (system : System)
    (few : 3 * system.faultyStake < system.setup.committee.totalVotes)
    (small : 2 * system.setup.committee.totalVotes < 2 ^ 32)
    (turns : List (PublicKey × Event)) (nodes : PublicKey → Node)
    (run : system.machine64.Run (fun nodes turn => (system.roundsFit nodes turn &&
      (nodes turn.1).takesVotes system.setup turn.1 turn.2) = true) turns nodes)
    (name : PublicKey) : (nodes name).halted = false := by
  have unbounded := (System.run64 fun _ _ allowed => (Bool.and_eq_true _ _ ▸ allowed).1).mp run
  have running := unbounded.invariant
    (fun nodes => ∀ name, (nodes name).halted = false ∧ (nodes name).core.RequestsVotes)
    (fun name => ⟨rfl, Core.boot_requestsVotes⟩) ?_
  · exact (running name).1
  · intro nodes turn after reachable allowed holds steps name
    have votes : (nodes turn.1).takesVotes system.setup turn.1 turn.2 = true :=
      (Bool.and_eq_true _ _ ▸ allowed).2
    have turned := System.step_turned steps
    by_cases same : name = turn.1
    · subst same
      exact turned.runs ⟨collisionFree, few, small, reachable⟩
        ⟨collisionFree, few, small, reachable.next steps⟩ votes (holds _).1 (holds _).2
    · rw [turned.others name same]
      exact holds name

end

namespace Plain

/-- The third member leads the second round, so the TC of the first one makes it build a block. -/
def tcRun (tc : TC) : List (Nat × Event) :=
  [(1, .timer), (2, .timer), (2, .message (.tc tc)), (2, .proposer []), (2, .loopback)]

/-- After a TC with its votes the third member votes for its own block, and nobody halts. -/
theorem core_never_halts_tcRun : ∃ nodes : Nat → Node,
    four.machine64.execute four.machine64.initial (tcRun (expire 1 0)) = some nodes ∧
      (nodes 2).core.lastVotedRound = 2 ∧ (nodes 2).halted = false := by
  have taken : ((four.machine64.execute four.machine64.initial (tcRun (expire 1 0))).map
      fun nodes => (nodes (2 : Nat)).core.lastVotedRound) = some 2 := by
    decide +kernel
  obtain ⟨nodes, executed, voted⟩ := Option.map_eq_some_iff.mp taken
  exact ⟨nodes, executed, voted, core_never_halts collisionFree four (by decide) (by decide) _ nodes
    (.of_execute (by decide +kernel) executed) (2 : Nat)⟩

/-- Four members whose doubled stake wraps around to zero. One batch decodes as a block whose
parent nobody has. -/
def heavy : System where
  setup := setup (committee 4 (2 ^ 29) four_nonempty four_heavy) fun bytes =>
    if bytes = [7] then some (propose ⟨[9], 1, []⟩ none 0 1) else none
  faulty key := decide (key = (3 : Nat))

/-- A QC for the batch that the faulty member signs alone. -/
def batchQc : QC where
  hash := hash (.batch [7])
  round := 2
  votes := [(3 : Nat)].map fun key => (key, sign key (hash (.vote (hash (.batch [7])) 2)))

def overflowRun : List (Nat × Event) :=
  [(0, .batch [7]), (0, .message (.propose (propose batchQc none 3 3)))]

/-- A TC without votes stops the leader that proposes on it, and where the quorum overflows one
faulty member stops every node that stores its batch. -/
theorem core_never_halts_fails :
    (3 * four.faultyStake < four.setup.committee.totalVotes ∧
      ∃ nodes, four.machine64.Reachable nodes ∧ (nodes (2 : Nat)).halted = true) ∧
    3 * heavy.faultyStake < heavy.setup.committee.totalVotes ∧
      ∃ nodes, heavy.machine64.Reachable nodes ∧ (nodes (0 : Nat)).halted = true := by
  have atLeader : ((four.machine64.execute four.machine64.initial (tcRun ⟨1, []⟩)).map
      fun nodes => (nodes (2 : Nat)).halted) = some true := by
    decide +kernel
  have atBatch : ((heavy.machine64.execute heavy.machine64.initial overflowRun).map
      fun nodes => (nodes (0 : Nat)).halted) = some true := by
    decide +kernel
  obtain ⟨nodes, executed, halted⟩ := Option.map_eq_some_iff.mp atLeader
  obtain ⟨nodes', executed', halted'⟩ := Option.map_eq_some_iff.mp atBatch
  exact ⟨⟨by decide, nodes, .execute executed, halted⟩,
    by decide +kernel, nodes', .execute executed', halted'⟩

end Plain

end DeflHotstuff
