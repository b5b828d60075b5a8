import DeflHotstuff.Proof.Rounds

namespace DeflHotstuff

open Verification

section

variable [Crypto] {setup : Setup} {name : PublicKey} {around : Surroundings}

def Action.madeRound : Action → Option Nat
  | .made round _ _ => some round
  | _ => none

def Action.builtRound : Action → Option Nat
  | .built _ _ _ block => some block.round
  | _ => none

def Stamped.makeRound : Stamped → Option Nat
  | ⟨_, .make round _ _⟩ => some round
  | ⟨_, .cleanup _⟩ => none

namespace Core

/-- The rounds of the proposal requests that the core sent, in order. -/
def madeRounds (core : Core) : List Nat := core.history.filterMap Action.madeRound

/-- The rounds of the blocks that the proposer signed, in order. -/
def builtRounds (core : Core) : List Nat := core.history.filterMap Action.builtRound

/-- The rounds of the requests that the proposer has not taken yet. -/
def pendingRounds (core : Core) : List Nat := core.txProposer.filterMap Stamped.makeRound

/-- A message that arrives makes no request. -/
theorem madeRounds_received (core : Core) (message : ConsensusMessage) :
    (core.record (.received message)).madeRounds = core.madeRounds := by
  rw [madeRounds, record_history, List.filterMap_append]
  exact List.append_nil _

/-- Requests have increasing rounds, and the proposer answers some of them in their order. -/
structure Ordered (core : Core) : Prop where
  increasing : core.madeRounds.Pairwise (· < ·)
  bounded : ∀ round ∈ core.madeRounds, round ≤ core.round
  answered : (core.builtRounds ++ core.pendingRounds).Sublist core.madeRounds

/-- Quiet actions make no request. -/
theorem quiet_madeRounds {new : List Action} (silent : ∀ action ∈ new, action.Quiet) :
    new.filterMap Action.madeRound = [] := by
  rw [List.filterMap_eq_nil_iff]
  intro action inside
  have quiet := silent action inside
  cases action <;> first | rfl | exact quiet.elim

/-- Quiet actions build no block. -/
theorem quiet_builtRounds {new : List Action} (silent : ∀ action ∈ new, action.Quiet) :
    new.filterMap Action.builtRound = [] := by
  rw [List.filterMap_eq_nil_iff]
  intro action inside
  have quiet := silent action inside
  cases action <;> first | rfl | exact quiet.elim

/-- A TC message is current, or the node does not lead its round, or has not yet proposed in it. -/
def AdmitsFresh (setup : Setup) (name : PublicKey) (core : Core) (tc : TC) : Prop :=
  core.round ≤ tc.round ∨ name ≠ setup.committee.getLeader core.round ∨
    core.round ∉ core.madeRounds

/-- A new request is for a later round than every earlier request. -/
theorem makes_later {core after : Core} {round : Nat} {qc : QC} {tc : Option TC}
    (makes : MakesBy setup name around core after round qc tc)
    (leader : name = setup.committee.getLeader round) (regular : core.Regular setup name)
    (ordered : core.Ordered) (fresh : ∀ tc, around.admits core tc → core.AdmitsFresh setup name tc) :
    ∀ earlier ∈ core.madeRounds, earlier < round := by
  intro earlier inside
  have bound := ordered.bounded earlier inside
  cases makes with
  | assembledQc vote qc assembles =>
      have isRound := (regular.evidenced.backed_assembledQc assembles).2.2.2
      have current := assembles.current
      rw [processQc_round]
      omega
  | assembledTc timeout tc assembles =>
      have isRound := ((regular.evidenced.addTimeout assembles.arrived assembles.verified).2 tc
        assembles.assembled).2.2.1
      have current := assembles.current
      rw [advanceRound_round, processQc_round]
      omega
  | takenTc tc arrived admits =>
      rw [advanceRound_round] at leader ⊢
      by_cases current : core.round ≤ tc.round
      · omega
      · rw [max_eq_left (by omega)] at leader ⊢
        rcases fresh tc admits with reached | notLeader | notMade
        · exact absurd reached current
        · exact absurd leader notLeader
        · have different : earlier ≠ core.round := fun same => notMade (same ▸ inside)
          omega

/-- The requests of a longer record come after the earlier ones. -/
theorem grown_madeRounds {core after : Core} {new : List Action}
    (grown : after.history = core.history ++ new) :
    after.madeRounds = core.madeRounds ++ new.filterMap Action.madeRound := by
  rw [madeRounds, grown, List.filterMap_append]
  rfl

/-- The blocks of a longer record come after the earlier ones. -/
theorem grown_builtRounds {core after : Core} {new : List Action}
    (grown : after.history = core.history ++ new) :
    after.builtRounds = core.builtRounds ++ new.filterMap Action.builtRound := by
  rw [builtRounds, grown, List.filterMap_append]
  rfl

/-- A request that is sent waits behind the others. -/
theorem sent_pendingRounds {core after : Core} {stamped : Stamped}
    (sent : after.txProposer = core.txProposer ++ [stamped]) :
    after.pendingRounds = core.pendingRounds ++ stamped.makeRound.toList := by
  rw [pendingRounds, sent, List.filterMap_append]
  cases made : stamped.makeRound <;> simp [pendingRounds, made]

/-- The request that is taken was the first that waits. -/
theorem next_pendingRounds {core after : Core} {stamped : Stamped}
    (next : core.txProposer = stamped :: after.txProposer) :
    core.pendingRounds = stamped.makeRound.toList ++ after.pendingRounds := by
  rw [pendingRounds, next]
  cases made : stamped.makeRound <;> simp [pendingRounds, made]

/-- A step keeps the requests in order when no TC is old. -/
theorem Step.ordered {core after : Core} (step : Step setup name around core after)
    (regular : core.Regular setup name) (ordered : core.Ordered)
    (fresh : ∀ core tc, around.admits core tc → core.AdmitsFresh setup name tc) :
    after.Ordered := by
  obtain ⟨monotone, _, _, _⟩ := step.monotone
  have kept (made : after.madeRounds = core.madeRounds)
      (answered : (after.builtRounds ++ after.pendingRounds).Sublist core.madeRounds) :
      after.Ordered := by
    refine ⟨made ▸ ordered.increasing, ?_, made ▸ answered⟩
    rw [made]
    exact fun round inside => (ordered.bounded round inside).trans monotone
  have answered := ordered.answered
  cases step.effect with
  | quiet new silent grown same =>
      apply kept
      · rw [grown_madeRounds grown, quiet_madeRounds silent, List.append_nil]
      · rw [grown_builtRounds grown, quiet_builtRounds silent, List.append_nil, pendingRounds, same]
        exact answered
  | votes block grown same =>
      apply kept
      · simp [grown_madeRounds grown, Action.madeRound]
      · simpa [grown_builtRounds grown, List.filterMap_cons, Action.builtRound, pendingRounds, same]
          using answered
  | asks new qc tc silent grown sent leader makes =>
      rw [List.append_assoc] at grown
      have made : after.madeRounds = core.madeRounds ++ [after.round] := by
        rw [grown_madeRounds grown, List.filterMap_append, quiet_madeRounds silent]
        rfl
      have built : after.builtRounds = core.builtRounds := by
        rw [grown_builtRounds grown, List.filterMap_append, quiet_builtRounds silent]
        exact List.append_nil _
      have later := makes_later makes leader regular ordered (fresh core)
      constructor
      · rw [made, List.pairwise_append]
        refine ⟨ordered.increasing, List.pairwise_singleton _ _, fun earlier inside round last => ?_⟩
        rw [List.mem_singleton.mp last]
        exact later earlier inside
      · rw [made]
        refine List.forall_mem_append.mpr ⟨fun round inside => ?_, by simp⟩
        exact (ordered.bounded round inside).trans monotone
      · rw [made, built, sent_pendingRounds sent, ← List.append_assoc]
        exact answered.append (List.Sublist.refl _)
  | processes b0 b1 block grown sent =>
      apply kept
      · simp [grown_madeRounds grown, Action.madeRound]
      · simpa [grown_builtRounds grown, List.filterMap_cons, Action.builtRound, sent_pendingRounds sent,
          Stamped.makeRound] using answered
  | cleans sent digests grown next =>
      rw [next_pendingRounds next] at answered
      apply kept
      · simp [grown_madeRounds grown, Action.madeRound]
      · simpa [grown_builtRounds grown, List.filterMap_cons, Action.builtRound, Stamped.makeRound]
          using answered
  | skips sent round qc same next =>
      have grown : after.history = core.history ++ [] := by rw [same, List.append_nil]
      rw [next_pendingRounds next] at answered
      apply kept
      · simp [grown_madeRounds grown]
      · rw [grown_builtRounds grown, List.filterMap_nil, List.append_nil]
        exact ((List.Sublist.refl _).append (List.sublist_cons_self _ _)).trans answered
  | builds sent round qc tc payload full grown next =>
      rw [next_pendingRounds next] at answered
      apply kept
      · simp [grown_madeRounds grown, Action.madeRound]
      · simpa [grown_builtRounds grown, List.filterMap_cons, Action.builtRound, Stamped.makeRound,
          Block.new] using answered

/-- The boot makes at most the request of round one. -/
theorem boot_ordered : (boot setup name).Ordered := by
  have same := proposeAsLeader_same setup name .new none
  unfold boot
  by_cases leader : name = setup.committee.getLeader 1
  · have asked : proposeAsLeader setup name none .new = new.generateProposal none := if_pos leader
    rw [asked]
    exact ⟨List.pairwise_singleton _ _, fun round inside => (List.mem_singleton.mp inside).le,
      List.Sublist.refl _⟩
  · have quiet : proposeAsLeader setup name none .new = new := if_neg leader
    rw [quiet]
    exact ⟨List.Pairwise.nil, fun _ => (nomatch ·), List.Sublist.refl _⟩

/-- A failed handler makes no request out of order. -/
theorem Fault.ordered {core after : Core} (fault : Fault setup core after)
    (ordered : core.Ordered) : after.Ordered := by
  rw [fault.same]
  exact ⟨ordered.increasing, ordered.bounded, ordered.answered⟩

end Core

/-- A TC message is current, or the node does not lead its round, or has not yet proposed in it. -/
def Node.takesFresh (setup : Setup) (name : PublicKey) (node : Node) : Event → Bool
  | .message (.tc tc) => decide (node.core.round ≤ tc.round ∨
      name ≠ setup.committee.getLeader node.core.round ∨ node.core.round ∉ node.core.madeRounds)
  | _ => true

/-- Below the largest `u64` and without an old TC for a round already proposed in, the core asks for
at most one block a round, and the proposer signs at most one. -/
theorem proposes_once (setup : Setup) (name : PublicKey) (events : List Event) (node : Node)
    (run : (Node.machine64 setup name).Run (fun node event =>
      (node.roundsFit setup event && node.takesFresh setup name event) = true) events node) :
    node.core.madeRounds.Nodup ∧ node.core.builtRounds.Nodup := by
  have unbounded := (Node.run64 fun _ _ allowed => (Bool.and_eq_true _ _ ▸ allowed).1).mp run
  let around : Surroundings :=
    { Node.unrestricted with admits := fun core tc => core.AdmitsFresh setup name tc }
  obtain ⟨_, ordered⟩ := Node.run_core around unbounded
    (fun core => core.Regular setup name ∧ core.Ordered)
    ⟨Core.boot_regular, Core.boot_ordered⟩
    (fun node event _ _ allowed =>
      { Node.permits_unrestricted node event with
        admits := fun tc isTc => by
          subst isTc
          have fresh := of_decide_eq_true (Bool.and_eq_true _ _ ▸ allowed).2
          rw [← Core.madeRounds_received node.core (.tc tc)] at fresh
          exact fresh })
    (fun _ _ step holds => ⟨step.regular holds.1, step.ordered holds.1 holds.2 fun _ _ => id⟩)
    (fun _ _ fault holds => ⟨fault.regular holds.1, fault.ordered holds.2⟩)
  have made : node.core.madeRounds.Nodup := ordered.increasing.imp fun below => below.ne
  exact ⟨made, (made.sublist ordered.answered).of_append_left⟩

end

namespace Plain

/-- One TC message makes the third member ask for one block, which it builds. -/
theorem proposes_once_tc : ∃ node : Node,
    (Node.machine64 four.setup (2 : Nat)).execute (Node.boot four.setup (2 : Nat))
      [.message (.tc (expire 1 0)), .proposer []] = some node ∧
    node.core.madeRounds = [2] ∧ node.core.madeRounds.Nodup ∧ node.core.builtRounds.Nodup := by
  have taken : ((Node.machine64 four.setup (2 : Nat)).execute (Node.boot four.setup (2 : Nat))
      [.message (.tc (expire 1 0)), .proposer []]).map
        (fun node => node.core.madeRounds) = some [2] := by
    decide +kernel
  obtain ⟨node, executed, made⟩ := Option.map_eq_some_iff.mp taken
  exact ⟨node, executed, made, proposes_once four.setup (2 : Nat) _ node
    (.of_execute (by decide +kernel) executed)⟩

/-- The leader of the second round gets its TC from two members and a batch in between. -/
def repeatedTc : List Event := [
  .message (.tc (expire 1 0)), .proposer [], .batch [7], .digest 0,
  .message (.tc (expire 1 0)), .proposer [hash (.batch [7])]]

/-- The second copy of a verified TC makes a leader sign a second block of the same round. -/
theorem proposes_once_fails : ∃ node, (Node.machine64 four.setup (2 : Nat)).Run
      (fun _ event => event.certified four.setup.committee = true) repeatedTc node ∧
    ¬ node.core.madeRounds.Nodup ∧ ¬ node.core.builtRounds.Nodup ∧ node.signed.Nodup := by
  have taken : ((Node.machine64 four.setup (2 : Nat)).execute (Node.boot four.setup (2 : Nat))
      repeatedTc).map (fun node => decide (¬ node.core.madeRounds.Nodup ∧
        ¬ node.core.builtRounds.Nodup ∧ node.signed.Nodup)) = some true := by
    decide +kernel
  obtain ⟨node, executed, observed⟩ := Option.map_eq_some_iff.mp taken
  exact ⟨node, .of_execute (by decide +kernel) executed, of_decide_eq_true observed⟩

end Plain

end DeflHotstuff
