import DeflHotstuff.Proof.Proposals

namespace DeflHotstuff

open Verification

section

variable [Crypto] {setup : Setup} {name : PublicKey} {around : Surroundings}

namespace Core

/-- The voting rule for a block built from a proposal request, whatever its payload. -/
def VotableRequest (round : Nat) (qc : QC) (tc : Option TC) : Prop :=
  qc.round + 1 = round ∨ ∃ cert, tc = some cert ∧ cert.round + 1 = round ∧
    ∀ listed ∈ cert.highQcRounds, listed ≤ qc.round

/-- A TC message makes no request, or one that the high QC of the node can carry. -/
def AdmitsVotable (setup : Setup) (name : PublicKey) (core : Core) (tc : TC) : Prop :=
  name ≠ setup.committee.getLeader (max core.round (tc.round + 1)) ∨
    VotableRequest (max core.round (tc.round + 1)) core.highQc (some tc)

/-- Every request can be answered by a votable block, and every block built is well formed. -/
structure Proposes (setup : Setup) (core : Core) : Prop where
  received : ∀ tc, .received (.tc tc) ∈ core.history → tc.verify setup.committee = .ok ()
  made : ∀ round qc tc, .made round qc tc ∈ core.history → VotableRequest round qc tc
  built : ∀ sent qc tc block, .built sent qc tc block ∈ core.history →
    block.Votable ∧ block.verify setup.committee = .ok ()

/-- The high QC and the TC at hand fit the round of every request. -/
theorem makes_votable {core after : Core} {round : Nat} {qc : QC} {tc : Option TC}
    (makes : MakesBy setup name around core after round qc tc)
    (leader : name = setup.committee.getLeader round) (regular : core.Regular setup name)
    (fits : ∀ tc, around.admits core tc → core.AdmitsVotable setup name tc) :
    VotableRequest round qc tc := by
  have below := regular.tracked.highQc
  cases makes with
  | assembledQc vote qc assembles =>
      obtain ⟨isHighQc, isRound⟩ := assembledQc_opens assembles regular
      rw [isHighQc, isRound]
      exact .inl rfl
  | assembledTc timeout tc assembles =>
      obtain ⟨_, _, isRound, listed⟩ := (regular.evidenced.addTimeout assembles.arrived
        assembles.verified).2 tc assembles.assembled
      have current := assembles.current
      rw [advanceRound_round, processQc_round]
      by_cases ahead : tc.round < timeout.highQc.round
      · -- the QC of the last timeout opened a round beyond the TC
        left
        rw [processQc_highQc_round]
        omega
      · exact .inr ⟨tc, rfl, by omega, listed⟩
  | takenTc tc arrived admits =>
      rw [advanceRound_round] at leader ⊢
      exact (fits tc admits).resolve_left (not_not.mpr leader)

/-- A step leaves requests that votable blocks can answer. -/
theorem Step.proposes {core after : Core} (step : Step setup name around core after)
    (regular : core.Regular setup name) (proposes : core.Proposes setup)
    (rights : 0 < setup.committee.stake name)
    (verifies : ∀ tc, around.arrives (.tc tc) → tc.verify setup.committee = .ok ())
    (fits : ∀ core tc, around.admits core tc → core.AdmitsVotable setup name tc) :
    after.Proposes setup := by
  constructor
  · intro tc inside
    obtain old | arrives := step.new_action inside
    · exact proposes.received tc old
    · exact verifies tc arrives
  · intro round qc tc inside
    obtain old | ⟨leader, makes, _⟩ := step.new_action inside
    · exact proposes.made round qc tc old
    · exact makes_votable makes leader regular (fits core)
  · intro sent qc tc block inside
    obtain old | ⟨_, round, payload, rest, next, rfl, full⟩ := step.new_action inside
    · exact proposes.built sent qc tc block old
    · have made := regular.tracked.queued sent round qc tc (next ▸ List.mem_cons_self ..)
      obtain ⟨backed, certs⟩ := regular.evidenced.made round qc tc made
      refine ⟨proposes.made round qc tc made, Block.verify_ok.mpr
        ⟨rights, setup.sign_verifies name _, backed.verifyEmbedded, fun cert same => ?_, full⟩⟩
      exact (certs cert same).elim And.left (proposes.received cert)

/-- The request of the boot can be answered. -/
theorem boot_proposes : (boot setup name).Proposes setup := by
  constructor
  · intro tc inside
    cases (mem_boot inside).1
  · intro round qc tc inside
    cases (mem_boot inside).1
    exact .inl rfl
  · intro sent qc tc block inside
    cases (mem_boot inside).1

/-- A failed handler makes no request. -/
theorem Fault.proposes {core after : Core} (fault : Fault setup core after)
    (proposes : core.Proposes setup) : after.Proposes setup := by
  rw [fault.same]
  exact ⟨proposes.received, proposes.made, proposes.built⟩

end Core

/-- A TC message makes no request, or one that the high QC of the node can carry. -/
def Node.takesVotable (setup : Setup) (name : PublicKey) (node : Node) : Event → Bool
  | .message (.tc tc) =>
      let round := max node.core.round (tc.round + 1)
      decide (name ≠ setup.committee.getLeader round ∨ node.core.highQc.round + 1 = round ∨
        tc.round + 1 = round ∧ ∀ listed ∈ tc.highQcRounds, listed ≤ node.core.highQc.round)
  | _ => true

/-- The computed check of an event gives the condition on its TC. -/
theorem Node.admits_of_takesVotable {node : Node} {event : Event}
    (allowed : node.takesVotable setup name event = true) (tc : TC)
    (isTc : event = .message (.tc tc)) : node.core.AdmitsVotable setup name tc := by
  subst isTc
  refine (of_decide_eq_true allowed).imp_right (Or.imp_right fun carried => ?_)
  exact ⟨tc, rfl, carried⟩

/-- With verified certificates of rounds below the largest `u64` and a high QC behind each TC message
that makes a request, every request can be answered by a votable block, and every block built passes
its check. -/
theorem proposals_votable (setup : Setup) (name : PublicKey)
    (rights : 0 < setup.committee.stake name) (events : List Event) (node : Node)
    (run : (Node.machine64 setup name).Run (fun node event => (node.roundsFit setup event &&
      (event.certified setup.committee && node.takesVotable setup name event)) = true)
      events node) :
    (∀ round qc tc payload, .made round qc tc ∈ node.core.history →
      (Block.new qc tc name round payload (setup.sign name)).Votable) ∧
      ∀ sent qc tc block, .built sent qc tc block ∈ node.core.history →
        block.verify setup.committee = .ok () := by
  have unbounded := (Node.run64 fun _ _ allowed => (Bool.and_eq_true _ _ ▸ allowed).1).mp run
  let around : Surroundings :=
    { Node.unrestricted with
      arrives := fun message => ∀ tc, message = .tc tc → tc.verify setup.committee = .ok ()
      admits := fun core tc => core.AdmitsVotable setup name tc }
  obtain ⟨_, proposes⟩ := Node.run_core around unbounded
    (fun core => core.Regular setup name ∧ core.Proposes setup)
    ⟨Core.boot_regular, Core.boot_proposes⟩
    (fun node event _ _ allowed => by
      simp only [Bool.and_eq_true] at allowed
      obtain ⟨-, certified, votable⟩ := allowed
      exact { Node.permits_unrestricted node event with
        arrives := by
          rintro message rfl tc rfl
          exact accepts_iff.mp certified
        admits := Node.admits_of_takesVotable votable })
    (fun _ _ step holds => ⟨step.regular holds.1,
      step.proposes holds.1 holds.2 rights (fun tc arrives => arrives tc rfl) fun _ _ => id⟩)
    (fun _ _ fault holds => ⟨fault.regular holds.1, fault.proposes holds.2⟩)
  exact ⟨fun round qc tc _ made => proposes.made round qc tc made,
    fun sent qc tc block built => (proposes.built sent qc tc block built).2⟩

end

namespace Plain

/-- A TC that lists no later QC than the node's own makes the third member build a block. -/
theorem proposals_votable_tc : ∃ node : Node,
    (Node.machine64 four.setup (2 : Nat)).execute (Node.boot four.setup (2 : Nat))
      [.message (.tc (expire 1 0)), .proposer []] = some node ∧
    node.core.builtRounds = [2] ∧
    (∀ round qc tc payload, .made round qc tc ∈ node.core.history →
      (Block.new qc tc (2 : Nat) round payload (four.setup.sign (2 : Nat))).Votable) ∧
      ∀ sent qc tc block, .built sent qc tc block ∈ node.core.history →
        block.verify four.setup.committee = .ok () := by
  have taken : ((Node.machine64 four.setup (2 : Nat)).execute (Node.boot four.setup (2 : Nat))
      [.message (.tc (expire 1 0)), .proposer []]).map
        (fun node => node.core.builtRounds) = some [2] := by
    decide +kernel
  obtain ⟨node, executed, built⟩ := Option.map_eq_some_iff.mp taken
  exact ⟨node, executed, built, proposals_votable four.setup (2 : Nat) (by decide) _ node
    (.of_execute (by decide +kernel) executed)⟩

def votableBlocks (node : Node) : List Bool :=
  node.core.history.filterMap fun action => match action with
    | .built _ _ _ block => some (decide block.Votable)
    | _ => none

/-- A verified TC of a later round reports QCs that the node does not have, and its leader
proposes from its own old QC. -/
theorem proposals_votable_fails : ∃ node, (Node.machine64 four.setup (2 : Nat)).Run
      (fun _ event => event.certified four.setup.committee = true)
      [.message (.tc (expire 5 4)), .proposer []] node ∧
    ∃ sent qc tc block, .built sent qc tc block ∈ node.core.history ∧ ¬ block.Votable := by
  have taken : ((Node.machine64 four.setup (2 : Nat)).execute (Node.boot four.setup (2 : Nat))
      [.message (.tc (expire 5 4)), .proposer []]).map votableBlocks = some [false] := by
    decide +kernel
  obtain ⟨node, executed, observed⟩ := Option.map_eq_some_iff.mp taken
  refine ⟨node, .of_execute (by decide +kernel) executed, ?_⟩
  have listed : false ∈ votableBlocks node := observed ▸ List.mem_singleton.mpr rfl
  obtain ⟨action, recorded, notVotable⟩ := List.mem_filterMap.mp listed
  cases action with
  | built sent qc tc block =>
      exact ⟨sent, qc, tc, block, recorded, of_decide_eq_false (Option.some.inj notVotable)⟩
  | _ => cases notVotable

end Plain

end DeflHotstuff
