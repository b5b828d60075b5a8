import DeflHotstuff.Construction.Plain
import DeflHotstuff.Library.Machine
import DeflHotstuff.Proof.Aggregation

namespace DeflHotstuff

open Verification

section

variable [Crypto]

inductive AggregatorCall where
  | addVote (vote : Vote)
  | addTimeout (timeout : Timeout)
  | cleanup (round : Nat)

/-- The vote or timeout passes its check. -/
def AggregatorCall.verified (committee : Committee) : AggregatorCall → Bool
  | .addVote vote => accepts (vote.verify committee)
  | .addTimeout timeout => accepts (timeout.verify committee)
  | .cleanup _ => true

/-- The certificate that a call returns. -/
def returned {Certificate : Type} : ConsensusResult (Option Certificate) → List Certificate
  | .ok (some certificate) => [certificate]
  | _ => []

/-- The aggregator with the votes and timeouts that it took and the certificates that it
returned, apart from those of the rounds that a cleanup dropped since. -/
structure Aggregation where
  aggregator : Aggregator
  votes : List Vote
  timeouts : List Timeout
  qcs : List QC
  tcs : List TC

namespace Aggregation

variable (committee : Committee)

def new : Aggregation := ⟨.new, [], [], [], []⟩

def step (state : Aggregation) : AggregatorCall → Option Aggregation
  | .addVote vote =>
      let (result, aggregator) := state.aggregator.addVote vote committee
      some { state with
        aggregator := aggregator
        votes := state.votes ++ [vote]
        qcs := state.qcs ++ returned result }
  | .addTimeout timeout =>
      let (result, aggregator) := state.aggregator.addTimeout timeout committee
      some { state with
        aggregator := aggregator
        timeouts := state.timeouts ++ [timeout]
        tcs := state.tcs ++ returned result }
  | .cleanup round => some {
      aggregator := state.aggregator.cleanup round
      votes := state.votes.filter fun vote => round ≤ vote.round
      timeouts := state.timeouts.filter fun timeout => round ≤ timeout.round
      qcs := state.qcs.filter fun qc => round ≤ qc.round
      tcs := state.tcs.filter fun tc => round ≤ tc.round }

def machine : Machine Aggregation AggregatorCall := ⟨new, step committee⟩

/-- The authors of the votes in the round for a digest, which covers the hash and the round. -/
def voters (state : Aggregation) (round : Nat) (digest : Digest) : Finset PublicKey :=
  ((state.votes.filter fun vote => vote.round = round ∧ vote.digest = digest).map
    Vote.author).toFinset

def expirers (state : Aggregation) (round : Nat) : Finset PublicKey :=
  ((state.timeouts.filter fun timeout => timeout.round = round).map Timeout.author).toFinset

def qcsFor (state : Aggregation) (round : Nat) (digest : Digest) : List QC :=
  state.qcs.filter fun qc => qc.round = round ∧ qc.digest = digest

def tcsFor (state : Aggregation) (round : Nat) : List TC :=
  state.tcs.filter fun tc => tc.round = round

end Aggregation

variable {committee : Committee}

def Committee.stakeOf (committee : Committee) (names : Finset PublicKey) : Nat :=
  ∑ name ∈ names, committee.stake name

/-- The answer to a vote or timeout of the author after those of the authors that arrived. -/
inductive Committee.Answers {Certificate : Type} (committee : Committee)
    (arrived : Finset PublicKey) (name : PublicKey) (made : Certificate → Prop) :
    ConsensusResult (Option Certificate) → Prop
  | reused (known : name ∈ arrived) :
      Answers committee arrived name made (.error (.authorityReuse name))
  | completes (fresh : name ∉ arrived) (below : committee.stakeOf arrived < committee.quorumThreshold)
      (reached : committee.quorumThreshold ≤ committee.stakeOf (insert name arrived))
      (certificate : Certificate) (isMade : made certificate) :
      Answers committee arrived name made (.ok (some certificate))
  | counted (fresh : name ∉ arrived)
      (early : ¬ (committee.stakeOf arrived < committee.quorumThreshold ∧
        committee.quorumThreshold ≤ committee.stakeOf (insert name arrived))) :
      Answers committee arrived name made (.ok none)

/-- One certificate once the authors that arrived reach the threshold. -/
def Committee.due (committee : Committee) (arrived : Finset PublicKey) : Nat :=
  if committee.quorumThreshold ≤ committee.stakeOf arrived then 1 else 0

/-- What every certificate made meets may be weakened. -/
theorem Committee.Answers.weaken {Certificate : Type} {arrived : Finset PublicKey}
    {name : PublicKey} {made weaker : Certificate → Prop}
    {result : ConsensusResult (Option Certificate)}
    (answers : committee.Answers arrived name made result)
    (implies : ∀ certificate, result = .ok (some certificate) → made certificate →
      weaker certificate) : committee.Answers arrived name weaker result := by
  cases answers with
  | reused known => exact .reused known
  | completes fresh below reached certificate isMade =>
      exact .completes fresh below reached certificate (implies certificate rfl isMade)
  | counted fresh early => exact .counted fresh early

/-- The answers keep the number of certificates due. -/
theorem Committee.Answers.due {Certificate : Type} {arrived : Finset PublicKey}
    {name : PublicKey} {made : Certificate → Prop} {result : ConsensusResult (Option Certificate)}
    (answers : committee.Answers arrived name made result) :
    committee.due arrived + (returned result).length = committee.due (insert name arrived) := by
  unfold Committee.due
  cases answers with
  | reused known => simp [returned, Finset.insert_eq_of_mem known]
  | completes fresh below reached certificate isMade =>
      rw [if_neg (Nat.not_le.mpr below), if_pos reached]
      rfl
  | counted fresh early =>
      have grows : committee.stakeOf arrived ≤ committee.stakeOf (insert name arrived) :=
        Finset.sum_le_sum_of_subset (Finset.subset_insert name arrived)
      simp only [returned, List.length_nil, Nat.add_zero]
      split <;> split <;> first | rfl | omega

/-- What is returned is the certificate that was made. -/
theorem Committee.Answers.made {Certificate : Type} {arrived : Finset PublicKey}
    {name : PublicKey} {made : Certificate → Prop} {result : ConsensusResult (Option Certificate)}
    (answers : committee.Answers arrived name made result) {certificate : Certificate}
    (inside : certificate ∈ returned result) : made certificate := by
  cases answers with
  | completes fresh below reached certificate isMade =>
      rw [List.mem_singleton.mp inside]
      exact isMade
  | reused => cases inside
  | counted => cases inside

/-- The counter of a maker accounts for the authors that arrived. -/
structure Counted (committee : Committee) (arrived : Finset PublicKey) (used : List PublicKey)
    (weight : Nat) : Prop where
  same : ∀ name, name ∈ used ↔ name ∈ arrived
  members : arrived ⊆ committee.keys.toFinset
  counts : Counts committee.stake committee.quorumThreshold arrived weight

namespace Counted

/-- Before the first vote nothing is counted. -/
theorem empty : Counted committee ∅ [] 0 :=
  ⟨by simp, Finset.empty_subset _, .empty committee.quorumThreshold_pos⟩

variable {arrived : Finset PublicKey} {used : List PublicKey} {weight : Nat} {name : PublicKey}

/-- An authority with stake is a member. -/
theorem member (right : 0 < committee.stake name) : name ∈ committee.keys.toFinset :=
  List.mem_toFinset.mpr (committee.mem_keys_of_stake right)

/-- A fresh member adds its stake, and at the threshold the weight starts again. -/
theorem insert (counted : Counted committee arrived used weight) (fresh : name ∉ used)
    (right : 0 < committee.stake name) :
    Counted committee (insert name arrived) (name :: used)
      (if committee.quorumThreshold ≤ weight + committee.stake name then 0
        else weight + committee.stake name) where
  same other := by rw [List.mem_cons, Finset.mem_insert, counted.same]
  members := Finset.insert_subset (member right) counted.members
  counts := counted.counts.insert (fun known => fresh ((counted.same name).mpr known))

/-- The counter reaches the threshold exactly when the authors do so for the first time. -/
theorem reaches (counted : Counted committee arrived used weight)
    (small : 2 * committee.totalVotes < 2 ^ 32) (fresh : name ∉ used)
    (right : 0 < committee.stake name) :
    committee.quorumThreshold ≤ weight + committee.stake name ↔
      committee.stakeOf arrived < committee.quorumThreshold ∧
        committee.quorumThreshold ≤ committee.stakeOf (Insert.insert name arrived) := by
  refine counted.counts.reaches (fun known => fresh ((counted.same name).mpr known))
    (Finset.insert_subset (member right) counted.members) ?_
  rw [committee.sum_stake, committee.quorumThreshold_eq small, quorum]
  omega

end Counted

/-- A fresh author completes a certificate or is counted. -/
theorem Counted.answers {Certificate : Type} {arrived : Finset PublicKey} {used : List PublicKey}
    {weight : Nat} {name : PublicKey} (counted : Counted committee arrived used weight)
    (small : 2 * committee.totalVotes < 2 ^ 32) (fresh : name ∉ used)
    (right : 0 < committee.stake name) (made : Certificate → Prop) (certificate : Certificate)
    (isMade : made certificate) :
    committee.Answers arrived name made
      (if committee.quorumThreshold ≤ weight + committee.stake name then .ok (some certificate)
        else .ok none) := by
  have notArrived : name ∉ arrived := fun inside => fresh ((counted.same name).mpr inside)
  have reaches := counted.reaches small fresh right
  split
  · rename_i reached
    obtain ⟨below, enough⟩ := reaches.mp reached
    exact .completes notArrived below enough certificate isMade
  · rename_i early
    exact .counted notArrived (mt reaches.mpr early)

/-- The maker answers a vote by the stake of the distinct authors and keeps its count. -/
theorem QCMaker.append_answers {maker : QCMaker} {vote : Vote} {arrived : Finset PublicKey}
    (counted : Counted committee arrived maker.used maker.weight)
    (small : 2 * committee.totalVotes < 2 ^ 32) (right : 0 < committee.stake vote.author) :
    committee.Answers arrived vote.author
        (fun qc : QC => qc.hash = vote.hash ∧ qc.round = vote.round) (maker.append vote committee).1 ∧
      Counted committee (insert vote.author arrived) (maker.append vote committee).2.used
        (maker.append vote committee).2.weight ∧
      (vote.author ∈ arrived → (maker.append vote committee).2 = maker) := by
  by_cases known : vote.author ∈ maker.used
  · have arrivedBefore := (counted.same vote.author).mp known
    rw [append, if_pos known, Finset.insert_eq_of_mem arrivedBefore]
    exact ⟨.reused arrivedBefore, counted, fun _ => rfl⟩
  · have grown := counted.insert known right
    have answers := counted.answers small known right
      (fun qc : QC => qc.hash = vote.hash ∧ qc.round = vote.round)
      ⟨vote.hash, vote.round, maker.votes ++ [(vote.author, vote.signature)]⟩ ⟨rfl, rfl⟩
    have fresh : vote.author ∉ arrived := fun inside => known ((counted.same _).mpr inside)
    rw [append, if_neg known]
    by_cases reached : committee.quorumThreshold ≤ maker.weight + committee.stake vote.author
    · simp only [if_pos reached] at grown answers ⊢
      exact ⟨answers, grown, fun inside => absurd inside fresh⟩
    · simp only [if_neg reached] at grown answers ⊢
      exact ⟨answers, grown, fun inside => absurd inside fresh⟩

/-- A timeout is answered by how many members expired before, and a repeated one changes nothing. -/
theorem TCMaker.append_answers {maker : TCMaker} {timeout : Timeout} {arrived : Finset PublicKey}
    (counted : Counted committee arrived maker.used maker.weight)
    (small : 2 * committee.totalVotes < 2 ^ 32) (right : 0 < committee.stake timeout.author) :
    committee.Answers arrived timeout.author
        (fun tc : TC => tc.round = timeout.round) (maker.append timeout committee).1 ∧
      Counted committee (insert timeout.author arrived) (maker.append timeout committee).2.used
        (maker.append timeout committee).2.weight ∧
      (timeout.author ∈ arrived → (maker.append timeout committee).2 = maker) := by
  by_cases known : timeout.author ∈ maker.used
  · have arrivedBefore := (counted.same timeout.author).mp known
    rw [append, if_pos known, Finset.insert_eq_of_mem arrivedBefore]
    exact ⟨.reused arrivedBefore, counted, fun _ => rfl⟩
  · have grown := counted.insert known right
    have answers := counted.answers small known right (fun tc : TC => tc.round = timeout.round)
      ⟨timeout.round,
        maker.votes ++ [(timeout.author, timeout.signature, timeout.highQc.round)]⟩ rfl
    have fresh : timeout.author ∉ arrived := fun inside => known ((counted.same _).mpr inside)
    rw [append, if_neg known]
    by_cases reached : committee.quorumThreshold ≤ maker.weight + committee.stake timeout.author
    · simp only [if_pos reached] at grown answers ⊢
      exact ⟨answers, grown, fun inside => absurd inside fresh⟩
    · simp only [if_neg reached] at grown answers ⊢
      exact ⟨answers, grown, fun inside => absurd inside fresh⟩

/-- A vote that leaves its maker unchanged leaves the aggregator unchanged. -/
theorem Aggregator.addVote_same {aggregator : Aggregator} {vote : Vote}
    (same : ((aggregator.votesAggregators vote.round vote.digest).append vote committee).2 =
      aggregator.votesAggregators vote.round vote.digest) :
    (aggregator.addVote vote committee).2 = aggregator := by
  unfold addVote
  cases aggregator
  simp only [Aggregator.mk.injEq, and_true]
  funext round digest
  split
  · rename_i key
    rw [key.1, key.2]
    exact same
  · rfl

/-- A timeout that its maker refuses leaves the aggregator as it is. -/
theorem Aggregator.addTimeout_same {aggregator : Aggregator} {timeout : Timeout}
    (same : ((aggregator.timeoutsAggregators timeout.round).append timeout committee).2 =
      aggregator.timeoutsAggregators timeout.round) :
    (aggregator.addTimeout timeout committee).2 = aggregator := by
  unfold addTimeout
  cases aggregator
  simp only [Aggregator.mk.injEq, true_and]
  funext round
  split
  · rename_i key
    rw [key]
    exact same
  · rfl

namespace Aggregation

variable {state : Aggregation} {vote : Vote} {timeout : Timeout}

/-- The makers account for the authors, and each key has returned the certificate that is due. -/
structure Exact (committee : Committee) (state : Aggregation) : Prop where
  votes : ∀ round digest, Counted committee (state.voters round digest)
    (state.aggregator.votesAggregators round digest).used
    (state.aggregator.votesAggregators round digest).weight
  timeouts : ∀ round, Counted committee (state.expirers round)
    (state.aggregator.timeoutsAggregators round).used
    (state.aggregator.timeoutsAggregators round).weight
  sound : ∃ bound, state.aggregator.Sound committee (fun _ => True) bound
  qcs : ∀ round digest, (state.qcsFor round digest).length =
    committee.due (state.voters round digest)
  tcs : ∀ round, (state.tcsFor round).length = committee.due (state.expirers round)
  validQcs : ∀ qc ∈ state.qcs, qc.verify committee = .ok ()
  validTcs : ∀ tc ∈ state.tcs, tc.verify committee = .ok ()

/-- Without authors no certificate is due. -/
theorem due_empty : committee.due ∅ = 0 := if_neg (Nat.not_le.mpr committee.quorumThreshold_pos)

/-- Before the first call the aggregation is exact. -/
theorem new_exact : new.Exact committee := by
  exact ⟨fun _ _ => .empty, fun _ => .empty, ⟨0, Aggregator.new_sound⟩, fun _ _ => due_empty.symm,
    fun _ => due_empty.symm, by simp [new], by simp [new]⟩

/-- The aggregator answers a vote as the authors for its key ask. -/
theorem Exact.addVote_answers (exact : state.Exact committee)
    (small : 2 * committee.totalVotes < 2 ^ 32) (verified : vote.verify committee = .ok ()) :
    committee.Answers (state.voters vote.round vote.digest) vote.author
        (fun qc => qc.hash = vote.hash ∧ qc.round = vote.round ∧ qc.verify committee = .ok ())
        (state.aggregator.addVote vote committee).1 ∧
      (vote.author ∈ state.voters vote.round vote.digest →
        (state.aggregator.addVote vote committee).2 = state.aggregator) := by
  obtain ⟨bound, sound⟩ := exact.sound
  obtain ⟨answers, _, keeps⟩ := QCMaker.append_answers (exact.votes vote.round vote.digest) small
    (Vote.verify_ok.mp verified).1
  constructor
  · refine answers.weaken fun qc isAnswer made => ⟨made.1, made.2, ?_⟩
    exact ((sound.addVote verified trivial).2 qc isAnswer).1
  · intro known
    exact Aggregator.addVote_same (keeps known)

/-- The answer to a timeout tells whether its author completes the quorum of the round. -/
theorem Exact.addTimeout_answers (exact : state.Exact committee)
    (small : 2 * committee.totalVotes < 2 ^ 32) (verified : timeout.verify committee = .ok ()) :
    committee.Answers (state.expirers timeout.round) timeout.author
        (fun tc => tc.round = timeout.round ∧ tc.verify committee = .ok ())
        (state.aggregator.addTimeout timeout committee).1 ∧
      (timeout.author ∈ state.expirers timeout.round →
        (state.aggregator.addTimeout timeout committee).2 = state.aggregator) := by
  obtain ⟨bound, sound⟩ := exact.sound
  obtain ⟨answers, _, keeps⟩ := TCMaker.append_answers (exact.timeouts timeout.round) small
    (Timeout.verify_ok.mp verified).1
  constructor
  · refine answers.weaken fun tc isAnswer made => ⟨made, ?_⟩
    have raised := sound.mono (fun _ => id) (Nat.le_max_left bound timeout.highQc.round)
    exact ((raised.addTimeout verified trivial (Nat.le_max_right _ _)).2 tc isAnswer).1
  · intro known
    exact Aggregator.addTimeout_same (keeps known)

/-- A vote counts for its own key only. -/
theorem voters_addVote (aggregator : Aggregator) (qcs : List QC) (round : Nat) (digest : Digest) :
    ({ state with aggregator := aggregator, votes := state.votes ++ [vote], qcs := qcs } :
      Aggregation).voters round digest =
      if vote.round = round ∧ vote.digest = digest then insert vote.author (state.voters round digest)
      else state.voters round digest := by
  unfold voters
  rw [List.filter_append, List.map_append, List.toFinset_append]
  split
  · rename_i key
    simp [key, Finset.union_comm]
  · rename_i other
    simp [other]

/-- The author of a timeout joins those of its round. -/
theorem expirers_addTimeout (aggregator : Aggregator) (tcs : List TC) (round : Nat) :
    ({ state with aggregator := aggregator, timeouts := state.timeouts ++ [timeout], tcs := tcs } :
      Aggregation).expirers round =
      if timeout.round = round then insert timeout.author (state.expirers round)
      else state.expirers round := by
  unfold expirers
  rw [List.filter_append, List.map_append, List.toFinset_append]
  split
  · rename_i key
    simp [key, Finset.union_comm]
  · rename_i other
    simp [other]

/-- A verified vote keeps the aggregation exact. -/
theorem Exact.addVote (exact : state.Exact committee) (small : 2 * committee.totalVotes < 2 ^ 32)
    (verified : vote.verify committee = .ok ()) :
    Exact committee { state with
      aggregator := (state.aggregator.addVote vote committee).2
      votes := state.votes ++ [vote]
      qcs := state.qcs ++ returned (state.aggregator.addVote vote committee).1 } := by
  obtain ⟨bound, sound⟩ := exact.sound
  obtain ⟨_, counted, _⟩ := QCMaker.append_answers (exact.votes vote.round vote.digest) small
    (Vote.verify_ok.mp verified).1
  have answers := (exact.addVote_answers small verified).1
  have made : ∀ qc ∈ returned (state.aggregator.addVote vote committee).1,
      qc.round = vote.round ∧ qc.digest = vote.digest ∧ qc.verify committee = .ok () := by
    intro qc inside
    obtain ⟨isHash, isRound, isVerified⟩ := answers.made inside
    exact ⟨isRound, by rw [QC.digest, isHash, isRound]; rfl, isVerified⟩
  constructor
  · intro round digest
    rw [voters_addVote]
    by_cases key : vote.round = round ∧ vote.digest = digest
    · rw [if_pos key]
      obtain ⟨rfl, rfl⟩ := key
      simpa [Aggregator.addVote] using counted
    · rw [if_neg key]
      have other : ¬ (round = vote.round ∧ digest = vote.digest) :=
        fun same => key ⟨same.1.symm, same.2.symm⟩
      simpa [Aggregator.addVote, other] using exact.votes round digest
  · exact exact.timeouts
  · exact ⟨bound, (sound.addVote verified trivial).1⟩
  · intro round digest
    rw [voters_addVote]
    unfold qcsFor
    rw [List.filter_append, List.length_append]
    have before := exact.qcs round digest
    unfold qcsFor at before
    rw [before]
    by_cases key : vote.round = round ∧ vote.digest = digest
    · rw [if_pos key]
      obtain ⟨rfl, rfl⟩ := key
      rw [List.filter_eq_self.mpr fun qc inside => by
        have facts := made qc inside
        simp [facts.1, facts.2.1]]
      exact answers.due
    · rw [if_neg key, List.filter_eq_nil_iff.mpr fun qc inside => by
        have facts := made qc inside
        simpa [facts.1, facts.2.1] using key]
      rfl
  · exact exact.tcs
  · exact List.forall_mem_append.mpr ⟨exact.validQcs, fun qc inside => (made qc inside).2.2⟩
  · exact exact.validTcs

/-- A verified timeout keeps the aggregation exact. -/
theorem Exact.addTimeout (exact : state.Exact committee)
    (small : 2 * committee.totalVotes < 2 ^ 32) (verified : timeout.verify committee = .ok ()) :
    Exact committee { state with
      aggregator := (state.aggregator.addTimeout timeout committee).2
      timeouts := state.timeouts ++ [timeout]
      tcs := state.tcs ++ returned (state.aggregator.addTimeout timeout committee).1 } := by
  obtain ⟨bound, sound⟩ := exact.sound
  obtain ⟨_, counted, _⟩ := TCMaker.append_answers (exact.timeouts timeout.round) small
    (Timeout.verify_ok.mp verified).1
  have answers := (exact.addTimeout_answers small verified).1
  have made : ∀ tc ∈ returned (state.aggregator.addTimeout timeout committee).1,
      tc.round = timeout.round ∧ tc.verify committee = .ok () := fun tc => answers.made
  constructor
  · exact exact.votes
  · intro round
    rw [expirers_addTimeout]
    by_cases key : timeout.round = round
    · rw [if_pos key]
      subst key
      simpa [Aggregator.addTimeout] using counted
    · rw [if_neg key]
      simpa [Aggregator.addTimeout, Ne.symm key] using exact.timeouts round
  · have raised := sound.mono (fun _ => id) (Nat.le_max_left bound timeout.highQc.round)
    exact ⟨_, (raised.addTimeout verified trivial (Nat.le_max_right _ _)).1⟩
  · exact exact.qcs
  · intro round
    rw [expirers_addTimeout]
    unfold tcsFor
    rw [List.filter_append, List.length_append]
    have before := exact.tcs round
    unfold tcsFor at before
    rw [before]
    by_cases key : timeout.round = round
    · rw [if_pos key]
      subst key
      rw [List.filter_eq_self.mpr fun tc inside => by simp [(made tc inside).1]]
      exact answers.due
    · rw [if_neg key, List.filter_eq_nil_iff.mpr fun tc inside => by
        simpa [(made tc inside).1] using key]
      rfl
  · exact exact.validQcs
  · exact List.forall_mem_append.mpr ⟨exact.validTcs, fun tc inside => (made tc inside).2⟩

omit [Crypto] in
/-- A cleanup keeps or drops what belongs to one round as a whole. -/
theorem filter_round {Item : Type} (items : List Item) (roundOf : Item → Nat)
    (selected : Item → Bool) (bound round : Nat)
    (isRound : ∀ item, selected item = true → roundOf item = round) :
    (items.filter fun item => bound ≤ roundOf item).filter selected =
      if bound ≤ round then items.filter selected else [] := by
  rw [List.filter_filter]
  split
  · rename_i kept
    apply List.filter_congr
    intro item _
    cases isSelected : selected item with
    | false => rfl
    | true => simp [isRound item isSelected, kept]
  · rename_i dropped
    apply List.filter_eq_nil_iff.mpr
    intro item _ both
    rw [Bool.and_eq_true, decide_eq_true_eq] at both
    exact dropped (isRound item both.1 ▸ both.2)

/-- A cleanup keeps the aggregation exact for the rounds that stay. -/
theorem Exact.cleanup (exact : state.Exact committee) (bound : Nat) :
    Exact committee {
      aggregator := state.aggregator.cleanup bound
      votes := state.votes.filter fun vote => bound ≤ vote.round
      timeouts := state.timeouts.filter fun timeout => bound ≤ timeout.round
      qcs := state.qcs.filter fun qc => bound ≤ qc.round
      tcs := state.tcs.filter fun tc => bound ≤ tc.round } := by
  obtain ⟨rounds, sound⟩ := exact.sound
  constructor
  · intro round digest
    unfold voters
    rw [filter_round state.votes Vote.round _ bound round (by simp +contextual)]
    simp only [Aggregator.cleanup]
    split
    · exact exact.votes round digest
    · exact .empty
  · intro round
    unfold expirers
    rw [filter_round state.timeouts Timeout.round _ bound round (by simp)]
    simp only [Aggregator.cleanup]
    split
    · exact exact.timeouts round
    · exact .empty
  · exact ⟨rounds, sound.cleanup bound⟩
  · intro round digest
    unfold qcsFor voters
    rw [filter_round state.votes Vote.round _ bound round (by simp +contextual),
      filter_round state.qcs QC.round _ bound round (by simp +contextual)]
    split
    · exact exact.qcs round digest
    · exact due_empty.symm
  · intro round
    unfold tcsFor expirers
    rw [filter_round state.timeouts Timeout.round _ bound round (by simp),
      filter_round state.tcs TC.round _ bound round (by simp)]
    split
    · exact exact.tcs round
    · exact due_empty.symm
  · exact fun qc inside => exact.validQcs qc (List.mem_filter.mp inside).1
  · exact fun tc inside => exact.validTcs tc (List.mem_filter.mp inside).1

/-- Every call keeps the aggregation exact. -/
theorem Exact.step {after : Aggregation} {call : AggregatorCall} (exact : state.Exact committee)
    (small : 2 * committee.totalVotes < 2 ^ 32) (verified : call.verified committee = true)
    (steps : state.step committee call = some after) : after.Exact committee := by
  cases call with
  | addVote vote =>
      cases steps
      exact exact.addVote small (accepts_iff.mp verified)
  | addTimeout timeout =>
      cases steps
      exact exact.addTimeout small (accepts_iff.mp verified)
  | cleanup bound =>
      cases steps
      exact exact.cleanup bound

/-- After any verified votes, timeouts and cleanups, the aggregator answers the next vote or
timeout by the stake of the distinct authors that arrived for its key since its round was dropped,
a repeated author changes nothing, and each key has returned one certificate, which passes its
check, as soon as these authors reach the threshold. -/
theorem aggregator_exact (committee : Committee) (small : 2 * committee.totalVotes < 2 ^ 32)
    {calls : List AggregatorCall}
    (run : (machine committee).Run (fun _ call => call.verified committee = true) calls state) :
    (∀ vote : Vote, vote.verify committee = .ok () →
      committee.Answers (state.voters vote.round vote.digest) vote.author
          (fun qc => qc.hash = vote.hash ∧ qc.round = vote.round ∧ qc.verify committee = .ok ())
          (state.aggregator.addVote vote committee).1 ∧
        (vote.author ∈ state.voters vote.round vote.digest →
          (state.aggregator.addVote vote committee).2 = state.aggregator)) ∧
    (∀ timeout : Timeout, timeout.verify committee = .ok () →
      committee.Answers (state.expirers timeout.round) timeout.author
          (fun tc => tc.round = timeout.round ∧ tc.verify committee = .ok ())
          (state.aggregator.addTimeout timeout committee).1 ∧
        (timeout.author ∈ state.expirers timeout.round →
          (state.aggregator.addTimeout timeout committee).2 = state.aggregator)) ∧
    (∀ round hash, (state.qcsFor round (sha512 (.vote hash round))).length =
      committee.due (state.voters round (sha512 (.vote hash round)))) ∧
    (∀ round, (state.tcsFor round).length = committee.due (state.expirers round)) ∧
    (∀ qc ∈ state.qcs, qc.verify committee = .ok ()) ∧
    ∀ tc ∈ state.tcs, tc.verify committee = .ok () := by
  have exact : state.Exact committee := run.invariant _ new_exact
    fun _ _ _ _ verified holds steps => holds.step small verified steps
  exact ⟨fun vote verified => exact.addVote_answers small verified,
    fun timeout verified => exact.addTimeout_answers small verified,
    fun round hash => exact.qcs round _, exact.tcs, exact.validQcs, exact.validTcs⟩

end Aggregation

end

namespace Plain

/-- Four votes for one block, one of them twice, with a timeout and cleanups between them. -/
def tallied : List AggregatorCall :=
  let block := propose .genesis none 1 1
  [.addVote (voteFor block 0), .addTimeout (timeoutAt .genesis 1 0), .cleanup 1,
    .addVote (voteFor block 0), .addVote (voteFor block 3), .addVote (voteFor block 2),
    .addVote (voteFor block 1)]

/-- The votes of all four members make one QC. -/
theorem aggregator_exact_tallied : ∃ state,
    (Aggregation.machine four.setup.committee).Run
      (fun _ call => call.verified four.setup.committee = true) tallied state ∧
    state.qcs.length = 1 ∧ ∀ qc ∈ state.qcs, qc.verify four.setup.committee = .ok () := by
  have taken : ((Aggregation.machine four.setup.committee).execute .new tallied).map
      (fun state => state.qcs.length) = some 1 := by
    decide +kernel
  obtain ⟨state, executed, one⟩ := Option.map_eq_some_iff.mp taken
  have run : (Aggregation.machine four.setup.committee).Run
      (fun _ call => call.verified four.setup.committee = true) tallied state :=
    .of_execute (by decide +kernel) executed
  exact ⟨state, run, one,
    (Aggregation.aggregator_exact four.setup.committee (by decide) run).2.2.2.2.1⟩

end Plain

end DeflHotstuff
