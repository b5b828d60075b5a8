import DeflHotstuff.Construction.Plain
import DeflHotstuff.Proof.Overflow
import DeflHotstuff.Proof.Suspension
import DeflHotstuff.Proof.Votes

namespace DeflHotstuff

open Verification

section

variable [Crypto] {committee : Committee}

/-- The messages and the own decisions that a core may count towards a certificate. -/
def Action.counted : Action → Bool
  | .received (.vote _) => true
  | .received (.timeout _) => true
  | .expired _ => true
  | .voted _ => true
  | _ => false

/-- A maker that has counted its authors and is short of a certificate. -/
structure Unfinished (committee : Committee) (used : List PublicKey) (weight : Nat) : Prop where
  distinct : used.Nodup
  counted : (used.map committee.stake).sum = weight
  below : weight < committee.quorumThreshold

/-- A new maker is short of a certificate. -/
theorem Unfinished.new : Unfinished committee [] 0 :=
  ⟨List.nodup_nil, rfl, committee.quorumThreshold_pos⟩

/-- An author whose stake stays below the threshold leaves the maker unfinished. -/
theorem Unfinished.next {used : List PublicKey} {weight : Nat} {author : PublicKey}
    (unfinished : Unfinished committee used weight) (fresh : author ∉ used)
    (below : ¬ committee.quorumThreshold ≤ weight + committee.stake author) :
    Unfinished committee (author :: used) (weight + committee.stake author) where
  distinct := List.nodup_cons.mpr ⟨fresh, unfinished.distinct⟩
  counted := by
    rw [List.map_cons, List.sum_cons, unfinished.counted, Nat.add_comm]
  below := Nat.not_le.mp below

/-- The authors of an unfinished maker hold no quorum. -/
theorem Unfinished.short {used : List PublicKey} {weight : Nat} {authors : Finset PublicKey}
    (unfinished : Unfinished committee used weight) (inside : ∀ author ∈ authors, author ∈ used) :
    ∑ author ∈ authors, committee.stake author < committee.quorumThreshold := by
  have listed : authors ⊆ used.toFinset := fun author isAuthor =>
    List.mem_toFinset.mpr (inside author isAuthor)
  have bound := Finset.sum_le_sum_of_subset (f := committee.stake) listed
  rw [List.sum_toFinset _ unfinished.distinct, unfinished.counted] at bound
  exact bound.trans_lt unfinished.below

/-- The makers from a round on are unfinished, and they counted the given votes and timeouts. -/
structure Aggregator.Counting (committee : Committee) (bound : Nat) (votes : Vote → Prop)
    (timeouts : Timeout → Prop) (aggregator : Aggregator) : Prop where
  voteMakers : ∀ round digest, bound ≤ round →
    Unfinished committee (aggregator.votesAggregators round digest).used
      (aggregator.votesAggregators round digest).weight
  timeoutMakers : ∀ round, bound ≤ round →
    Unfinished committee (aggregator.timeoutsAggregators round).used
      (aggregator.timeoutsAggregators round).weight
  votes : ∀ vote, votes vote → vote.verify committee = .ok () → bound ≤ vote.round →
    vote.author ∈ (aggregator.votesAggregators vote.round vote.digest).used
  timeouts : ∀ timeout, timeouts timeout → timeout.verify committee = .ok () →
    bound ≤ timeout.round → timeout.author ∈ (aggregator.timeoutsAggregators timeout.round).used

namespace Aggregator.Counting

variable {bound bound' : Nat} {votes votes' : Vote → Prop} {timeouts timeouts' : Timeout → Prop}
  {aggregator : Aggregator} (counting : aggregator.Counting committee bound votes timeouts)

include counting

/-- A maker that counted some votes and timeouts counted fewer of them too. -/
theorem fewer (fewerVotes : ∀ vote, votes' vote → votes vote)
    (fewerTimeouts : ∀ timeout, timeouts' timeout → timeouts timeout) :
    aggregator.Counting committee bound votes' timeouts' :=
  ⟨counting.voteMakers, counting.timeoutMakers,
    fun vote heard => counting.votes vote (fewerVotes vote heard),
    fun timeout heard => counting.timeouts timeout (fewerTimeouts timeout heard)⟩

/-- The makers of higher rounds are some of the makers. -/
theorem raise (higher : bound ≤ bound') : aggregator.Counting committee bound' votes timeouts :=
  ⟨fun round digest above => counting.voteMakers round digest (higher.trans above),
    fun round above => counting.timeoutMakers round (higher.trans above),
    fun vote heard verified above => counting.votes vote heard verified (higher.trans above),
    fun timeout heard verified above =>
      counting.timeouts timeout heard verified (higher.trans above)⟩

/-- What a cleanup drops is below the round. -/
theorem cleanup {round : Nat} (higher : round ≤ bound) :
    (aggregator.cleanup round).Counting committee bound votes timeouts := by
  have kept {key : Nat} (above : bound ≤ key) :
      (aggregator.cleanup round).votesAggregators key = aggregator.votesAggregators key ∧
        (aggregator.cleanup round).timeoutsAggregators key =
          aggregator.timeoutsAggregators key := by
    constructor
    · funext digest
      exact if_pos (higher.trans above)
    · exact if_pos (higher.trans above)
  constructor
  · intro key digest above
    rw [(kept above).1]
    exact counting.voteMakers key digest above
  · intro key above
    rw [(kept above).2]
    exact counting.timeoutMakers key above
  · intro vote heard verified above
    rw [(kept above).1]
    exact counting.votes vote heard verified above
  · intro timeout heard verified above
    rw [(kept above).2]
    exact counting.timeouts timeout heard verified above

end Aggregator.Counting

/-- How a maker takes one more author, with the round of the certificate that it may return. -/
structure Takes {Certificate : Type} (committee : Committee) (author : PublicKey)
    (used used' : List PublicKey) (weight weight' : Nat)
    (result : ConsensusResult (Option Certificate)) : Prop where
  author : author ∈ used'
  keeps : ∀ other ∈ used, other ∈ used'
  unfinished : Unfinished committee used weight → (∀ made, result ≠ .ok (some made)) →
    Unfinished committee used' weight'

/-- The maker of a QC takes the author of a vote. -/
theorem QCMaker.append_takes (maker : QCMaker) (vote : Vote) :
    Takes committee vote.author maker.used (maker.append vote committee).2.used maker.weight
      (maker.append vote committee).2.weight (maker.append vote committee).1 := by
  unfold append
  split
  · rename_i reused
    exact ⟨reused, fun _ => id, fun unfinished _ => unfinished⟩
  · rename_i fresh
    dsimp only
    split
    · exact ⟨List.mem_cons_self, fun _ => List.mem_cons_of_mem _, fun _ none =>
        absurd rfl (none _)⟩
    · rename_i below
      exact ⟨List.mem_cons_self, fun _ => List.mem_cons_of_mem _, fun unfinished _ =>
        unfinished.next fresh below⟩

/-- The maker of a TC takes the author of a timeout. -/
theorem TCMaker.append_takes (maker : TCMaker) (timeout : Timeout) :
    Takes committee timeout.author maker.used (maker.append timeout committee).2.used maker.weight
      (maker.append timeout committee).2.weight (maker.append timeout committee).1 := by
  unfold append
  split
  · rename_i reused
    exact ⟨reused, fun _ => id, fun unfinished _ => unfinished⟩
  · rename_i fresh
    dsimp only
    split
    · exact ⟨List.mem_cons_self, fun _ => List.mem_cons_of_mem _, fun _ none =>
        absurd rfl (none _)⟩
    · rename_i below
      exact ⟨List.mem_cons_self, fun _ => List.mem_cons_of_mem _, fun unfinished _ =>
        unfinished.next fresh below⟩

/-- The QC that a vote completes has the round of the vote. -/
theorem QCMaker.append_round {maker : QCMaker} {vote : Vote} {qc : QC}
    (made : (maker.append vote committee).1 = .ok (some qc)) : qc.round = vote.round := by
  unfold append at made
  split at made
  · cases made
  · dsimp only at made
    split at made
    · cases made
      rfl
    · cases made

/-- The TC that a timeout completes has the round of the timeout. -/
theorem TCMaker.append_round {maker : TCMaker} {timeout : Timeout} {tc : TC}
    (made : (maker.append timeout committee).1 = .ok (some tc)) : tc.round = timeout.round := by
  unfold append at made
  split at made
  · cases made
  · dsimp only at made
    split at made
    · cases made
      rfl
    · cases made

namespace Aggregator.Counting

variable {bound : Nat} {votes : Vote → Prop} {timeouts : Timeout → Prop} {aggregator : Aggregator}
  (counting : aggregator.Counting committee bound votes timeouts)

include counting

/-- A vote is counted, and only a certificate ends the count of its round. -/
theorem addVote (vote : Vote)
    (ends : (∀ qc, (aggregator.addVote vote committee).1 ≠ .ok (some qc)) ∨ vote.round < bound) :
    (aggregator.addVote vote committee).2.Counting committee bound
      (fun heard => votes heard ∨ heard = vote) timeouts := by
  have takes : Takes committee vote.author _ _ _ _ _ :=
    (aggregator.votesAggregators vote.round vote.digest).append_takes vote
  unfold Aggregator.addVote at ends ⊢
  dsimp only at ends ⊢
  constructor
  · intro round digest above
    dsimp only
    split
    · rename_i same
      obtain ⟨rfl, rfl⟩ := same
      exact takes.unfinished (counting.voteMakers _ _ above)
        (ends.resolve_right (Nat.not_lt.mpr above))
    · exact counting.voteMakers round digest above
  · exact counting.timeoutMakers
  · intro heard isHeard verified above
    dsimp only
    split
    · rename_i same
      rcases isHeard with old | rfl
      · have counted := counting.votes heard old verified above
        rw [same.1, same.2] at counted
        exact takes.keeps _ counted
      · exact takes.author
    · rename_i different
      rcases isHeard with old | rfl
      · exact counting.votes heard old verified above
      · exact absurd ⟨rfl, rfl⟩ different
  · exact counting.timeouts

/-- A timeout that completes no TC from the bound on is counted. -/
theorem addTimeout (timeout : Timeout)
    (ends : (∀ tc, (aggregator.addTimeout timeout committee).1 ≠ .ok (some tc)) ∨
      timeout.round < bound) :
    (aggregator.addTimeout timeout committee).2.Counting committee bound votes
      (fun heard => timeouts heard ∨ heard = timeout) := by
  have takes : Takes committee timeout.author _ _ _ _ _ :=
    (aggregator.timeoutsAggregators timeout.round).append_takes timeout
  unfold Aggregator.addTimeout at ends ⊢
  dsimp only at ends ⊢
  constructor
  · exact counting.voteMakers
  · intro round above
    dsimp only
    split
    · rename_i same
      subst same
      exact takes.unfinished (counting.timeoutMakers _ above)
        (ends.resolve_right (Nat.not_lt.mpr above))
    · exact counting.timeoutMakers round above
  · exact counting.votes
  · intro heard isHeard verified above
    dsimp only
    split
    · rename_i same
      rcases isHeard with old | rfl
      · have counted := counting.timeouts heard old verified above
        rw [same] at counted
        exact takes.keeps _ counted
      · exact takes.author
    · rename_i different
      rcases isHeard with old | rfl
      · exact counting.timeouts heard old verified above
      · exact absurd rfl different

end Aggregator.Counting

variable {setup : Setup} {name : PublicKey}

namespace Core

/-- The makers from the current round on count the given votes and timeouts. -/
def Counting (setup : Setup) (votes : Vote → Prop) (timeouts : Timeout → Prop) (core : Core) :
    Prop :=
  core.aggregator.Counting setup.committee core.round votes timeouts

variable {core : Core} {votes : Vote → Prop} {timeouts : Timeout → Prop}

/-- An advance of the round keeps the count. -/
theorem Counting.advanceRound (counting : core.Counting setup votes timeouts) (round : Nat) :
    (core.advanceRound round).Counting setup votes timeouts := by
  rw [advanceRound_eq]
  split
  · exact counting
  · rename_i reached
    have higher : core.round ≤ round + 1 := by omega
    exact (Aggregator.Counting.raise counting higher).cleanup le_rfl

/-- A processed QC keeps the count. -/
theorem Counting.processQc (counting : core.Counting setup votes timeouts) (qc : QC) :
    (core.processQc qc).Counting setup votes timeouts := by
  have advanced := counting.advanceRound qc.round
  unfold Counting at advanced ⊢
  rwa [processQc_aggregator, processQc_round, ← advanceRound_round]

/-- A proposal request keeps the count. -/
theorem Counting.proposeAsLeader (counting : core.Counting setup votes timeouts)
    (tc : Option TC) : (proposeAsLeader setup name tc core).Counting setup votes timeouts := by
  unfold Counting
  rw [(proposeAsLeader_same setup name core tc).1, (proposeAsLeader_same setup name core tc).2.2]
  exact counting

/-- A certificate of the round that it completes ends the count of that round. -/
theorem Counting.certified {aggregator : Aggregator} {round : Nat}
    (counting : aggregator.Counting setup.committee (max core.round (round + 1)) votes timeouts)
    (action : Action) :
    (((core.setAggregator aggregator).record action).advanceRound round).Counting setup votes
      timeouts := by
  rw [advanceRound_eq]
  split
  · rename_i passed
    have same : max core.round (round + 1) = core.round := max_eq_left passed
    rw [same] at counting
    exact counting
  · rename_i reached
    have same : max core.round (round + 1) = round + 1 :=
      max_eq_right (Nat.le_succ_of_le (Nat.not_lt.mp reached))
    rw [same] at counting
    exact counting.cleanup le_rfl

/-- The core counts a vote that it handles. -/
theorem Counting.takeVote (counting : core.Counting setup votes timeouts) (vote : Vote) :
    (handleVote setup name vote core).2.Counting setup (fun heard => votes heard ∨ heard = vote)
      timeouts := by
  have unheard (vacuous : ¬ (vote.verify setup.committee = .ok () ∧ core.round ≤ vote.round)) :
      core.Counting setup (fun heard => votes heard ∨ heard = vote) timeouts := by
    refine ⟨counting.voteMakers, counting.timeoutMakers, ?_, counting.timeouts⟩
    intro heard isHeard verified above
    rcases isHeard with old | rfl
    · exact counting.votes heard old verified above
    · exact absurd ⟨verified, above⟩ vacuous
  rw [handleVote_run]
  split
  · rename_i old
    exact unheard fun both => absurd both.2 (Nat.not_le.mpr old)
  · split
    · rename_i failure failed
      exact unheard fun both => by rw [failed] at both; cases both.1
    · rcases outcome : core.aggregator.addVote vote setup.committee with ⟨result, aggregator⟩
      have after : aggregator = (core.aggregator.addVote vote setup.committee).2 := by rw [outcome]
      have isResult : (core.aggregator.addVote vote setup.committee).1 = result := by rw [outcome]
      have counted (none : ∀ qc, result ≠ .ok (some qc)) :
          aggregator.Counting setup.committee core.round
            (fun heard => votes heard ∨ heard = vote) timeouts := by
        rw [after]
        exact Aggregator.Counting.addVote counting vote (.inl (by rwa [isResult]))
      cases result with
      | error failure => exact counted fun _ => nofun
      | ok made =>
          cases made with
          | none => exact counted fun _ => nofun
          | some qc =>
              have isRound : qc.round = vote.round := QCMaker.append_round isResult
              apply Counting.proposeAsLeader
              have ended := Aggregator.Counting.addVote
                (Aggregator.Counting.raise counting (le_max_left core.round (vote.round + 1))) vote
                (.inr (lt_of_lt_of_le (Nat.lt_succ_self _) (le_max_right _ _)))
              rw [← after, ← isRound] at ended
              have advanced := Counting.certified ended (.assembledQc qc)
              unfold Counting at advanced ⊢
              rwa [processQc_aggregator, processQc_round, ← advanceRound_round]

/-- The core counts a timeout that it handles, after it takes up the QC of the timeout. -/
theorem Counting.takeTimeout (counting : core.Counting setup votes timeouts) (timeout : Timeout) :
    (handleTimeout setup name timeout core).2.Counting setup votes
      (fun heard => timeouts heard ∨ heard = timeout) := by
  have unheard (vacuous : ¬ (timeout.verify setup.committee = .ok () ∧
      core.round ≤ timeout.round)) :
      core.Counting setup votes (fun heard => timeouts heard ∨ heard = timeout) := by
    refine ⟨counting.voteMakers, counting.timeoutMakers, counting.votes, ?_⟩
    intro heard isHeard verified above
    rcases isHeard with old | rfl
    · exact counting.timeouts heard old verified above
    · exact absurd ⟨verified, above⟩ vacuous
  rw [handleTimeout_run]
  split
  · rename_i old
    exact unheard fun both => absurd both.2 (Nat.not_le.mpr old)
  · split
    · rename_i failure failed
      exact unheard fun both => by rw [failed] at both; cases both.1
    · dsimp only
      have processed := counting.processQc timeout.highQc
      generalize core.processQc timeout.highQc = middle at processed
      rcases outcome : middle.aggregator.addTimeout timeout setup.committee with
        ⟨result, aggregator⟩
      have after : aggregator = (middle.aggregator.addTimeout timeout setup.committee).2 := by
        rw [outcome]
      have isResult : (middle.aggregator.addTimeout timeout setup.committee).1 = result := by
        rw [outcome]
      have counted (none : ∀ tc, result ≠ .ok (some tc)) :
          aggregator.Counting setup.committee middle.round votes
            (fun heard => timeouts heard ∨ heard = timeout) := by
        rw [after]
        exact Aggregator.Counting.addTimeout processed timeout (.inl (by rwa [isResult]))
      cases result with
      | error failure => exact counted fun _ => nofun
      | ok made =>
          cases made with
          | none => exact counted fun _ => nofun
          | some tc =>
              have isRound : tc.round = timeout.round := TCMaker.append_round isResult
              apply Counting.proposeAsLeader
              have ended := Aggregator.Counting.addTimeout
                (Aggregator.Counting.raise processed (le_max_left middle.round (timeout.round + 1)))
                timeout (.inr (lt_of_lt_of_le (Nat.lt_succ_self _) (le_max_right _ _)))
              rw [← after, ← isRound] at ended
              exact Counting.certified ended (.assembledTc tc)

/-- The round, the makers and the record of what they count are as they were. -/
structure Calm (core after : Core) : Prop where
  round : after.round = core.round
  aggregator : after.aggregator = core.aggregator
  counted : after.select Action.counted = core.select Action.counted

instance : Std.Refl Calm := ⟨fun _ => ⟨rfl, rfl, rfl⟩⟩

instance : IsTrans Core Calm := ⟨fun _ _ _ first second =>
  ⟨second.round.trans first.round, second.aggregator.trans first.aggregator,
    second.counted.trans first.counted⟩⟩

/-- A change elsewhere is calm. -/
theorem Calm.of_same {core after : Core} (round : after.round = core.round)
    (aggregator : after.aggregator = core.aggregator) (history : after.history = core.history) :
    Calm core after :=
  ⟨round, aggregator, by unfold select; rw [history]⟩

/-- An action that does not count is recorded calmly. -/
theorem record_calm (core : Core) {action : Action} (silent : action.counted = false) :
    Calm core (core.record action) :=
  ⟨rfl, rfl, record_other core silent⟩

/-- Reading the parent is calm. -/
theorem getParentBlock_calm (block : Block) : (getParentBlock setup block).Frames Calm := by
  intro core
  rw [getParentBlock_run]
  split
  · exact Std.Refl.refl _
  · split
    · split <;> exact Std.Refl.refl _
    · exact .of_same rfl rfl rfl

/-- Reading the ancestors is calm. -/
theorem getAncestors_calm (block : Block) : (getAncestors setup block).Frames Calm := by
  unfold getAncestors
  refine .bind (getParentBlock_calm block) fun found => ?_
  cases found with
  | none => exact .return none
  | some b1 =>
      refine .bind (getParentBlock_calm b1) fun found => ?_
      cases found with
      | none => exact .crash _
      | some b0 => exact .return _

/-- The walk over the ancestors is calm. -/
theorem collectAncestors_calm (bound fuel : Nat) (parent : Block) (toCommit : List Block) :
    (collectAncestors setup bound fuel parent toCommit).Frames Calm := by
  induction fuel generalizing parent toCommit with
  | zero => exact .loop
  | succ fuel ih =>
      unfold collectAncestors
      split
      · refine .bind (getParentBlock_calm parent) fun found => ?_
        cases found with
        | none => exact .crash _
        | some ancestor => exact ih ancestor _
      · exact .return toCommit

/-- A commit is calm. -/
theorem commitTwoChain_calm (b0 b1 : Block) : (commitTwoChain setup b0 b1).Frames Calm := by
  unfold commitTwoChain
  split
  · refine .bind (.update fun core => ?_) fun _ => ?_
    · have silent : (Action.committed b0).counted = false := rfl
      exact IsTrans.trans _ _ _ (core.record_calm silent) (.of_same rfl rfl rfl)
    · unfold commit
      refine .bind .read fun core => ?_
      split
      · exact .return ()
      · exact .bind (collectAncestors_calm _ _ b0 []) fun collected =>
          .update fun core => .of_same rfl rfl rfl
  · exact .return ()

/-- Checking the payload is calm. -/
theorem verifyPayload_calm (block : Block) : (verifyPayload block).Frames Calm := by
  unfold verifyPayload
  refine .bind .read fun core => ?_
  dsimp only
  split
  · exact .return true
  · exact .bind (.update fun core => .of_same rfl rfl rfl) fun _ => .return false

/-- A vote arrived, or the node cast it as the leader of the next round. -/
def HeardVote (setup : Setup) (name : PublicKey) (core : Core) (vote : Vote) : Prop :=
  .received (.vote vote) ∈ core.history ∨ ∃ block, .voted block ∈ core.history ∧
    setup.committee.getLeader (block.round + 1) = name ∧
      vote = Vote.new block name (setup.sign name)

/-- The makers from the current round on count every vote and timeout that the core heard. -/
def Attentive (setup : Setup) (name : PublicKey) (core : Core) : Prop :=
  core.Counting setup (core.HeardVote setup name) core.TimeoutArrived

/-- What is heard is read off the counted part of the record. -/
theorem heardVote_of_counted {core after : Core}
    (counted : after.select Action.counted = core.select Action.counted) {vote : Vote}
    (heard : after.HeardVote setup name vote) : core.HeardVote setup name vote := by
  have old {action : Action} (recorded : action ∈ after.history)
      (isCounted : action.counted = true) : action ∈ core.history := by
    have selected := mem_select.mpr ⟨recorded, isCounted⟩
    rw [counted] at selected
    exact (mem_select.mp selected).1
  refine heard.imp (fun received => old received rfl) ?_
  rintro ⟨block, voted, leads, isVote⟩
  exact ⟨block, old voted rfl, leads, isVote⟩

/-- Cores with the same counted actions heard the same timeouts. -/
theorem timeoutArrived_of_counted {core after : Core}
    (counted : after.select Action.counted = core.select Action.counted) {timeout : Timeout}
    (arrived : after.TimeoutArrived timeout) : core.TimeoutArrived timeout := by
  have old {action : Action} (recorded : action ∈ after.history)
      (isCounted : action.counted = true) : action ∈ core.history := by
    have selected := mem_select.mpr ⟨recorded, isCounted⟩
    rw [counted] at selected
    exact (mem_select.mp selected).1
  exact arrived.imp (fun received => old received rfl) fun expired => old expired rfl

/-- A core that counts what it heard before is attentive when it heard nothing since. -/
theorem Counting.attentive {core after : Core}
    (counting : after.Counting setup (core.HeardVote setup name) core.TimeoutArrived)
    (counted : after.select Action.counted = core.select Action.counted) :
    after.Attentive setup name :=
  Aggregator.Counting.fewer counting (fun _ => heardVote_of_counted counted)
    fun _ => timeoutArrived_of_counted counted

/-- A program that leaves an attentive core behind when it starts in one. -/
def Attends (setup : Setup) (name : PublicKey) (core after : Core) : Prop :=
  core.Attentive setup name → after.Attentive setup name

instance : Std.Refl (Attends setup name) := ⟨fun _ => id⟩

instance : IsTrans Core (Attends setup name) := ⟨fun _ _ _ first second attentive =>
  second (first attentive)⟩

/-- A calm program keeps the core attentive. -/
theorem Calm.attends {core after : Core} (calm : Calm core after) :
    Attends setup name core after := by
  intro attentive
  refine Counting.attentive ?_ calm.counted
  unfold Counting
  rw [calm.round, calm.aggregator]
  exact attentive

/-- Handling a vote records nothing that counts. -/
theorem handleVote_counted (core : Core) (vote : Vote) :
    (handleVote setup name vote core).2.select Action.counted = core.select Action.counted := by
  rw [handleVote_run]
  split
  · rfl
  · split
    · rfl
    · split
      · rfl
      · rfl
      · rw [proposeAsLeader_select _ _ _ (fun _ _ _ => rfl), processQc_select _ (fun _ => rfl),
          record_other _ rfl]
        rfl

/-- Handling a timeout records nothing that counts. -/
theorem handleTimeout_counted (core : Core) (timeout : Timeout) :
    (handleTimeout setup name timeout core).2.select Action.counted =
      core.select Action.counted := by
  have processed : (core.processQc timeout.highQc).select Action.counted =
      core.select Action.counted := core.processQc_select (fun _ => rfl) timeout.highQc
  rw [handleTimeout_run]
  split
  · rfl
  · split
    · rfl
    · dsimp only
      split
      · exact processed
      · exact processed
      · rw [proposeAsLeader_select _ _ _ (fun _ _ _ => rfl)]
        change (Core.advanceRound _ _).select _ = _
        rw [advanceRound_select _ (fun _ => rfl), record_other _ rfl]
        exact processed

/-- A recorded action is an earlier one or the last. -/
theorem mem_record {core : Core} {action last : Action}
    (recorded : action ∈ (core.record last).history) : action ∈ core.history ∨ action = last :=
  (List.mem_append.mp recorded).imp_right List.mem_singleton.mp

/-- An attentive core that hears a vote is attentive again once the vote is handled. -/
theorem Counting.hearVote {core start : Core} {vote : Vote}
    (counting : start.Counting setup (core.HeardVote setup name) core.TimeoutArrived)
    (votes : ∀ other, start.HeardVote setup name other →
      core.HeardVote setup name other ∨ other = vote)
    (timeouts : ∀ timeout, start.TimeoutArrived timeout → core.TimeoutArrived timeout) :
    (handleVote setup name vote start).2.Attentive setup name := by
  have same : (handleVote setup name vote start).2.select Action.counted = _ :=
    handleVote_counted start vote
  exact Aggregator.Counting.fewer (counting.takeVote vote)
    (fun other heard => votes other (heardVote_of_counted same heard))
    fun timeout arrived => timeouts timeout (timeoutArrived_of_counted same arrived)

/-- An attentive core that hears a timeout is attentive again once the timeout is handled. -/
theorem Counting.hearTimeout {core start : Core} {timeout : Timeout}
    (counting : start.Counting setup (core.HeardVote setup name) core.TimeoutArrived)
    (votes : ∀ vote, start.HeardVote setup name vote → core.HeardVote setup name vote)
    (timeouts : ∀ other, start.TimeoutArrived other →
      core.TimeoutArrived other ∨ other = timeout) :
    (handleTimeout setup name timeout start).2.Attentive setup name := by
  have same : (handleTimeout setup name timeout start).2.select Action.counted = _ :=
    handleTimeout_counted start timeout
  exact Aggregator.Counting.fewer (counting.takeTimeout timeout)
    (fun vote heard => votes vote (heardVote_of_counted same heard))
    fun other arrived => timeouts other (timeoutArrived_of_counted same arrived)

/-- The own vote is counted here if this node leads the next round, else it is sent there. -/
theorem sendVote_attentive {core : Core} (attentive : core.Attentive setup name) {block : Block}
    (inRound : block.round = core.round) :
    (sendVote setup name (Vote.new block name (setup.sign name))
      ((core.increaseLastVotedRound block.round).record (.voted block))).2.Attentive setup
        name := by
  let voted := (core.increaseLastVotedRound block.round).record (.voted block)
  have counting : voted.Counting setup (core.HeardVote setup name) core.TimeoutArrived := attentive
  have recorded {action : Action} (inside : action ∈ voted.history) :
      action ∈ core.history ∨ action = .voted block := mem_record inside
  have timeouts : ∀ timeout, voted.TimeoutArrived timeout → core.TimeoutArrived timeout :=
    fun timeout arrived => arrived.imp (fun received => (recorded received).resolve_right nofun)
      fun expired => (recorded expired).resolve_right nofun
  have heard : ∀ vote, voted.HeardVote setup name vote → core.HeardVote setup name vote ∨
      setup.committee.getLeader (block.round + 1) = name ∧
        vote = Vote.new block name (setup.sign name) := by
    rintro vote (received | ⟨other, isVoted, leads, isVote⟩)
    · exact .inl (.inl ((recorded received).resolve_right nofun))
    · rcases recorded isVoted with old | new
      · exact .inl (.inr ⟨other, old, leads, isVote⟩)
      · cases new
        exact .inr ⟨leads, isVote⟩
  have round : voted.round = block.round := inRound.symm
  change (sendVote setup name _ voted).2.Attentive setup name
  unfold sendVote
  rw [Handler.read_bind, round, Rounds.next_unbounded]
  split
  · exact counting.hearVote (fun vote isHeard => (heard vote isHeard).imp_right And.right) timeouts
  · rename_i follows
    have silent : voted.Attentive setup name :=
      Aggregator.Counting.fewer counting (fun vote isHeard =>
        (heard vote isHeard).resolve_right fun leads => follows leads.1) timeouts
    cases setup.committee.address (setup.committee.getLeader (block.round + 1)) with
    | none => exact silent
    | some address => exact silent

/-- The core counts its own vote when it leads the next round. -/
theorem voteInRound_attends (block : Block) :
    (voteInRound setup name block).Frames (Attends setup name) := by
  intro core attentive
  unfold voteInRound
  rw [Handler.read_bind]
  split
  · exact attentive
  · rename_i inRound
    change ((Handler.bind (makeVote setup name block) _) core).2.Attentive setup name
    unfold Handler.bind
    rcases core.makeVote_cases block with ⟨same, unmade⟩ | made
    · rcases outcome : makeVote setup name block core with ⟨result, middle⟩
      rw [outcome] at same unmade
      subst same
      cases result with
      | ok found =>
          cases found with
          | none => exact attentive
          | some vote => exact absurd rfl (unmade vote)
      | _ => exact attentive
    · rw [made]
      exact sendVote_attentive attentive (not_not.mp inRound)

/-- Processing a block keeps the core attentive. -/
theorem processBlock_attends (block : Block) :
    (processBlock setup name block).Frames (Attends setup name) := by
  unfold processBlock
  refine .bind ((getAncestors_calm block).weaken fun _ _ => Calm.attends) fun found => ?_
  cases found with
  | none => exact .return ()
  | some pair =>
      refine .bind (.update fun core => ?_) fun _ => .bind ?_ fun _ => voteInRound_attends block
      · have stored : Calm core (core.storeBlock block) := .of_same rfl rfl rfl
        have silent : (Action.processed pair.1 pair.2 block).counted = false := rfl
        have cleaned := (core.storeBlock block).record_calm silent
        exact (IsTrans.trans _ _ _ stored (IsTrans.trans _ _ _ cleaned
          (.of_same rfl rfl rfl))).attends
      · exact (commitTwoChain_calm pair.1 pair.2).weaken fun _ _ => Calm.attends

/-- An advance of the round keeps the core attentive. -/
theorem Attentive.advanceRound {core : Core} (attentive : core.Attentive setup name) (round : Nat) :
    (core.advanceRound round).Attentive setup name :=
  (Counting.advanceRound attentive round).attentive (core.advanceRound_select (fun _ => rfl) round)

/-- The core is attentive after the certificates of an accepted block. -/
theorem Attentive.accept {core : Core} (attentive : core.Attentive setup name) (block : Block) :
    ((advanceByTc block.tc (core.processQc block.qc)).record (.accepted block)).Attentive
      setup name := by
  have processed : (core.processQc block.qc).Attentive setup name :=
    (Counting.processQc attentive block.qc).attentive
      (core.processQc_select (fun _ => rfl) block.qc)
  refine Calm.attends (record_calm _ rfl) ?_
  cases block.tc with
  | none => exact processed
  | some tc => exact processed.advanceRound tc.round

/-- A proposal keeps the core attentive. -/
theorem handleProposal_attends (block : Block) :
    (handleProposal setup name block).Frames (Attends setup name) := by
  unfold handleProposal
  refine .bind (.check _) fun _ => .bind (.check _) fun _ =>
    .bind (.update fun core attentive => ?_) fun _ =>
      .bind ((verifyPayload_calm block).weaken fun _ _ => Calm.attends) fun present => ?_
  · exact attentive.accept block
  · split
    · exact processBlock_attends block
    · exact .return ()

/-- A TC keeps the core attentive. -/
theorem handleTc_attends (tc : TC) : (handleTc setup name tc).Frames (Attends setup name) := by
  unfold handleTc
  refine .bind (.update fun core attentive => attentive.advanceRound tc.round) fun _ =>
    .update fun core attentive => ?_
  exact (Counting.proposeAsLeader attentive (some tc)).attentive
    (proposeAsLeader_select _ _ _ (fun _ _ _ => rfl) _)

/-- A vote that arrives is counted. -/
theorem Attentive.receiveVote {core : Core} (attentive : core.Attentive setup name) (vote : Vote) :
    (handleVote setup name vote (core.record (.received (.vote vote)))).2.Attentive setup name := by
  have counting : (core.record (.received (.vote vote))).Counting setup
      (core.HeardVote setup name) core.TimeoutArrived := attentive
  have recorded {action : Action}
      (inside : action ∈ (core.record (.received (.vote vote))).history) :
      action ∈ core.history ∨ action = .received (.vote vote) := mem_record inside
  refine counting.hearVote (fun other heard => ?_) fun timeout arrived => ?_
  · rcases heard with received | ⟨block, voted, leads, isVote⟩
    · rcases recorded received with old | new
      · exact .inl (.inl old)
      · cases new
        exact .inr rfl
    · exact .inl (.inr ⟨block, (recorded voted).resolve_right nofun, leads, isVote⟩)
  · exact arrived.imp (fun received => (recorded received).resolve_right nofun)
      fun expired => (recorded expired).resolve_right nofun

/-- A timeout that arrives is counted. -/
theorem Attentive.receiveTimeout {core : Core} (attentive : core.Attentive setup name)
    (timeout : Timeout) :
    (handleTimeout setup name timeout
      (core.record (.received (.timeout timeout)))).2.Attentive setup name := by
  have counting : (core.record (.received (.timeout timeout))).Counting setup
      (core.HeardVote setup name) core.TimeoutArrived := attentive
  have recorded {action : Action}
      (inside : action ∈ (core.record (.received (.timeout timeout))).history) :
      action ∈ core.history ∨ action = .received (.timeout timeout) := mem_record inside
  refine counting.hearTimeout (fun vote heard => ?_) fun other arrived => ?_
  · refine heard.imp (fun received => (recorded received).resolve_right nofun) ?_
    rintro ⟨block, voted, leads, isVote⟩
    exact ⟨block, (recorded voted).resolve_right nofun, leads, isVote⟩
  · rcases arrived with received | expired
    · rcases recorded received with old | new
      · exact .inl (.inl old)
      · cases new
        exact .inr rfl
    · exact .inl (.inr ((recorded expired).resolve_right nofun))

/-- The own timeout is counted. -/
theorem Attentive.expire {core : Core} (attentive : core.Attentive setup name) :
    (localTimeoutRound setup name core).2.Attentive setup name := by
  let timeout := Timeout.new core.highQc core.round name (setup.sign name)
  let expired := broadcast setup name (.timeout timeout)
    ((core.increaseLastVotedRound core.round).record (.expired timeout))
  have counting : expired.Counting setup (core.HeardVote setup name) core.TimeoutArrived :=
    attentive
  have recorded {action : Action} (inside : action ∈ expired.history) :
      action ∈ core.history ∨ action = .expired timeout := mem_record inside
  change (handleTimeout setup name timeout expired).2.Attentive setup name
  refine counting.hearTimeout (fun vote heard => ?_) fun other arrived => ?_
  · refine heard.imp (fun received => (recorded received).resolve_right nofun) ?_
    rintro ⟨block, voted, leads, isVote⟩
    exact ⟨block, (recorded voted).resolve_right nofun, leads, isVote⟩
  · rcases arrived with received | isExpired
    · exact .inl (.inl ((recorded received).resolve_right nofun))
    · rcases recorded isExpired with old | new
      · exact .inl (.inr old)
      · cases new
        exact .inr rfl

/-- Every message leaves an attentive core behind. -/
theorem Attentive.receive {core : Core} (attentive : core.Attentive setup name)
    (message : ConsensusMessage) :
    (handleMessage setup name message (core.record (.received message))).2.Attentive setup
      name := by
  cases message with
  | propose block =>
      exact handleProposal_attends block _ (Calm.attends (record_calm core rfl) attentive)
  | vote vote => exact attentive.receiveVote vote
  | timeout timeout => exact attentive.receiveTimeout timeout
  | tc tc => exact handleTc_attends tc _ (Calm.attends (record_calm core rfl) attentive)
  | syncRequest missing origin => exact Calm.attends (record_calm core rfl) attentive

/-- A core that boots has nothing to count. -/
theorem boot_attentive : (boot setup name).Attentive setup name := by
  have same := proposeAsLeader_same setup name .new none
  have fresh : (boot setup name).aggregator = .new := same.2.2
  unfold Attentive Counting
  rw [fresh]
  refine ⟨fun _ _ _ => .new, fun _ _ => .new, fun vote heard => ?_, fun timeout arrived => ?_⟩
  · rcases heard with received | ⟨block, voted, _⟩
    · cases (mem_boot received).1
    · cases (mem_boot voted).1
  · rcases arrived with received | expired
    · cases (mem_boot received).1
    · cases (mem_boot expired).1

end Core

/-- Every turn of a node leaves an attentive core behind. -/
theorem Node.Turn.attentive {node after : Node} {event : Event}
    (turn : Node.Turn setup name node event after) (attentive : node.core.Attentive setup name) :
    after.core.Attentive setup name := by
  have recorded {core : Core} {action : Action} (silent : action.counted = false)
      (isAttentive : core.Attentive setup name) : (core.record action).Attentive setup name :=
    Core.Calm.attends (core.record_calm silent) isAttentive
  have unchanged {after : Core} (round : after.round = node.core.round)
      (aggregator : after.aggregator = node.core.aggregator)
      (history : after.history = node.core.history) : after.Attentive setup name :=
    Core.Calm.attends (.of_same round aggregator history) attentive
  cases turn with
  | message message =>
      rw [Node.runCore_core]
      exact Core.Attentive.receive attentive message
  | loopback block rest =>
      rw [Node.runCore_core]
      exact Core.processBlock_attends block _ (recorded rfl attentive)
  | timer =>
      rw [Node.runCore_core]
      exact Core.Attentive.expire attentive
  | digest index digest => exact recorded rfl attentive
  | clean drained sent digests rest => exact recorded rfl (unchanged rfl rfl rfl)
  | build drained sent round qc tc rest => exact recorded rfl (unchanged rfl rfl rfl)
  | _ => exact unchanged rfl rfl rfl

/-- A reachable node counts every vote and timeout of its round. -/
theorem Node.reachable_attentive {node : Node}
    (reachable : (Node.machine setup name).Reachable node) :
    node.core.Attentive setup name :=
  reachable.invariant (fun node => node.core.Attentive setup name) Core.boot_attentive
    fun _ _ _ _ attentive steps => (Node.step_turn steps).attentive attentive

/-- The votes of the authors for the digest at the round are with the core. -/
def Core.HeardVotes (setup : Setup) (name : PublicKey) (core : Core) (authors : Finset PublicKey)
    (hash : Digest) (round : Nat) : Prop :=
  ∀ author ∈ authors, ∃ vote, core.HeardVote setup name vote ∧
    vote.verify setup.committee = .ok () ∧ vote.author = author ∧ vote.hash = hash ∧
      vote.round = round

/-- The timeouts of the authors for the round are with the core. -/
def Core.HeardTimeouts (setup : Setup) (core : Core) (authors : Finset PublicKey) (round : Nat) :
    Prop :=
  ∀ author ∈ authors, ∃ timeout, core.TimeoutArrived timeout ∧
    timeout.verify setup.committee = .ok () ∧ timeout.author = author ∧ timeout.round = round

namespace Core.Attentive

variable {core : Core} (attentive : core.Attentive setup name) {authors : Finset PublicKey}
  {round : Nat}
  (enough : setup.committee.quorumThreshold ≤ ∑ author ∈ authors, setup.committee.stake author)

include attentive enough

/-- A quorum of votes that was heard is for a round that has passed. -/
theorem votes_pass {hash : Digest} (heard : core.HeardVotes setup name authors hash round) :
    round < core.round := by
  by_contra current
  have above := Nat.not_lt.mp current
  have short : ∑ author ∈ authors, setup.committee.stake author <
      setup.committee.quorumThreshold := by
    apply (attentive.voteMakers round (sha512 (.vote hash round)) above).short
    intro author inside
    obtain ⟨vote, isHeard, verified, rfl, rfl, rfl⟩ := heard author inside
    exact attentive.votes vote isHeard verified above
  omega

/-- A quorum of timeouts that was heard is for a round that has passed. -/
theorem timeouts_pass (heard : core.HeardTimeouts setup authors round) : round < core.round := by
  by_contra current
  have above := Nat.not_lt.mp current
  have short : ∑ author ∈ authors, setup.committee.stake author <
      setup.committee.quorumThreshold := by
    apply (attentive.timeoutMakers round above).short
    intro author inside
    obtain ⟨timeout, arrived, verified, rfl, rfl⟩ := heard author inside
    exact attentive.timeouts timeout arrived verified above
  omega

end Core.Attentive

/-- While the rounds fit `u64`, a node that heard a quorum of valid votes for one digest, or a quorum of
valid timeouts, is past their round, in whatever order they came and whatever else came between. -/
theorem quorum_passes (setup : Setup) (name : PublicKey) (node : Node)
    (inRange : node.InRange setup name) (authors : Finset PublicKey)
    (enough : setup.committee.quorumThreshold ≤ ∑ author ∈ authors, setup.committee.stake author)
    (round : Nat) :
    (∀ hash, node.core.HeardVotes setup name authors hash round → round < node.core.round) ∧
      (node.core.HeardTimeouts setup authors round → round < node.core.round) :=
  have attentive := Node.reachable_attentive inRange.reachable
  ⟨fun _ => attentive.votes_pass enough, attentive.timeouts_pass enough⟩

namespace System

variable {system : System}

/-- The honest members that may vote. -/
def electorate (system : System) : Finset PublicKey :=
  {name ∈ system.setup.committee.keys.toFinset | system.faulty name = false ∧
    0 < system.setup.committee.stake name}

/-- The electorate are the honest members with stake. -/
theorem mem_electorate {name : PublicKey} : name ∈ system.electorate ↔
    system.honest name = true ∧ 0 < system.setup.committee.stake name := by
  simp [electorate, honest, and_assoc]

/-- The honest members that may vote are a quorum. -/
theorem electorate_quorum (few : 3 * system.faultyStake < system.setup.committee.totalVotes)
    (small : 2 * system.setup.committee.totalVotes < 2 ^ 32) :
    system.setup.committee.quorumThreshold ≤
      ∑ name ∈ system.electorate, system.setup.committee.stake name := by
  have split := Finset.sum_filter_add_sum_filter_not system.setup.committee.keys.toFinset
    (fun name => system.faulty name = true) system.setup.committee.stake
  have rights : ∑ name ∈ system.electorate, system.setup.committee.stake name =
      ∑ name ∈ system.setup.committee.keys.toFinset with ¬ system.faulty name = true,
        system.setup.committee.stake name := by
    apply Finset.sum_subset
    · intro name inside
      rw [electorate, Finset.mem_filter] at inside
      rw [Finset.mem_filter, Bool.not_eq_true]
      exact ⟨inside.1, inside.2.1⟩
    · intro name inside outside
      rw [Finset.mem_filter, Bool.not_eq_true] at inside
      rw [electorate, Finset.mem_filter] at outside
      by_contra positive
      exact outside ⟨inside.1, inside.2, Nat.pos_of_ne_zero positive⟩
  rw [system.setup.committee.sum_stake, ← rights] at split
  unfold faultyStake at few
  rw [system.setup.committee.quorumThreshold_eq small]
  unfold quorum
  omega

end System

/-- A node signs the timeouts that it sends. -/
theorem Node.expired_signed {node : Node} (reachable : (Node.machine setup name).Reachable node)
    (timeout : Timeout) (expired : .expired timeout ∈ node.core.history) :
    timeout.signature = setup.sign name timeout.digest := by
  refine Node.reachable_core reachable (fun core => ∀ timeout, .expired timeout ∈ core.history →
    timeout.signature = setup.sign name timeout.digest) ?_ ?_ ?_ timeout expired
  · intro timeout inside
    cases (Core.mem_boot inside).1
  · intro core after step signed timeout inside
    rcases step.new_action inside with old | ⟨rfl, _⟩
    · exact signed timeout old
    · rfl
  · intro core after fault signed timeout inside
    rw [fault.same] at inside
    exact signed timeout inside

/-- A timeout that an honest member with voting rights sent passes every check. -/
theorem System.expired_verified {system : System} {nodes : PublicKey → Node}
    (reachable : system.machine.Reachable nodes) {name : PublicKey}
    (rights : 0 < system.setup.committee.stake name) {timeout : Timeout}
    (expired : .expired timeout ∈ (nodes name).core.history) :
    timeout.author = name ∧ timeout.verify system.setup.committee = .ok () := by
  obtain ⟨author, backed⟩ :=
    (System.reachable_regular reachable name).evidenced.expired timeout expired
  have signed := Node.expired_signed (System.reachable_node reachable name) timeout expired
  refine ⟨author, Timeout.verify_ok.mpr ⟨by rwa [author], ?_, backed.verifyEmbedded⟩⟩
  rw [author, signed]
  exact system.setup.sign_verifies name timeout.digest

/-- All honest members voted for the digest at the round and their votes are with the node. -/
def System.VotesDelivered (system : System) (nodes : PublicKey → Node) (name : PublicKey)
    (hash : Digest) (round : Nat) : Prop :=
  ∀ member, system.honest member = true → ∃ block, .voted block ∈ (nodes member).core.history ∧
    block.digest = hash ∧ block.round = round ∧
    (nodes name).core.HeardVote system.setup name (Vote.new block member (system.setup.sign member))

/-- The timers of all honest members expired in the round and their timeouts are with the node. -/
def System.TimeoutsDelivered (system : System) (nodes : PublicKey → Node) (name : PublicKey)
    (round : Nat) : Prop :=
  ∀ member, system.honest member = true → ∃ timeout,
    .expired timeout ∈ (nodes member).core.history ∧ timeout.round = round ∧
      (nodes name).core.TimeoutArrived timeout

/-- While the rounds fit `u64`, once all honest members voted for one block, or gave up on the round, a
node that their votes or their timeouts reached is past the round. -/
theorem round_ends (system : System)
    (few : 3 * system.faultyStake < system.setup.committee.totalVotes)
    (small : 2 * system.setup.committee.totalVotes < 2 ^ 32) (nodes : PublicKey → Node)
    (inRange : system.InRange nodes) (name : PublicKey) (round : Nat) :
    (∀ hash, system.VotesDelivered nodes name hash round → round < (nodes name).core.round) ∧
      (system.TimeoutsDelivered nodes name round → round < (nodes name).core.round) := by
  have reachable := inRange.reachable
  have attentive := Node.reachable_attentive (System.reachable_node reachable name)
  have enough := System.electorate_quorum few small
  constructor
  · intro hash delivered
    have heard : (nodes name).core.HeardVotes system.setup name system.electorate hash round := by
      intro author inside
      obtain ⟨honest, rights⟩ := System.mem_electorate.mp inside
      obtain ⟨block, _, isHash, isRound, heard⟩ := delivered author honest
      exact ⟨_, heard, Vote.verify_ok.mpr ⟨rights, system.setup.sign_verifies ..⟩, rfl, isHash,
        isRound⟩
    exact attentive.votes_pass enough heard
  · intro delivered
    refine attentive.timeouts_pass enough fun author inside => ?_
    obtain ⟨honest, rights⟩ := System.mem_electorate.mp inside
    obtain ⟨timeout, expired, isRound, arrived⟩ := delivered author honest
    obtain ⟨isAuthor, verified⟩ := System.expired_verified reachable rights expired
    exact ⟨timeout, arrived, verified, isAuthor, isRound⟩

/-- The timeout that the action brings to the core. -/
def Action.timeout : Action → Option Timeout
  | .received (.timeout timeout) => some timeout
  | .expired timeout => some timeout
  | _ => none

/-- An action that brings a timeout records its arrival. -/
theorem Action.of_timeout {core : Core} {action : Action} {timeout : Timeout}
    (recorded : action ∈ core.history) (brings : action.timeout = some timeout) :
    core.TimeoutArrived timeout := by
  cases action with
  | received message =>
      cases message with
      | timeout other =>
          cases brings
          exact .inl recorded
      | _ => cases brings
  | expired other =>
      cases brings
      exact .inr recorded
  | _ => cases brings

def Core.timeouts (core : Core) : List Timeout := core.history.filterMap Action.timeout

/-- A listed timeout has arrived. -/
theorem Core.arrived_of_mem {core : Core} {timeout : Timeout} (inside : timeout ∈ core.timeouts) :
    core.TimeoutArrived timeout := by
  obtain ⟨action, recorded, brings⟩ := List.mem_filterMap.mp inside
  exact Action.of_timeout recorded brings

end

namespace Plain

/-- An executable check of the timeouts that a core heard. -/
def hears (core : Core) (round author : Nat) : Bool :=
  core.timeouts.any fun timeout => decide (timeout.author = author ∧ timeout.round = round) &&
    accepts (timeout.verify four.setup.committee)

/-- The computed check finds a verified timeout of the author. -/
theorem of_hears {core : Core} {round author : Nat} (heard : hears core round author = true) :
    ∃ timeout, core.TimeoutArrived timeout ∧ timeout.verify four.setup.committee = .ok () ∧
      timeout.author = author ∧ timeout.round = round := by
  obtain ⟨timeout, inside, checked⟩ := List.any_eq_true.mp heard
  rw [Bool.and_eq_true, decide_eq_true_iff] at checked
  exact ⟨timeout, Core.arrived_of_mem inside, accepts_iff.mp checked.2, checked.1.1, checked.1.2⟩

def trio : Finset Nat := {1, 2, 3}

/-- The three members are the first, the second and the third. -/
theorem mem_trio (author : Nat) (inside : author ∈ trio) : author ∈ [1, 2, 3] := by
  simpa [trio] using inside

def timeoutEvents : List Event :=
  [1, 3, 2].map fun author => .message (.timeout (timeoutAt .genesis 1 author))

/-- Three timeouts take the member with key zero to the second round. -/
theorem quorum_passes_timeouts : ∃ node : Node,
    (Node.machine64 four.setup (0 : Nat)).execute (Node.boot four.setup (0 : Nat))
      timeoutEvents = some node ∧ 1 < node.core.round := by
  have taken : ((Node.machine64 four.setup (0 : Nat)).execute (Node.boot four.setup (0 : Nat))
      timeoutEvents).map (fun node => [1, 2, 3].all (hears node.core 1)) = some true := by
    decide +kernel
  obtain ⟨node, executed, observed⟩ := Option.map_eq_some_iff.mp taken
  have passes := quorum_passes four.setup (0 : Nat) node (.of_execute (by decide +kernel) executed)
    trio (by decide) 1
  refine ⟨node, executed, passes.2 fun author inside => of_hears ?_⟩
  exact List.all_eq_true.mp observed author (mem_trio author inside)

def sameSignature (first second : Nat × List Nat) : Bool := decide (first = second)

def sameVotes (first second : List (Nat × Nat × List Nat)) : Bool := decide (first = second)

/-- Two timeouts agree in all fields. -/
def agrees (first second : Timeout) : Bool :=
  decide (first.highQc.hash = second.highQc.hash ∧ first.highQc.round = second.highQc.round) &&
    sameVotes first.highQc.votes second.highQc.votes &&
    decide (first.round = second.round ∧ first.author = second.author) &&
    sameSignature first.signature second.signature

/-- The computed comparison of two timeouts is equality. -/
theorem of_agrees {first second : Timeout} (same : agrees first second = true) :
    first = second := by
  obtain ⟨⟨hash, round, votes⟩, number, author, signature⟩ := first
  obtain ⟨⟨hash', round', votes'⟩, number', author', signature'⟩ := second
  simp only [agrees, sameVotes, sameSignature, Bool.and_eq_true, decide_eq_true_eq] at same
  obtain ⟨⟨⟨⟨rfl, rfl⟩, rfl⟩, rfl, rfl⟩, rfl⟩ := same
  rfl

/-- The timers of the honest members expire, and one of them hears the timeouts of the others. -/
def expiryRun : List (Nat × Event) := [
  (0, .timer), (1, .timer), (2, .timer),
  (1, .message (.timeout (timeoutAt .genesis 1 0))),
  (1, .message (.timeout (timeoutAt .genesis 1 2)))]

/-- An executable check that the timeout of the member is recorded by both. -/
def delivers (nodes : Nat → Node) (member : Nat) : Bool :=
  let timeout := timeoutAt .genesis 1 member
  (nodes member).core.history.any (fun action => match action with
    | .expired other => agrees other timeout
    | _ => false) && (nodes 1).core.timeouts.any fun other => agrees other timeout

/-- The computed check finds a timeout that expired at the member and arrived. -/
theorem of_delivers {nodes : Nat → Node} {member : Nat} (delivered : delivers nodes member = true) :
    ∃ timeout, .expired timeout ∈ (nodes member).core.history ∧ timeout.round = 1 ∧
      (nodes 1).core.TimeoutArrived timeout := by
  obtain ⟨expired, heard⟩ := Bool.and_eq_true_iff.mp delivered
  obtain ⟨action, recorded, checked⟩ := List.any_eq_true.mp expired
  obtain ⟨other, inside, same⟩ := List.any_eq_true.mp heard
  cases of_agrees same
  cases action with
  | expired timeout =>
      cases of_agrees checked
      exact ⟨_, recorded, rfl, Core.arrived_of_mem inside⟩
  | _ => cases checked

/-- The honest members of the committee are the first three. -/
theorem honest_members (member : Nat) (honest : four.honest member = true) :
    member ∈ [0, 1, 2] := by
  have inside : member ∈ [0, 1, 2, 3] ∧ decide (member = 3) = false := of_decide_eq_true honest
  have different : member ≠ 3 := of_decide_eq_false inside.2
  simp only [List.mem_cons, List.not_mem_nil, or_false] at inside ⊢
  omega

/-- The member that heard the honest timeouts is past the first round. -/
theorem round_ends_expiry : ∃ nodes : Nat → Node,
    four.machine64.execute four.machine64.initial expiryRun = some nodes ∧
      1 < (nodes 1).core.round := by
  have taken : (four.machine64.execute four.machine64.initial expiryRun).map (fun nodes =>
      [0, 1, 2].all (delivers nodes)) = some true := by
    decide +kernel
  obtain ⟨nodes, executed, observed⟩ := Option.map_eq_some_iff.mp taken
  refine ⟨nodes, executed, (round_ends four (by decide) (by decide) nodes
    (.of_execute (by decide +kernel) executed) (1 : Nat) 1).2 fun member honest => of_delivers ?_⟩
  exact List.all_eq_true.mp observed member (honest_members member honest)

end Plain

end DeflHotstuff
