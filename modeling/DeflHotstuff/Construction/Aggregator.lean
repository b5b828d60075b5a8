import DeflHotstuff.Construction.Messages

namespace DeflHotstuff

variable [Crypto]

structure QCMaker where
  weight : Nat
  votes : List (PublicKey × Signature)
  used : List PublicKey

namespace QCMaker

def new : QCMaker := ⟨0, [], []⟩

/-- The weight restarts at zero so that the maker returns its QC once. -/
def append (maker : QCMaker) (vote : Vote) (committee : Committee) :
    ConsensusResult (Option QC) × QCMaker :=
  if vote.author ∈ maker.used then (.error (.authorityReuse vote.author), maker)
  else
    let votes := maker.votes ++ [(vote.author, vote.signature)]
    let weight := maker.weight + committee.stake vote.author
    let used := vote.author :: maker.used
    if committee.quorumThreshold ≤ weight then
      (.ok (some ⟨vote.hash, vote.round, votes⟩), ⟨0, votes, used⟩)
    else (.ok none, ⟨weight, votes, used⟩)

end QCMaker

structure TCMaker where
  weight : Nat
  votes : List (PublicKey × Signature × Nat)
  used : List PublicKey

namespace TCMaker

def new : TCMaker := ⟨0, [], []⟩

def append (maker : TCMaker) (timeout : Timeout) (committee : Committee) :
    ConsensusResult (Option TC) × TCMaker :=
  if timeout.author ∈ maker.used then (.error (.authorityReuse timeout.author), maker)
  else
    let votes := maker.votes ++ [(timeout.author, timeout.signature, timeout.highQc.round)]
    let weight := maker.weight + committee.stake timeout.author
    let used := timeout.author :: maker.used
    if committee.quorumThreshold ≤ weight then
      (.ok (some ⟨timeout.round, votes⟩), ⟨0, votes, used⟩)
    else (.ok none, ⟨weight, votes, used⟩)

end TCMaker

/-- A key without an entry maps to the fresh maker that the source inserts on first use. -/
structure Aggregator where
  votesAggregators : Nat → Digest → QCMaker
  timeoutsAggregators : Nat → TCMaker

namespace Aggregator

def new : Aggregator := ⟨fun _ _ => .new, fun _ => .new⟩

def addVote (aggregator : Aggregator) (vote : Vote) (committee : Committee) :
    ConsensusResult (Option QC) × Aggregator :=
  let (result, maker) := (aggregator.votesAggregators vote.round vote.digest).append vote committee
  (result, { aggregator with
    votesAggregators := fun round digest =>
      if round = vote.round ∧ digest = vote.digest then maker
      else aggregator.votesAggregators round digest })

def addTimeout (aggregator : Aggregator) (timeout : Timeout) (committee : Committee) :
    ConsensusResult (Option TC) × Aggregator :=
  let (result, maker) := (aggregator.timeoutsAggregators timeout.round).append timeout committee
  (result, { aggregator with
    timeoutsAggregators := fun round =>
      if round = timeout.round then maker else aggregator.timeoutsAggregators round })

def cleanup (aggregator : Aggregator) (round : Nat) : Aggregator where
  votesAggregators key digest := if round ≤ key then aggregator.votesAggregators key digest else .new
  timeoutsAggregators key := if round ≤ key then aggregator.timeoutsAggregators key else .new

end Aggregator

end DeflHotstuff
