import Mathlib.Logic.Relation
import Mathlib.Data.Finset.Basic

namespace Verification

/-- A vote names a block, its round, the parent that its certificate points to and that round. -/
structure ChainVote (Id : Type) where
  block : Id
  round : Nat
  parent : Id
  parentRound : Nat

/-- The votes cast so far, with what two-chain replication needs of them.
The lock lets a correct voter leave the round before behind in two ways: a quorum reported
every earlier parent round, or the voter's own earlier votes have no later parent. -/
structure ChainVotes (Node Id : Type) where
  correct : Node → Prop
  quorum : Finset Node → Prop
  cast : Node → ChainVote Id → Prop
  genesis : Id
  share : ∀ first second, quorum first → quorum second →
    ∃ node ∈ first, node ∈ second ∧ correct node
  once : ∀ node vote other, correct node → cast node vote → cast node other →
    vote.round = other.round → vote.block = other.block
  determined : ∀ node other vote vote', correct node → correct other → cast node vote →
    cast other vote' → vote.block = vote'.block → vote = vote'
  justified : ∀ node vote, correct node → cast node vote →
    (vote.parent = genesis ∧ vote.parentRound = 0) ∨
      ∃ voters, quorum voters ∧ ∀ voter ∈ voters, correct voter →
        ∃ previous, cast voter previous ∧ previous.block = vote.parent ∧
          previous.round = vote.parentRound
  increasing : ∀ node vote, correct node → cast node vote → vote.parentRound < vote.round
  locked : ∀ node vote, correct node → cast node vote →
    vote.parentRound + 1 = vote.round ∨
      (∃ voters, quorum voters ∧ ∀ voter ∈ voters, correct voter → ∀ previous,
        cast voter previous → previous.round < vote.round →
          previous.parentRound ≤ vote.parentRound) ∨
      ∀ previous, cast node previous → previous.round < vote.round →
        previous.parentRound ≤ vote.parentRound

namespace ChainVotes

variable {Node Id : Type} (votes : ChainVotes Node Id)

/-- A quorum voted for the block at the round, as far as its members are correct. -/
def Certified (block : Id) (round : Nat) : Prop :=
  ∃ voters, votes.quorum voters ∧ ∀ voter ∈ voters, votes.correct voter →
    ∃ vote, votes.cast voter vote ∧ vote.block = block ∧ vote.round = round

/-- A correct node voted for the child with this parent. -/
def Link (parent child : Id) : Prop :=
  ∃ node vote, votes.correct node ∧ votes.cast node vote ∧ vote.block = child ∧
    vote.parent = parent

def Descends : Id → Id → Prop := Relation.TransGen votes.Link

variable {votes}

/-- Some correct node voted for a certified block. -/
theorem Certified.voter {block : Id} {round : Nat} (certified : votes.Certified block round) :
    ∃ node vote, votes.correct node ∧ votes.cast node vote ∧ vote.block = block ∧
      vote.round = round := by
  obtain ⟨voters, isQuorum, all⟩ := certified
  obtain ⟨node, inside, _, correct⟩ := votes.share _ _ isQuorum isQuorum
  obtain ⟨vote, cast, block, round⟩ := all node inside correct
  exact ⟨node, vote, correct, cast, block, round⟩

/-- Two certified blocks have a common correct voter. -/
theorem Certified.common {block other : Id} {round round' : Nat}
    (certified : votes.Certified block round) (certified' : votes.Certified other round') :
    ∃ node vote vote', votes.correct node ∧ votes.cast node vote ∧ votes.cast node vote' ∧
      vote.block = block ∧ vote.round = round ∧ vote'.block = other ∧ vote'.round = round' := by
  obtain ⟨voters, isQuorum, all⟩ := certified
  obtain ⟨voters', isQuorum', all'⟩ := certified'
  obtain ⟨node, inside, inside', correct⟩ := votes.share _ _ isQuorum isQuorum'
  obtain ⟨vote, cast, block, round⟩ := all node inside correct
  obtain ⟨vote', cast', block', round'⟩ := all' node inside' correct
  exact ⟨node, vote, vote', correct, cast, cast', block, round, block', round'⟩

/-- One round certifies at most one block. -/
theorem Certified.unique {block other : Id} {round : Nat} (certified : votes.Certified block round)
    (certified' : votes.Certified other round) : block = other := by
  obtain ⟨node, vote, vote', correct, cast, cast', rfl, rfl, rfl, same⟩ :=
    certified.common certified'
  exact votes.once node vote vote' correct cast cast' same.symm

/-- A certified block has a round after the first. -/
theorem Certified.positive {block : Id} {round : Nat} (certified : votes.Certified block round) :
    0 < round := by
  obtain ⟨node, vote, correct, cast, _, rfl⟩ := certified.voter
  exact Nat.zero_lt_of_lt (votes.increasing node vote correct cast)

/-- A vote above a certified two-chain has a parent at least as late as the chain's head. -/
theorem parentRound_ge {head : Id} {headRound : Nat} {node tailNode : Node}
    {vote tail : ChainVote Id} (correct : votes.correct node) (cast : votes.cast node vote)
    (certified : votes.Certified vote.block vote.round) (tailCorrect : votes.correct tailNode)
    (tailCast : votes.cast tailNode tail) (tailCertified : votes.Certified tail.block tail.round)
    (tailParent : tail.parent = head) (tailParentRound : tail.parentRound = headRound)
    (consecutive : tail.round = headRound + 1) (later : headRound + 1 < vote.round) :
    headRound ≤ vote.parentRound := by
  obtain ⟨shared, first, second, sharedCorrect, firstCast, secondCast, firstBlock, _,
    secondBlock, _⟩ := tailCertified.common certified
  have firstSame := votes.determined _ _ _ _ sharedCorrect tailCorrect firstCast tailCast firstBlock
  have secondSame := votes.determined _ _ _ _ sharedCorrect correct secondCast cast secondBlock
  subst firstSame secondSame
  obtain consecutiveVote | ⟨voters, isQuorum, reported⟩ | own :=
    votes.locked shared second sharedCorrect secondCast
  · omega
  · -- a voter of the reporting quorum also voted for the tail of the two-chain
    obtain ⟨tailVoters, tailQuorum, all⟩ := tailCertified
    obtain ⟨voter, inside, tailInside, voterCorrect⟩ := votes.share _ _ isQuorum tailQuorum
    obtain ⟨previous, previousCast, block, round⟩ := all voter tailInside voterCorrect
    have same := votes.determined _ _ _ _ voterCorrect tailCorrect previousCast tailCast block
    subst same
    have bound := reported voter inside voterCorrect previous previousCast (by omega)
    omega
  · have bound := own first firstCast (by omega)
    omega

/-- Every certified block at or above a certified two-chain's head descends from the head. -/
theorem extends_head {head : Id} {headRound : Nat} {tailNode : Node} {tail : ChainVote Id}
    (headCertified : votes.Certified head headRound) (tailCorrect : votes.correct tailNode)
    (tailCast : votes.cast tailNode tail) (tailCertified : votes.Certified tail.block tail.round)
    (tailParent : tail.parent = head) (tailParentRound : tail.parentRound = headRound)
    (consecutive : tail.round = headRound + 1) (block : Id) (round : Nat)
    (certified : votes.Certified block round) (later : headRound ≤ round) :
    block = head ∨ votes.Descends head block := by
  induction round using Nat.strong_induction_on generalizing block with
  | _ round ih =>
    obtain ⟨node, vote, correct, cast, rfl, rfl⟩ := certified.voter
    rcases Nat.lt_trichotomy vote.round (headRound + 1) with same | next | above
    · have equal : vote.round = headRound := by omega
      exact .inl ((equal ▸ certified).unique headCertified)
    · have sameBlock : vote.block = tail.block :=
        (next ▸ certified).unique (consecutive ▸ tailCertified)
      have sameVote := votes.determined _ _ _ _ correct tailCorrect cast tailCast sameBlock
      exact .inr (.single ⟨node, vote, correct, cast, rfl, by rw [sameVote, tailParent]⟩)
    · have bound := parentRound_ge correct cast certified tailCorrect tailCast tailCertified
        tailParent tailParentRound consecutive above
      have link : votes.Link vote.parent vote.block := ⟨node, vote, correct, cast, rfl, rfl⟩
      obtain ⟨_, zero⟩ | parentCertified := votes.justified node vote correct cast
      · have positive := headCertified.positive
        omega
      · obtain same | descends := ih vote.parentRound (votes.increasing node vote correct cast)
          vote.parent parentCertified bound
        · exact .inr (.single (same ▸ link))
        · exact .inr (descends.tail link)

/-- Every certified block descends from genesis. -/
theorem extends_genesis (block : Id) (round : Nat) (certified : votes.Certified block round) :
    votes.Descends votes.genesis block := by
  induction round using Nat.strong_induction_on generalizing block with
  | _ round ih =>
    obtain ⟨node, vote, correct, cast, rfl, rfl⟩ := certified.voter
    have link : votes.Link vote.parent vote.block := ⟨node, vote, correct, cast, rfl, rfl⟩
    obtain ⟨isGenesis, _⟩ | parentCertified := votes.justified node vote correct cast
    · exact .single (isGenesis ▸ link)
    · exact (ih vote.parentRound (votes.increasing node vote correct cast) vote.parent
        parentCertified).tail link

end ChainVotes

end Verification
