import DeflHotstuff.Construction.Aggregator

namespace DeflHotstuff

variable [Crypto] {committee : Committee}

/-- The authors counted so far are distinct, have voting rights, and hold at least the weight. -/
structure Tally (committee : Committee) (authors used : List PublicKey) (weight : Nat) : Prop where
  distinct : authors.Nodup
  same : ∀ name, name ∈ used ↔ name ∈ authors
  rights : ∀ name ∈ authors, 0 < committee.stake name
  bound : weight ≤ (authors.map committee.stake).sum

namespace Tally

/-- Before the first vote no author is used and the weight is zero. -/
theorem empty : Tally committee [] [] 0 := ⟨List.nodup_nil, by simp, by simp, by simp⟩

variable {authors used : List PublicKey} {weight : Nat}

/-- A fresh author with voting rights adds its stake. -/
theorem append (tally : Tally committee authors used weight) {name : PublicKey}
    (fresh : name ∉ used) (right : 0 < committee.stake name) :
    Tally committee (authors ++ [name]) (name :: used) (weight + committee.stake name) where
  distinct := by
    rw [tally.same] at fresh
    exact List.nodup_append.mpr ⟨tally.distinct, List.nodup_singleton _, fun other inside last listed =>
      fun same => fresh (by rw [← List.mem_singleton.mp listed, ← same]; exact inside)⟩
  same other := by
    rw [List.mem_cons, tally.same, List.mem_append, List.mem_singleton, or_comm]
  rights other inside := by
    rcases List.mem_append.mp inside with old | new
    · exact tally.rights other old
    · rw [List.mem_singleton.mp new]
      exact right
  bound := by
    have bound := tally.bound
    simp only [List.map_append, List.sum_append, List.map_cons, List.map_nil, List.sum_cons,
      List.sum_nil]
    omega

/-- The weight restarts once the certificate is made. -/
theorem restart (tally : Tally committee authors used weight) : Tally committee authors used 0 :=
  ⟨tally.distinct, tally.same, tally.rights, Nat.zero_le _⟩

/-- Authors whose weight reaches the threshold are a quorum. -/
theorem quorum (tally : Tally committee authors used weight)
    (enough : committee.quorumThreshold ≤ weight) : committee.IsQuorum authors :=
  ⟨tally.distinct, tally.rights, enough.trans tally.bound⟩

end Tally

/-- The signatures behind a vote of a QC for the digest are valid and held. -/
structure QCMaker.Sound (committee : Committee) (held : SignatureClaim → Prop) (digest : Digest)
    (maker : QCMaker) : Prop where
  tally : Tally committee (maker.votes.map Prod.fst) maker.used maker.weight
  valid : ∀ vote ∈ maker.votes, Crypto.verify vote.1 digest vote.2 = true
  holds : ∀ vote ∈ maker.votes, held ⟨vote.1, digest, vote.2⟩

/-- The signatures behind a vote of a TC are valid and held, and the bound covers its QC. -/
structure TCMaker.Sound (committee : Committee) (held : SignatureClaim → Prop) (bound round : Nat)
    (maker : TCMaker) : Prop where
  tally : Tally committee (maker.votes.map Prod.fst) maker.used maker.weight
  valid : ∀ vote ∈ maker.votes,
    Crypto.verify vote.1 (timeoutDigest round vote.2.2) vote.2.1 = true
  holds : ∀ vote ∈ maker.votes, held ⟨vote.1, timeoutDigest round vote.2.2, vote.2.1⟩
  below : ∀ vote ∈ maker.votes, vote.2.2 ≤ bound

/-- Every maker of the aggregator is sound for its key. -/
structure Aggregator.Sound (committee : Committee) (held : SignatureClaim → Prop) (bound : Nat)
    (aggregator : Aggregator) : Prop where
  votes : ∀ round digest, (aggregator.votesAggregators round digest).Sound committee held digest
  timeouts : ∀ round, (aggregator.timeoutsAggregators round).Sound committee held bound round

variable {held : SignatureClaim → Prop}

/-- A new QC maker has no votes to account for. -/
theorem QCMaker.new_sound {digest : Digest} : QCMaker.new.Sound committee held digest :=
  ⟨.empty, by simp [new], by simp [new]⟩

/-- A new TC maker has no votes to account for. -/
theorem TCMaker.new_sound {bound round : Nat} : TCMaker.new.Sound committee held bound round :=
  ⟨.empty, by simp [new], by simp [new], by simp [new]⟩

/-- A verified vote keeps the maker sound, and the QC that it completes verifies. -/
theorem QCMaker.append_sound {maker : QCMaker} {vote : Vote}
    (sound : maker.Sound committee held vote.digest) (verified : vote.verify committee = .ok ())
    (arrived : held ⟨vote.author, vote.digest, vote.signature⟩) :
    (maker.append vote committee).2.Sound committee held vote.digest ∧
      ∀ qc, (maker.append vote committee).1 = .ok (some qc) →
        qc.verify committee = .ok () ∧ (∀ claim ∈ qc.claims, held claim) ∧
          qc.hash = vote.hash ∧ qc.round = vote.round := by
  obtain ⟨right, signed⟩ := Vote.verify_ok.mp verified
  unfold append
  split
  · exact ⟨sound, fun _ same => nomatch same⟩
  · rename_i fresh
    have tally := sound.tally.append fresh right
    rw [← List.map_singleton (f := Prod.fst) (a := (vote.author, vote.signature)),
      ← List.map_append] at tally
    have valid := List.forall_mem_append.mpr
      ⟨sound.valid, (List.forall_mem_singleton (a := (vote.author, vote.signature))).mpr signed⟩
    have holds := List.forall_mem_append.mpr
      ⟨sound.holds, (List.forall_mem_singleton (a := (vote.author, vote.signature))).mpr arrived⟩
    dsimp only
    split
    · rename_i enough
      refine ⟨⟨tally.restart, valid, holds⟩, fun qc same => ?_⟩
      cases same
      refine ⟨QC.verify_ok.mpr ⟨tally.quorum enough, ?_⟩, ?_, rfl, rfl⟩
      · exact (Crypto.verifyBatch_iff _ _).mpr valid
      · intro claim inside
        obtain ⟨entry, listed, rfl⟩ := List.mem_map.mp inside
        exact holds entry listed
    · exact ⟨⟨tally, valid, holds⟩, fun _ same => nomatch same⟩

/-- A verified timeout keeps the maker sound, and the TC that it completes verifies. -/
theorem TCMaker.append_sound {maker : TCMaker} {timeout : Timeout} {bound : Nat}
    (sound : maker.Sound committee held bound timeout.round)
    (verified : timeout.verify committee = .ok ())
    (arrived : held ⟨timeout.author, timeout.digest, timeout.signature⟩)
    (below : timeout.highQc.round ≤ bound) :
    (maker.append timeout committee).2.Sound committee held bound timeout.round ∧
      ∀ tc, (maker.append timeout committee).1 = .ok (some tc) →
        tc.verify committee = .ok () ∧ (∀ claim ∈ tc.claims, held claim) ∧
          tc.round = timeout.round ∧ ∀ round ∈ tc.highQcRounds, round ≤ bound := by
  obtain ⟨right, signed, _⟩ := Timeout.verify_ok.mp verified
  unfold append
  split
  · exact ⟨sound, fun _ same => nomatch same⟩
  · rename_i fresh
    let entry := (timeout.author, timeout.signature, timeout.highQc.round)
    have tally := sound.tally.append fresh right
    rw [← List.map_singleton (f := Prod.fst) (a := entry), ← List.map_append] at tally
    have valid := List.forall_mem_append.mpr
      ⟨sound.valid, (List.forall_mem_singleton (a := entry)).mpr signed⟩
    have holds := List.forall_mem_append.mpr
      ⟨sound.holds, (List.forall_mem_singleton (a := entry)).mpr arrived⟩
    have small := List.forall_mem_append.mpr
      ⟨sound.below, (List.forall_mem_singleton (a := entry)).mpr below⟩
    dsimp only
    split
    · rename_i enough
      refine ⟨⟨tally.restart, valid, holds, small⟩, fun tc same => ?_⟩
      cases same
      refine ⟨TC.verify_ok.mpr ⟨tally.quorum enough, valid⟩, ?_, rfl, ?_⟩
      · intro claim inside
        obtain ⟨entry, listed, rfl⟩ := List.mem_map.mp inside
        exact holds entry listed
      · intro round inside
        obtain ⟨entry, listed, rfl⟩ := List.mem_map.mp inside
        exact small entry listed
    · exact ⟨⟨tally, valid, holds, small⟩, fun _ same => nomatch same⟩

namespace Aggregator

/-- A new aggregator is sound. -/
theorem new_sound {bound : Nat} : new.Sound committee held bound :=
  ⟨fun _ _ => QCMaker.new_sound, fun _ => TCMaker.new_sound⟩

/-- More held signatures and a higher bound keep the aggregator sound. -/
theorem Sound.mono {held' : SignatureClaim → Prop} {bound bound' : Nat} {aggregator : Aggregator}
    (sound : aggregator.Sound committee held bound) (keeps : ∀ claim, held claim → held' claim)
    (raises : bound ≤ bound') : aggregator.Sound committee held' bound' where
  votes round digest :=
    have maker := sound.votes round digest
    ⟨maker.tally, maker.valid, fun vote inside => keeps _ (maker.holds vote inside)⟩
  timeouts round :=
    have maker := sound.timeouts round
    ⟨maker.tally, maker.valid, fun vote inside => keeps _ (maker.holds vote inside),
      fun vote inside => (maker.below vote inside).trans raises⟩

variable {bound : Nat} {aggregator : Aggregator}

/-- A dropped round starts again with a fresh maker. -/
theorem Sound.cleanup (sound : aggregator.Sound committee held bound) (round : Nat) :
    (aggregator.cleanup round).Sound committee held bound where
  votes key digest := by
    simp only [Aggregator.cleanup]
    split
    · exact sound.votes key digest
    · exact QCMaker.new_sound
  timeouts key := by
    simp only [Aggregator.cleanup]
    split
    · exact sound.timeouts key
    · exact TCMaker.new_sound

/-- A verified vote keeps the aggregator sound, and the QC that it completes is valid and for its
block. -/
theorem Sound.addVote (sound : aggregator.Sound committee held bound) {vote : Vote}
    (verified : vote.verify committee = .ok ())
    (arrived : held ⟨vote.author, vote.digest, vote.signature⟩) :
    (aggregator.addVote vote committee).2.Sound committee held bound ∧
      ∀ qc, (aggregator.addVote vote committee).1 = .ok (some qc) →
        qc.verify committee = .ok () ∧ (∀ claim ∈ qc.claims, held claim) ∧
          qc.hash = vote.hash ∧ qc.round = vote.round := by
  obtain ⟨maker, made⟩ :=
    QCMaker.append_sound (sound.votes vote.round vote.digest) verified arrived
  refine ⟨⟨fun round digest => ?_, sound.timeouts⟩, made⟩
  simp only [Aggregator.addVote]
  split
  · rename_i same
    rw [same.2]
    exact maker
  · exact sound.votes round digest

/-- A verified timeout keeps the aggregator sound, and the TC that it completes is valid and for its
round. -/
theorem Sound.addTimeout (sound : aggregator.Sound committee held bound) {timeout : Timeout}
    (verified : timeout.verify committee = .ok ())
    (arrived : held ⟨timeout.author, timeout.digest, timeout.signature⟩)
    (below : timeout.highQc.round ≤ bound) :
    (aggregator.addTimeout timeout committee).2.Sound committee held bound ∧
      ∀ tc, (aggregator.addTimeout timeout committee).1 = .ok (some tc) →
        tc.verify committee = .ok () ∧ (∀ claim ∈ tc.claims, held claim) ∧
          tc.round = timeout.round ∧ ∀ round ∈ tc.highQcRounds, round ≤ bound := by
  obtain ⟨maker, made⟩ :=
    TCMaker.append_sound (sound.timeouts timeout.round) verified arrived below
  refine ⟨⟨sound.votes, fun round => ?_⟩, made⟩
  simp only [Aggregator.addTimeout]
  split
  · rename_i same
    rw [same]
    exact maker
  · exact sound.timeouts round

end Aggregator

end DeflHotstuff
