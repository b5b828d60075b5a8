import DeflHotstuff.Construction.Config

namespace DeflHotstuff

variable [Crypto]

/-- The errors that the modelled functions return. The store does not fail. -/
inductive ConsensusError where
  | serializationError
  | invalidSignature
  | authorityReuse (name : PublicKey)
  | unknownAuthority (name : PublicKey)
  | qcRequiresQuorum
  | tcRequiresQuorum
  | wrongLeader (digest : Digest) (leader : PublicKey) (round : Nat)
  | invalidPayload

abbrev ConsensusResult := Except ConsensusError

/-- The macro of the source: an error unless the condition holds. -/
def ensure (condition : Bool) (error : ConsensusError) : ConsensusResult Unit :=
  if condition then .ok () else .error error

/-- The check passes when its condition holds. -/
theorem ensure_ok {condition : Bool} {error : ConsensusError} :
    ensure condition error = .ok () ↔ condition = true := by
  cases condition <;> simp [ensure]

/-- The outcome of a check as a truth value. -/
def accepts : ConsensusResult Unit → Bool
  | .ok _ => true
  | .error _ => false

/-- A result is accepted when it is no error. -/
theorem accepts_iff {result : ConsensusResult Unit} : accepts result = true ↔ result = .ok () := by
  cases result <;> simp [accepts]

/-- A check in sequence succeeds when both checks succeed. -/
theorem seq_ok {first : ConsensusResult Unit} {second : Unit → ConsensusResult Unit} :
    (first >>= second) = .ok () ↔ first = .ok () ∧ second () = .ok () := by
  cases first with
  | error failure => simp [bind, Except.bind]
  | ok value => simp [bind, Except.bind]

/-- Both certificates add up the stakes of distinct authorities with voting rights. -/
def Committee.weigh (committee : Committee) :
    List PublicKey → List PublicKey → Nat → ConsensusResult Nat
  | [], _, weight => .ok weight
  | name :: rest, used, weight =>
      if name ∈ used then .error (.authorityReuse name)
      else if committee.stake name = 0 then .error (.unknownAuthority name)
      else committee.weigh rest (name :: used) (weight + committee.stake name)

/-- The count succeeds exactly on distinct authorities with voting rights. -/
theorem Committee.weigh_ok (committee : Committee) (names used : List PublicKey)
    (weight total : Nat) :
    committee.weigh names used weight = .ok total ↔
      names.Nodup ∧ (∀ name ∈ names, name ∉ used ∧ 0 < committee.stake name) ∧
        total = weight + (names.map committee.stake).sum := by
  induction names generalizing used weight with
  | nil => simp [weigh, eq_comm]
  | cons name rest ih =>
      rw [weigh]
      by_cases reused : name ∈ used
      · simp [reused]
      · by_cases none : committee.stake name = 0
        · simp [reused, none]
        · rw [if_neg reused, if_neg none, ih]
          have positive := Nat.pos_of_ne_zero none
          simp only [List.nodup_cons, List.mem_cons, not_or, List.map_cons, List.sum_cons,
            forall_eq_or_imp]
          constructor
          · rintro ⟨distinct, fresh, rfl⟩
            exact ⟨⟨fun inside => (fresh name inside).1.1 rfl, distinct⟩,
              ⟨⟨reused, positive⟩, fun other inside =>
                ⟨(fresh other inside).1.2, (fresh other inside).2⟩⟩, by omega⟩
          · rintro ⟨⟨absent, distinct⟩, ⟨_, fresh⟩, rfl⟩
            exact ⟨distinct, fun other inside =>
              ⟨⟨fun same => absent (same ▸ inside), (fresh other inside).1⟩,
                (fresh other inside).2⟩, by omega⟩

/-- Distinct authorities with voting rights whose stakes reach the threshold. -/
def Committee.IsQuorum (committee : Committee) (names : List PublicKey) : Prop :=
  names.Nodup ∧ (∀ name ∈ names, 0 < committee.stake name) ∧
    committee.quorumThreshold ≤ (names.map committee.stake).sum

/-- The count of a certificate reaches the threshold exactly on a quorum. -/
theorem Committee.weigh_quorum (committee : Committee) (names : List PublicKey) :
    (∃ total, committee.weigh names [] 0 = .ok total ∧ committee.quorumThreshold ≤ total) ↔
      committee.IsQuorum names := by
  simp only [weigh_ok, IsQuorum, List.not_mem_nil, not_false_eq_true, true_and, Nat.zero_add]
  constructor
  · rintro ⟨_, ⟨distinct, rights, rfl⟩, enough⟩
    exact ⟨distinct, rights, enough⟩
  · rintro ⟨distinct, rights, enough⟩
    exact ⟨_, ⟨distinct, rights, rfl⟩, enough⟩

/-- A quorum is not empty, since the threshold is positive. -/
theorem Committee.IsQuorum.ne_nil {committee : Committee} {names : List PublicKey}
    (isQuorum : committee.IsQuorum names) : names ≠ [] := by
  rintro rfl
  have positive := committee.quorumThreshold_pos
  simp only [IsQuorum, List.map_nil, List.sum_nil] at isQuorum
  omega

structure QC where
  hash : Digest
  round : Nat
  votes : List (PublicKey × Signature)

namespace QC

def genesis : QC := ⟨default, 0, []⟩

/-- Equality of the source compares the hash and the round only. -/
instance : BEq QC := ⟨fun first second => first.hash = second.hash ∧ first.round = second.round⟩

/-- Two QCs are compared by hash and round. -/
theorem beq_iff {first second : QC} :
    (first == second) = true ↔ first.hash = second.hash ∧ first.round = second.round := by
  simp [BEq.beq]

def digest (qc : QC) : Digest := sha512 (.vote qc.hash qc.round)

def verify (qc : QC) (committee : Committee) : ConsensusResult Unit := do
  let weight ← committee.weigh (qc.votes.map Prod.fst) [] 0
  ensure (committee.quorumThreshold ≤ weight) .qcRequiresQuorum
  ensure (Crypto.verifyBatch qc.digest qc.votes) .invalidSignature

/-- A block and a timeout skip the check of an embedded QC that equals genesis. -/
def verifyEmbedded (qc : QC) (committee : Committee) : ConsensusResult Unit :=
  if qc == genesis then .ok () else qc.verify committee

/-- A QC verifies when its authors are a quorum and all signed its digest. -/
theorem verify_ok {qc : QC} {committee : Committee} :
    qc.verify committee = .ok () ↔ committee.IsQuorum (qc.votes.map Prod.fst) ∧
      Crypto.verifyBatch qc.digest qc.votes = true := by
  rw [← committee.weigh_quorum, verify]
  cases counted : committee.weigh (qc.votes.map Prod.fst) [] 0 with
  | error failure => simp [bind, Except.bind]
  | ok weight =>
      simp only [bind, Except.bind, Except.ok.injEq, exists_eq_left']
      exact seq_ok.trans (by rw [ensure_ok, ensure_ok, decide_eq_true_iff])

/-- The QC of a block is that of genesis or verifies. -/
theorem verifyEmbedded_ok {qc : QC} {committee : Committee} :
    qc.verifyEmbedded committee = .ok () ↔
      (qc == genesis) = true ∨ qc.verify committee = .ok () := by
  unfold verifyEmbedded
  by_cases isGenesis : (qc == genesis) = true <;> simp [isGenesis]

end QC

/-- The digest that a timeout signs and that a TC recomputes for each entry. -/
def timeoutDigest (round highQcRound : Nat) : Digest := sha512 (.timeout round highQcRound)

structure TC where
  round : Nat
  votes : List (PublicKey × Signature × Nat)

namespace TC

def verify (tc : TC) (committee : Committee) : ConsensusResult Unit := do
  let weight ← committee.weigh (tc.votes.map Prod.fst) [] 0
  ensure (committee.quorumThreshold ≤ weight) .tcRequiresQuorum
  ensure (tc.votes.all fun vote =>
    Crypto.verify vote.1 (timeoutDigest tc.round vote.2.2) vote.2.1) .invalidSignature

def highQcRounds (tc : TC) : List Nat := tc.votes.map fun vote => vote.2.2

/-- A TC verifies when its authors are a quorum and each signed its timeout. -/
theorem verify_ok {tc : TC} {committee : Committee} :
    tc.verify committee = .ok () ↔ committee.IsQuorum (tc.votes.map Prod.fst) ∧
      ∀ vote ∈ tc.votes,
        Crypto.verify vote.1 (timeoutDigest tc.round vote.2.2) vote.2.1 = true := by
  rw [← committee.weigh_quorum, verify]
  cases counted : committee.weigh (tc.votes.map Prod.fst) [] 0 with
  | error failure => simp [bind, Except.bind]
  | ok weight =>
      simp only [bind, Except.bind, Except.ok.injEq, exists_eq_left']
      exact seq_ok.trans (by rw [ensure_ok, ensure_ok, decide_eq_true_iff, List.all_eq_true])

/-- A verified TC lists at least one vote. -/
theorem votes_ne_nil {tc : TC} {committee : Committee} (verified : tc.verify committee = .ok ()) :
    tc.votes ≠ [] := by
  intro empty
  exact (verify_ok.mp verified).1.ne_nil (by rw [empty, List.map_nil])

end TC

structure Block where
  qc : QC
  tc : Option TC
  author : PublicKey
  round : Nat
  payload : List Digest
  signature : Signature

namespace Block

def genesis : Block := ⟨.genesis, none, default, 0, [], default⟩

/-- The digest covers neither the round and the votes of the QC nor the TC. -/
def digest (block : Block) : Digest :=
  sha512 (.block block.author block.round block.payload block.qc.hash)

def new (qc : QC) (tc : Option TC) (author : PublicKey) (round : Nat) (payload : List Digest)
    (sign : Digest → Signature) : Block :=
  let block : Block := ⟨qc, tc, author, round, payload, default⟩
  { block with signature := sign block.digest }

def parent (block : Block) : Digest := block.qc.hash

def verify (block : Block) (committee : Committee) : ConsensusResult Unit := do
  ensure (0 < committee.stake block.author) (.unknownAuthority block.author)
  ensure (Crypto.verify block.author block.digest block.signature) .invalidSignature
  block.qc.verifyEmbedded committee
  match block.tc with
  | some tc => tc.verify committee
  | none => ensure (!(5 < block.round && block.payload.isEmpty)) .invalidPayload

/-- A block verifies when its author has stake and signed it and its certificates verify. -/
theorem verify_ok {block : Block} {committee : Committee} :
    block.verify committee = .ok () ↔
      0 < committee.stake block.author ∧
        Crypto.verify block.author block.digest block.signature = true ∧
        block.qc.verifyEmbedded committee = .ok () ∧
        (∀ tc, block.tc = some tc → tc.verify committee = .ok ()) ∧
        (block.tc = none → 5 < block.round → block.payload ≠ []) := by
  rw [verify, seq_ok, seq_ok, seq_ok, ensure_ok, ensure_ok, decide_eq_true_iff]
  cases block.tc with
  | some tc => simp
  | none => simp [ensure_ok, imp_iff_not_or]

end Block

structure Vote where
  hash : Digest
  round : Nat
  author : PublicKey
  signature : Signature

namespace Vote

def digest (vote : Vote) : Digest := sha512 (.vote vote.hash vote.round)

def new (block : Block) (author : PublicKey) (sign : Digest → Signature) : Vote :=
  let vote : Vote := ⟨block.digest, block.round, author, default⟩
  { vote with signature := sign vote.digest }

def verify (vote : Vote) (committee : Committee) : ConsensusResult Unit := do
  ensure (0 < committee.stake vote.author) (.unknownAuthority vote.author)
  ensure (Crypto.verify vote.author vote.digest vote.signature) .invalidSignature

/-- A vote verifies when its author has stake and signed it. -/
theorem verify_ok {vote : Vote} {committee : Committee} :
    vote.verify committee = .ok () ↔ 0 < committee.stake vote.author ∧
      Crypto.verify vote.author vote.digest vote.signature = true := by
  rw [verify, seq_ok, ensure_ok, ensure_ok, decide_eq_true_iff]

end Vote

structure Timeout where
  highQc : QC
  round : Nat
  author : PublicKey
  signature : Signature

namespace Timeout

def digest (timeout : Timeout) : Digest := timeoutDigest timeout.round timeout.highQc.round

def new (highQc : QC) (round : Nat) (author : PublicKey) (sign : Digest → Signature) : Timeout :=
  let timeout : Timeout := ⟨highQc, round, author, default⟩
  { timeout with signature := sign timeout.digest }

def verify (timeout : Timeout) (committee : Committee) : ConsensusResult Unit := do
  ensure (0 < committee.stake timeout.author) (.unknownAuthority timeout.author)
  ensure (Crypto.verify timeout.author timeout.digest timeout.signature) .invalidSignature
  timeout.highQc.verifyEmbedded committee

/-- A timeout verifies when its author has stake and signed it and its QC is valid. -/
theorem verify_ok {timeout : Timeout} {committee : Committee} :
    timeout.verify committee = .ok () ↔ 0 < committee.stake timeout.author ∧
      Crypto.verify timeout.author timeout.digest timeout.signature = true ∧
        timeout.highQc.verifyEmbedded committee = .ok () := by
  rw [verify, seq_ok, seq_ok, ensure_ok, ensure_ok, decide_eq_true_iff]

end Timeout

inductive ConsensusMessage where
  | propose (block : Block)
  | vote (vote : Vote)
  | timeout (timeout : Timeout)
  | tc (tc : TC)
  | syncRequest (missing : Digest) (origin : PublicKey)

/-- The receiver passes sync requests to the helper and all else to the core. -/
def ConsensusMessage.forCore : ConsensusMessage → Bool
  | .syncRequest _ _ => false
  | _ => true

/-- Every certificate in the message passes its check. -/
def ConsensusMessage.certified (committee : Committee) : ConsensusMessage → Bool
  | .propose block => accepts (block.qc.verifyEmbedded committee) &&
      block.tc.all fun tc => accepts (tc.verify committee)
  | .timeout sent => accepts (sent.highQc.verifyEmbedded committee)
  | .tc sent => accepts (sent.verify committee)
  | _ => true

/-- A signature together with its author and the digest that it is checked against. -/
structure SignatureClaim where
  author : PublicKey
  digest : Digest
  signature : Signature

def SignatureClaim.Valid (claim : SignatureClaim) : Prop :=
  Crypto.verify claim.author claim.digest claim.signature = true

def QC.claims (qc : QC) : List SignatureClaim :=
  qc.votes.map fun vote => ⟨vote.1, qc.digest, vote.2⟩

def TC.claims (tc : TC) : List SignatureClaim :=
  tc.votes.map fun vote => ⟨vote.1, timeoutDigest tc.round vote.2.2, vote.2.1⟩

/-- The signatures that a receiver finds in a message. -/
def ConsensusMessage.claims : ConsensusMessage → List SignatureClaim
  | .propose block => ⟨block.author, block.digest, block.signature⟩ ::
      (block.qc.claims ++ (block.tc.map TC.claims).getD [])
  | .vote sent => [⟨sent.author, sent.digest, sent.signature⟩]
  | .timeout sent => ⟨sent.author, sent.digest, sent.signature⟩ :: sent.highQc.claims
  | .tc sent => sent.claims
  | .syncRequest _ _ => []

end DeflHotstuff
