import DeflHotstuff.Construction.Hashing

namespace DeflHotstuff

open Verification

section Bytes

@[simp] theorem length_toLeBytes (round : Nat) : (toLeBytes round).length = 8 :=
  length_littleEndian 8 round

/-- Two numbers of 64 bits are equal when their bytes are. -/
theorem toLeBytes_inj {first second : Nat} (fits : IsU64 first) (fits' : IsU64 second) :
    toLeBytes first = toLeBytes second ↔ first = second :=
  littleEndian_inj fits fits'

/-- The digests of a payload take 32 bytes each. -/
theorem length_flatMap_toList (payload : List (Bytes 32)) :
    (payload.flatMap Vector.toList).length = payload.length * 32 :=
  length_flatMap_width (fun digest => digest.length_toList) payload

/-- The bytes of a payload determine its digests. -/
theorem flatMap_toList_inj {payload others : List (Bytes 32)} :
    payload.flatMap Vector.toList = others.flatMap Vector.toList ↔ payload = others :=
  flatMap_width_inj (fun digest => digest.length_toList) (by decide) fun _ _ => Vector.toList_inj.mp

end Bytes

namespace Preimage

/-- The strings that are signed, with rounds that the source can hold. -/
def Fits : Preimage (Bytes 32) (Bytes 32) → Prop
  | .block _ round _ _ => IsU64 round
  | .vote _ round => IsU64 round
  | .timeout round highQcRound => IsU64 round ∧ IsU64 highQcRound
  | .batch _ => False

def width : Preimage (Bytes 32) (Bytes 32) → Nat
  | .block _ _ payload _ => 72 + payload.length * 32
  | .vote _ _ => 40
  | .timeout _ _ => 16
  | .batch bytes => bytes.length

/-- The width of a signed string is its length. -/
theorem length_bytes (preimage : Preimage (Bytes 32) (Bytes 32)) :
    preimage.bytes.length = preimage.width := by
  cases preimage with
  | block author round payload parent =>
      simp only [bytes, width, List.length_append, Vector.length_toList, length_toLeBytes,
        length_flatMap_toList]
      omega
  | vote hash round => simp [bytes, width]
  | timeout round highQcRound => simp [bytes, width]
  | batch bytes => rfl

/-- The bytes of a block determine its fields. -/
theorem block_bytes_inj {author author' parent parent' : Bytes 32} {round round' : Nat}
    {payload payload' : List (Bytes 32)} (fits : IsU64 round) (fits' : IsU64 round') :
    (block author round payload parent).bytes = (block author' round' payload' parent').bytes ↔
      author = author' ∧ round = round' ∧ payload = payload' ∧ parent = parent' := by
  constructor
  · intro same
    -- the fields in front of the payload have a fixed width, and so has the one behind it
    obtain ⟨sameAuthor, same⟩ := List.append_inj same (by simp)
    obtain ⟨sameRound, same⟩ := List.append_inj same (by simp)
    obtain ⟨samePayload, sameParent⟩ := List.append_inj' same (by simp)
    exact ⟨Vector.toList_inj.mp sameAuthor, (toLeBytes_inj fits fits').mp sameRound,
      flatMap_toList_inj.mp samePayload, Vector.toList_inj.mp sameParent⟩
  · rintro ⟨rfl, rfl, rfl, rfl⟩
    rfl

/-- The bytes of a vote determine its fields. -/
theorem vote_bytes_inj {hash hash' : Bytes 32} {round round' : Nat} (fits : IsU64 round)
    (fits' : IsU64 round') :
    bytes (vote hash round) = bytes (vote hash' round') ↔ hash = hash' ∧ round = round' := by
  constructor
  · intro same
    obtain ⟨sameHash, sameRound⟩ := List.append_inj same (by simp)
    exact ⟨Vector.toList_inj.mp sameHash, (toLeBytes_inj fits fits').mp sameRound⟩
  · rintro ⟨rfl, rfl⟩
    rfl

/-- The bytes of a timeout determine its fields. -/
theorem timeout_bytes_inj {round round' highQcRound highQcRound' : Nat} (fits : IsU64 round)
    (fits' : IsU64 round') (fitsHigh : IsU64 highQcRound) (fitsHigh' : IsU64 highQcRound') :
    bytes (timeout round highQcRound) = bytes (timeout round' highQcRound') ↔
      round = round' ∧ highQcRound = highQcRound' := by
  constructor
  · intro same
    obtain ⟨sameRound, sameHigh⟩ := List.append_inj same (by simp)
    exact ⟨(toLeBytes_inj fits fits').mp sameRound, (toLeBytes_inj fitsHigh fitsHigh').mp sameHigh⟩
  · rintro ⟨rfl, rfl⟩
    rfl

/-- Strings of different kinds have different lengths, and those of one kind have fixed fields. -/
theorem bytes_inj {first second : Preimage (Bytes 32) (Bytes 32)} (fits : first.Fits)
    (fits' : second.Fits) : first.bytes = second.bytes ↔ first = second := by
  constructor
  · intro same
    have widths := congrArg List.length same
    rw [length_bytes, length_bytes] at widths
    cases first with
    | block author round payload parent =>
        cases second with
        | block author' round' payload' parent' =>
            rw [block.injEq]
            exact (block_bytes_inj fits fits').mp same
        | vote hash round => simp only [width] at widths; omega
        | timeout round highQcRound => simp only [width] at widths; omega
        | batch bytes => cases fits'
    | vote hash round =>
        cases second with
        | block author round payload parent => simp only [width] at widths; omega
        | vote hash' round' =>
            rw [vote.injEq]
            exact (vote_bytes_inj fits fits').mp same
        | timeout round highQcRound => cases widths
        | batch bytes => cases fits'
    | timeout round highQcRound =>
        cases second with
        | block author round payload parent => simp only [width] at widths; omega
        | vote hash round => cases widths
        | timeout round' highQcRound' =>
            rw [timeout.injEq]
            exact (timeout_bytes_inj fits.1 fits'.1 fits.2 fits'.2).mp same
        | batch bytes => cases fits'
    | batch bytes => cases fits
  · intro same
    rw [same]

end Preimage

section Hasher

/-- The loop over the payload feeds its digests in order. -/
theorem foldl_update_fed (payload : List (Bytes 32)) (hasher : Sha512) :
    (payload.foldl (fun hasher x => hasher.update x.toList) hasher).fed =
      hasher.fed ++ payload.flatMap Vector.toList := by
  induction payload generalizing hasher with
  | nil => simp
  | cons digest payload ih =>
      rw [List.foldl_cons, ih, List.flatMap_cons, ← List.append_assoc]
      rfl

variable [Dalek]

/-- The hasher of a block is fed the bytes of its preimage. -/
theorem Block.hasher_fed (block : Block) : block.hasher.fed =
    (Preimage.block block.author block.round block.payload block.qc.hash).bytes := by
  have payloadFed := foldl_update_fed block.payload
    ((Sha512.new.update (Vector.toList block.author)).update (toLeBytes block.round))
  have parentFed := congrArg (· ++ Vector.toList block.qc.hash) payloadFed
  apply parentFed.trans
  simp only [Sha512.new, Sha512.update, Preimage.bytes, List.nil_append, List.append_assoc]

/-- What the digest of a signed item is the hash of. -/
def Signed.preimage : Signed → Preimage (Bytes 32) (Bytes 32)
  | .block sent => .block sent.author sent.round sent.payload sent.qc.hash
  | .vote sent => .vote sent.hash sent.round
  | .qc sent => .vote sent.hash sent.round
  | .timeout sent => .timeout sent.round sent.highQc.round
  | .entry tc highQcRound => .timeout tc.round highQcRound

/-- All five places feed the bytes of the string that the digest is about. -/
theorem Signed.hasher_fed (signed : Signed) : signed.hasher.fed = signed.preimage.bytes := by
  cases signed with
  | block sent => exact sent.hasher_fed
  | vote sent => rfl
  | qc sent => rfl
  | timeout sent => rfl
  | entry tc highQcRound => rfl

/-- The digest of the messages is the truncated hash of what they feed to the hasher. -/
theorem Signed.digest_hasher (signed : Signed) : signed.digest = signed.hasher.digest := by
  have hashed : signed.digest = Sha512.digest ⟨signed.preimage.bytes⟩ := by cases signed <;> rfl
  rw [hashed, ← signed.hasher_fed]

end Hasher

section Separation

variable [Dalek]

/-- The length of a string tells what it was made for. -/
theorem Signed.fed_ne {first second : Signed} (different : first.kind ≠ second.kind) :
    first.hasher.fed ≠ second.hasher.fed := by
  intro same
  rw [first.hasher_fed, second.hasher_fed] at same
  have lengths := congrArg List.length same
  rw [Preimage.length_bytes, Preimage.length_bytes] at lengths
  cases first <;> cases second <;> simp only [preimage, Preimage.width, kind, ne_eq,
    not_true_eq_false, reduceCtorEq, not_false_eq_true] at lengths different <;> omega

/-- Two signed values feed the same bytes only for the same preimage. -/
theorem Signed.fed_inj (first second : Signed) (fits : first.preimage.Fits)
    (fits' : second.preimage.Fits) :
    first.hasher.fed = second.hasher.fed ↔ first.preimage = second.preimage := by
  rw [first.hasher_fed, second.hasher_fed, Preimage.bytes_inj fits fits']

/-- Two strings that have one digest. -/
def Collision (first second : Sha512) : Prop :=
  first.fed ≠ second.fed ∧ first.digest = second.digest

/-- A signature that is good for two kinds of items exhibits a collision of the hash. -/
theorem Signed.collision {first second : Signed} (different : first.kind ≠ second.kind)
    (same : first.digest = second.digest) : Collision first.hasher second.hasher :=
  ⟨fed_ne different, by rw [← first.digest_hasher, ← second.digest_hasher, same]⟩

/-- Strings that share a digest have the same bytes, or they exhibit a collision of the hash. -/
theorem Preimage.bytes_or_collision (first second : Preimage (Bytes 32) (Bytes 32))
    (same : Crypto.sha512 first = Crypto.sha512 second) :
    first.bytes = second.bytes ∨ Collision ⟨first.bytes⟩ ⟨second.bytes⟩ := by
  by_cases sameBytes : first.bytes = second.bytes
  · exact .inl sameBytes
  · exact .inr ⟨sameBytes, same⟩

/-- What `CollisionFree` says of any digests, said of the bytes: each part of it holds, or else a
collision of the hash is at hand. A batch may still be the very bytes of a block. -/
theorem collisionFree_or_collision :
    (∀ first second : Preimage (Bytes 32) (Bytes 32), first.Fits → second.Fits →
      Crypto.sha512 first = Crypto.sha512 second →
        first = second ∨ Collision ⟨first.bytes⟩ ⟨second.bytes⟩) ∧
    (∀ bytes bytes' : List UInt8,
      Crypto.sha512 (Preimage.batch bytes) = Crypto.sha512 (.batch bytes') →
        bytes = bytes' ∨ Collision ⟨bytes⟩ ⟨bytes'⟩) ∧
    ∀ (block : Block) (bytes : List UInt8), block.digest = Crypto.sha512 (.batch bytes) →
      block.hasher.fed = bytes ∨ Collision block.hasher ⟨bytes⟩ := by
  refine ⟨?signed, ?batches, ?apart⟩
  case signed =>
    intro first second fits fits' same
    exact (first.bytes_or_collision second same).imp_left (Preimage.bytes_inj fits fits').mp
  case batches =>
    intro bytes bytes' same
    exact Preimage.bytes_or_collision (.batch bytes) (.batch bytes') same
  case apart =>
    intro block bytes same
    have fed : block.hasher = ⟨(Preimage.block block.author block.round block.payload
        block.qc.hash).bytes⟩ := congrArg Sha512.mk block.hasher_fed
    rw [fed]
    exact Preimage.bytes_or_collision _ (.batch bytes) same

/-- Every signature of a message is checked against the digest of what it was made for. -/
theorem ConsensusMessage.claims_digest (message : ConsensusMessage) :
    message.claims.map SignatureClaim.digest = message.signed.map Signed.digest := by
  have certificate (qc : QC) : qc.claims.map SignatureClaim.digest =
      (qc.votes.map fun _ => Signed.qc qc).map Signed.digest := by
    rw [QC.claims, List.map_map, List.map_map]
    rfl
  have entries (tc : TC) : tc.claims.map SignatureClaim.digest =
      (tc.votes.map fun vote => Signed.entry tc vote.2.2).map Signed.digest := by
    rw [TC.claims, List.map_map, List.map_map]
    rfl
  cases message with
  | propose block =>
      rw [claims, signed, List.map_cons, List.map_cons, List.map_append, List.map_append,
        certificate]
      cases block.tc with
      | none => rfl
      | some tc => exact congrArg (fun rest => _ :: (_ ++ rest)) (entries tc)
  | vote sent => rfl
  | timeout sent =>
      rw [claims, signed, List.map_cons, List.map_cons, certificate]
      rfl
  | tc sent => exact entries sent
  | syncRequest missing origin => rfl

/-- A TC is checked against the hashes of what it feeds for its entries. -/
theorem TC.verify_hasher {tc : TC} {committee : Committee} :
    tc.verify committee = .ok () ↔ committee.IsQuorum (tc.votes.map Prod.fst) ∧
      ∀ vote ∈ tc.votes, Crypto.verify vote.1 (tc.hasher vote.2.2).digest vote.2.1 = true := by
  rw [verify_ok]
  have recomputed (highQcRound : Nat) :
      timeoutDigest tc.round highQcRound = (tc.hasher highQcRound).digest :=
    (Signed.entry tc highQcRound).digest_hasher
  simp only [recomputed]

/-- The hashed strings agree exactly on what they are about, and those of different kinds differ.
Only a collision of the hash lets a signature of one kind pass for another. -/
theorem signed_strings_separated :
    (∀ signed : Signed, signed.digest = signed.hasher.digest) ∧
    (∀ first second : Block, IsU64 first.round → IsU64 second.round →
      (first.hasher.fed = second.hasher.fed ↔ first.author = second.author ∧
        first.round = second.round ∧ first.payload = second.payload ∧
          first.qc.hash = second.qc.hash)) ∧
    (∀ first second : Vote, IsU64 first.round → IsU64 second.round →
      (first.hasher.fed = second.hasher.fed ↔
        first.hash = second.hash ∧ first.round = second.round)) ∧
    (∀ (vote : Vote) (qc : QC), IsU64 vote.round → IsU64 qc.round →
      (vote.hasher.fed = qc.hasher.fed ↔ vote.hash = qc.hash ∧ vote.round = qc.round)) ∧
    (∀ first second : Timeout, IsU64 first.round → IsU64 second.round →
      IsU64 first.highQc.round → IsU64 second.highQc.round →
      (first.hasher.fed = second.hasher.fed ↔
        first.round = second.round ∧ first.highQc.round = second.highQc.round)) ∧
    (∀ (timeout : Timeout) (tc : TC) (highQcRound : Nat), IsU64 timeout.round →
      IsU64 tc.round → IsU64 timeout.highQc.round → IsU64 highQcRound →
      (timeout.hasher.fed = (tc.hasher highQcRound).fed ↔
        timeout.round = tc.round ∧ timeout.highQc.round = highQcRound)) ∧
    ∀ first second : Signed, first.kind ≠ second.kind →
      first.hasher.fed ≠ second.hasher.fed ∧
        (first.digest = second.digest → Collision first.hasher second.hasher) := by
  refine ⟨Signed.digest_hasher, ?blocks, ?votes, ?certificates, ?timeouts, ?entries, ?kinds⟩
  case blocks =>
    intro first second fits fits'
    have strings := Signed.fed_inj (.block first) (.block second) fits fits'
    rwa [Signed.preimage, Signed.preimage, Preimage.block.injEq] at strings
  case votes =>
    intro first second fits fits'
    have strings := Signed.fed_inj (.vote first) (.vote second) fits fits'
    rwa [Signed.preimage, Signed.preimage, Preimage.vote.injEq] at strings
  case certificates =>
    intro vote qc fits fits'
    have strings := Signed.fed_inj (.vote vote) (.qc qc) fits fits'
    rwa [Signed.preimage, Signed.preimage, Preimage.vote.injEq] at strings
  case timeouts =>
    intro first second fits fits' fitsHigh fitsHigh'
    have strings := Signed.fed_inj (.timeout first) (.timeout second) ⟨fits, fitsHigh⟩
      ⟨fits', fitsHigh'⟩
    rwa [Signed.preimage, Signed.preimage, Preimage.timeout.injEq] at strings
  case entries =>
    intro timeout tc highQcRound fits fits' fitsHigh fitsHigh'
    have strings := Signed.fed_inj (.timeout timeout) (.entry tc highQcRound) ⟨fits, fitsHigh⟩
      ⟨fits', fitsHigh'⟩
    rwa [Signed.preimage, Signed.preimage, Preimage.timeout.injEq] at strings
  case kinds =>
    intro first second different
    exact ⟨Signed.fed_ne different, Signed.collision different⟩

end Separation

namespace Plain

/-- A hash that keeps the beginning of what it is fed, and signatures that repeat the digest. -/
@[reducible] def dalek : Dalek where
  sha512 bytes := Vector.ofFn fun index => bytes.getD index 0
  verifyStrict _ digest signature := decide (signature = digest ++ digest)
  verifyBatch digest votes := votes.all fun vote => decide (vote.2 = digest ++ digest)
  verifyBatch_iff _ _ := List.all_eq_true

def blockOf (payload : List (Bytes 32)) (parent : Bytes 32) : @Block (@octets dalek) :=
  letI := dalek
  ⟨⟨parent, 0, []⟩, none, default, 1, payload, default⟩

/-- Between the payload and the parent no digest can change sides. -/
theorem signed_strings_separated_blockOf :
    (@Block.hasher dalek (blockOf [Vector.replicate 32 1] (Vector.replicate 32 2))).fed ≠
      (@Block.hasher dalek (blockOf [] (Vector.replicate 32 1))).fed := by
  intro same
  have fits : IsU64 1 := by unfold IsU64; decide
  have equal := ((@signed_strings_separated dalek).2.1 _ _ fits fits).mp same
  cases equal.2.2.1

end Plain

end DeflHotstuff
