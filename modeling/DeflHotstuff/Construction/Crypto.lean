import Mathlib.Order.Defs.LinearOrder

namespace DeflHotstuff

/-- The strings that the code hashes. A `Vote` and a `QC` hash the same string. -/
inductive Preimage (PublicKey Digest : Type) where
  | block (author : PublicKey) (round : Nat) (payload : List Digest) (parent : Digest)
  | vote (hash : Digest) (round : Nat)
  | timeout (round highQcRound : Nat)
  | batch (bytes : List UInt8)

/-- The strings that are signed. The bytes of a batch are only hashed. -/
def Preimage.isSigned {PublicKey Digest : Type} : Preimage PublicKey Digest → Bool
  | .batch _ => false
  | _ => true

/-- The types and functions that the code takes from `ed25519-dalek`.
Batch verification accepts exactly the lists whose signatures all verify. -/
class Crypto where
  PublicKey : Type
  Digest : Type
  Signature : Type
  [order : LinearOrder PublicKey]
  [digestEq : DecidableEq Digest]
  defaultPublicKey : PublicKey
  defaultDigest : Digest
  defaultSignature : Signature
  sha512 : Preimage PublicKey Digest → Digest
  verify : PublicKey → Digest → Signature → Bool
  verifyBatch : Digest → List (PublicKey × Signature) → Bool
  verifyBatch_iff (digest : Digest) (votes : List (PublicKey × Signature)) :
    verifyBatch digest votes = true ↔ ∀ vote ∈ votes, verify vote.1 digest vote.2 = true

export Crypto (PublicKey Digest Signature sha512)

attribute [reducible, instance] Crypto.order Crypto.digestEq

instance [Crypto] : Inhabited PublicKey := ⟨Crypto.defaultPublicKey⟩
instance [Crypto] : Inhabited Digest := ⟨Crypto.defaultDigest⟩
instance [Crypto] : Inhabited Signature := ⟨Crypto.defaultSignature⟩

-- named once, so that a definition that tests membership carries no proof of its own
instance [Crypto] : LawfulBEq PublicKey := inferInstance
instance [Crypto] : LawfulBEq Digest := inferInstance

/-- No two signed strings share a digest, no two batches do, no block shares its digest with a batch,
and no string has the all-zero digest. -/
-- the symbolic reading of a hash; digests of 32 bytes do collide, so what is proved about the bytes
-- themselves exhibits the collision instead
structure CollisionFree [Crypto] : Prop where
  signed : ∀ first second : Preimage PublicKey Digest, first.isSigned = true →
    second.isSigned = true → sha512 first = sha512 second → first = second
  batches : ∀ bytes bytes' : List UInt8, sha512 (.batch bytes) = sha512 (.batch bytes') →
    bytes = bytes'
  apart : ∀ (author : PublicKey) (round : Nat) (payload : List Digest) (parent : Digest)
    (bytes : List UInt8), sha512 (.block author round payload parent) ≠ sha512 (.batch bytes)
  nonzero : ∀ preimage, sha512 preimage ≠ default

end DeflHotstuff
