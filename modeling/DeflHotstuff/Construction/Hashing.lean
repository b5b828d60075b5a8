import DeflHotstuff.Construction.Messages
import DeflHotstuff.Library.Octets
import Mathlib.Data.List.Lex
import Mathlib.Order.Basic

namespace DeflHotstuff

open Verification

/-- An array of bytes of the source. -/
abbrev Bytes (size : Nat) := Vector UInt8 size

/-- Rounds are 64-bit numbers in the source. -/
def IsU64 (value : Nat) : Prop := value < 2 ^ 64

def toLeBytes (round : Nat) : List UInt8 := littleEndian 8 round

/-- What `ed25519-dalek` computes from bytes.
Batch verification accepts exactly the lists whose signatures all verify. -/
class Dalek where
  sha512 : List UInt8 → Bytes 64
  verifyStrict : Bytes 32 → Bytes 32 → Bytes 64 → Bool
  verifyBatch : Bytes 32 → List (Bytes 32 × Bytes 64) → Bool
  verifyBatch_iff (digest : Bytes 32) (votes : List (Bytes 32 × Bytes 64)) :
    verifyBatch digest votes = true ↔ ∀ vote ∈ votes, verifyStrict vote.1 digest vote.2 = true

/-- The hasher keeps what it was fed. -/
structure Sha512 where
  fed : List UInt8

namespace Sha512

def new : Sha512 := ⟨[]⟩

def update (hasher : Sha512) (bytes : List UInt8) : Sha512 := ⟨hasher.fed ++ bytes⟩

def finalize [Dalek] (hasher : Sha512) : Bytes 64 := Dalek.sha512 hasher.fed

/-- A digest is the first half of the hash. -/
def digest [Dalek] (hasher : Sha512) : Bytes 32 := hasher.finalize.take 32

end Sha512

/-- The bytes of a hashed string, without tags, lengths or separators. -/
def Preimage.bytes : Preimage (Bytes 32) (Bytes 32) → List UInt8
  | .block author round payload parent =>
      author.toList ++ (toLeBytes round ++ (payload.flatMap Vector.toList ++ parent.toList))
  | .vote hash round => hash.toList ++ toLeBytes round
  | .timeout round highQcRound => toLeBytes round ++ toLeBytes highQcRound
  | .batch bytes => bytes

/-- Arrays of bytes are ordered like words. -/
instance bytesOrder (size : Nat) : LinearOrder (Bytes size) :=
  LinearOrder.lift' (fun key => key.toList.map UInt8.toNat) fun _ _ same =>
    Vector.toList_inj.mp (List.map_injective_iff.mpr (fun _ _ => UInt8.toNat_inj.mp) same)

def Signature.flatten (signature : Bytes 32 × Bytes 32) : Bytes 64 := signature.1 ++ signature.2

/-- The types of the source. Keys and digests are arrays of 32 bytes. -/
-- the priority prefers it to any fixed instance wherever the bytes are spoken about
instance (priority := 2000) octets [Dalek] : Crypto where
  PublicKey := Bytes 32
  Digest := Bytes 32
  Signature := Bytes 32 × Bytes 32
  defaultPublicKey := Vector.replicate 32 0
  defaultDigest := Vector.replicate 32 0
  defaultSignature := (Vector.replicate 32 0, Vector.replicate 32 0)
  sha512 preimage := Sha512.digest ⟨preimage.bytes⟩
  verify key digest signature := Dalek.verifyStrict key digest (Signature.flatten signature)
  verifyBatch digest votes :=
    Dalek.verifyBatch digest (votes.map fun vote => (vote.1, Signature.flatten vote.2))
  verifyBatch_iff digest votes := by
    rw [Dalek.verifyBatch_iff]
    simp only [List.forall_mem_map]

variable [Dalek]

/-! The five places of the source that feed a hasher. -/

def Block.hasher (block : Block) : Sha512 :=
  let hasher := Sha512.new
  let hasher := hasher.update (Vector.toList block.author)
  let hasher := hasher.update (toLeBytes block.round)
  let hasher := block.payload.foldl (fun hasher x => hasher.update (Vector.toList x)) hasher
  hasher.update (Vector.toList block.qc.hash)

def Vote.hasher (vote : Vote) : Sha512 :=
  let hasher := Sha512.new
  let hasher := hasher.update (Vector.toList vote.hash)
  hasher.update (toLeBytes vote.round)

def QC.hasher (qc : QC) : Sha512 :=
  let hasher := Sha512.new
  let hasher := hasher.update (Vector.toList qc.hash)
  hasher.update (toLeBytes qc.round)

def Timeout.hasher (timeout : Timeout) : Sha512 :=
  let hasher := Sha512.new
  let hasher := hasher.update (toLeBytes timeout.round)
  hasher.update (toLeBytes timeout.highQc.round)

/-- The check of a TC feeds a new hasher for each entry. -/
def TC.hasher (tc : TC) (highQcRound : Nat) : Sha512 :=
  let hasher := Sha512.new
  let hasher := hasher.update (toLeBytes tc.round)
  hasher.update (toLeBytes highQcRound)

/-- What a signature is made for. A QC carries signatures of votes and a TC those of timeouts. -/
inductive Kind where
  | block
  | vote
  | timeout
deriving DecidableEq

/-- The things whose digest is signed or checked against a signature. -/
inductive Signed where
  | block (block : Block)
  | vote (vote : Vote)
  | qc (qc : QC)
  | timeout (timeout : Timeout)
  | entry (tc : TC) (highQcRound : Nat)

namespace Signed

def kind : Signed → Kind
  | .block _ => .block
  | .vote _ | .qc _ => .vote
  | .timeout _ | .entry _ _ => .timeout

def hasher : Signed → Sha512
  | .block sent => sent.hasher
  | .vote sent => sent.hasher
  | .qc sent => sent.hasher
  | .timeout sent => sent.hasher
  | .entry tc highQcRound => tc.hasher highQcRound

def digest : Signed → Digest
  | .block sent => sent.digest
  | .vote sent => sent.digest
  | .qc sent => sent.digest
  | .timeout sent => sent.digest
  | .entry tc highQcRound => timeoutDigest tc.round highQcRound

end Signed

/-- What the signatures of a message are made for, in the order in which they are listed. -/
def ConsensusMessage.signed : ConsensusMessage → List Signed
  | .propose block => .block block :: (block.qc.votes.map (fun _ => .qc block.qc) ++
      (block.tc.map fun tc => tc.votes.map fun vote => .entry tc vote.2.2).getD [])
  | .vote sent => [.vote sent]
  | .timeout sent => .timeout sent :: sent.highQc.votes.map fun _ => .qc sent.highQc
  | .tc sent => sent.votes.map fun vote => .entry sent vote.2.2
  | .syncRequest _ _ => []

end DeflHotstuff
