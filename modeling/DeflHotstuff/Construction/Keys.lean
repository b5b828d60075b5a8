import DeflHotstuff.Construction.Hashing
import DeflHotstuff.Library.Handler
import DeflHotstuff.Library.Radix64

namespace DeflHotstuff

open Verification

/-- The errors of `base64`. -/
inductive DecodeError where
  | invalidByte (offset : Nat) (byte : UInt8)
  | invalidLength
  | invalidLastSymbol (offset : Nat) (byte : UInt8)

/-- What `base64` provides, with the texts of its errors. -/
class Base64 where
  encode : List UInt8 → String
  decode : String → Except DecodeError (List UInt8)
  describe : DecodeError → String

/-- Decoding undoes encoding. -/
structure Base64.Standard [Base64] : Prop where
  decode_encode : ∀ bytes, decode (encode bytes) = .ok bytes

section Slice

variable {Failure : Type}

/-- The front of a slice, the end of which must lie within the slice. -/
def sliceTo (size : Nat) (bytes : List UInt8) : Exit Failure (List UInt8) :=
  let length := bytes.length
  if size ≤ length then .ok (bytes.take size)
  else .panic s!"range end index {size} out of range for slice of length {length}"

/-- A slice becomes an array only when it has the size of the array. -/
def tryInto (size : Nat) (slice : List UInt8) : Option (Bytes size) :=
  if sized : slice.length = size then some ⟨slice.toArray, sized⟩ else none

end Slice

variable [Base64] {Failure Written : Type}

/-- Both kinds of keys are decoded in this way. -/
def decodeKey (size : Nat) (s : String) : Exit DecodeError (Bytes size) := do
  let bytes ← Exit.ofExcept (Base64.decode s)
  let slice ← sliceTo size bytes
  match tryInto size slice with
  | some array => .ok array
  | none => .error .invalidLength

/-- The deserializer first yields a string or fails on its own. -/
def deserializeKey {size : Nat} (decodeBase64 : String → Exit DecodeError (Bytes size))
    (custom : String → Failure) (received : Except Failure String) :
    Exit Failure (Bytes size) := do
  let s ← Exit.ofExcept received
  (decodeBase64 s).mapError fun e => custom (Base64.describe e)

namespace PublicKey

def encodeBase64 (key : Bytes 32) : String := Base64.encode key.toList

def decodeBase64 (s : String) : Exit DecodeError (Bytes 32) := decodeKey 32 s

def serialize (serializeStr : String → Written) (key : Bytes 32) : Written :=
  serializeStr (encodeBase64 key)

def deserialize (custom : String → Failure) (received : Except Failure String) :
    Exit Failure (Bytes 32) := deserializeKey decodeBase64 custom received

end PublicKey

abbrev SecretKey := Bytes 64

namespace SecretKey

def encodeBase64 (key : SecretKey) : String := Base64.encode key.toList

def decodeBase64 (s : String) : Exit DecodeError SecretKey := decodeKey 64 s

def serialize (serializeStr : String → Written) (key : SecretKey) : Written :=
  serializeStr (encodeBase64 key)

def deserialize (custom : String → Failure) (received : Except Failure String) :
    Exit Failure SecretKey := deserializeKey decodeBase64 custom received

end SecretKey

end DeflHotstuff
