import DeflHotstuff.Library.Octets
import Mathlib.Data.List.Induction

namespace Verification

/-- The bytes of a number, the most significant first. -/
def bigEndian (width value : Nat) : List UInt8 := (littleEndian width value).reverse

def ofBigEndian (bytes : List UInt8) : Nat :=
  bytes.foldl (fun value byte => 256 * value + byte.toNat) 0

@[simp] theorem length_bigEndian (width value : Nat) : (bigEndian width value).length = width := by
  rw [bigEndian, List.length_reverse, length_littleEndian]

/-- One digit more stands at the end. -/
theorem bigEndian_succ (width value : Nat) :
    bigEndian (width + 1) value = bigEndian width (value / 256) ++ [UInt8.ofNat value] := by
  rw [bigEndian, littleEndian, List.reverse_cons, bigEndian]

/-- A digit at the end is the lowest one. -/
theorem ofBigEndian_append (bytes : List UInt8) (byte : UInt8) :
    ofBigEndian (bytes ++ [byte]) = 256 * ofBigEndian bytes + byte.toNat := by
  rw [ofBigEndian, List.foldl_append, List.foldl_cons, List.foldl_nil, ofBigEndian]

/-- A number that fits in the width is read back. -/
theorem ofBigEndian_bigEndian {width value : Nat} (fits : value < 256 ^ width) :
    ofBigEndian (bigEndian width value) = value := by
  induction width generalizing value with
  | zero =>
      have zero : value = 0 := by omega
      rw [zero]
      rfl
  | succ width ih =>
      have low : (UInt8.ofNat value).toNat = value % 256 := UInt8.toNat_ofNat'
      rw [bigEndian_succ, ofBigEndian_append, ih (by omega), low]
      omega

/-- Bytes are the ones of the number that they are read as. -/
theorem bigEndian_ofBigEndian (bytes : List UInt8) :
    bigEndian bytes.length (ofBigEndian bytes) = bytes := by
  induction bytes using List.reverseRecOn with
  | nil => rfl
  | append_singleton bytes byte ih =>
      have small := byte.toNat_lt
      have high : (256 * ofBigEndian bytes + byte.toNat) / 256 = ofBigEndian bytes := by omega
      have low : UInt8.ofNat (256 * ofBigEndian bytes + byte.toNat) = byte := by
        apply UInt8.toNat.inj
        rw [UInt8.toNat_ofNat']
        omega
      rw [List.length_append, List.length_singleton, bigEndian_succ, ofBigEndian_append, high, ih,
        low]

/-- A number is below the power that its digits reach. -/
theorem ofBigEndian_lt (bytes : List UInt8) : ofBigEndian bytes < 256 ^ bytes.length := by
  induction bytes using List.reverseRecOn with
  | nil => exact Nat.one_pos
  | append_singleton bytes byte ih =>
      have small := byte.toNat_lt
      rw [ofBigEndian_append, List.length_append, List.length_singleton, pow_succ]
      omega

section Frames

variable {Message Symbol : Type} {encode : Message → List Symbol}

/-- A frame is not empty and tells its end. -/
structure Delimits (encode : Message → List Symbol) : Prop where
  nonempty : ∀ message, encode message ≠ []
  ends : ∀ first second rest rest', encode first ++ rest = encode second ++ rest' → first = second

/-- Frames that begin a sequence of frames are the first ones of it. -/
theorem Delimits.prefix_of_flatMap (delimits : Delimits encode) {read messages : List Message}
    (begins : read.flatMap encode <+: messages.flatMap encode) : read <+: messages := by
  induction read generalizing messages with
  | nil => exact List.nil_prefix
  | cons message read ih =>
      obtain ⟨rest, split⟩ := begins
      cases messages with
      | nil =>
          have empty := congrArg List.length split
          have some_symbol := List.length_pos_iff.mpr (delimits.nonempty message)
          simp only [List.flatMap_cons, List.flatMap_nil, List.length_append, List.length_nil]
            at empty
          omega
      | cons other others =>
          rw [List.flatMap_cons, List.flatMap_cons, List.append_assoc] at split
          obtain rfl := delimits.ends message other _ _ split
          have later : read.flatMap encode <+: others.flatMap encode :=
            ⟨rest, List.append_cancel_left split⟩
          exact (List.prefix_cons_inj _).mpr (ih later)

/-- A length in front delimits a message as long as it fits in the width. -/
theorem lengthDelimits (width : Nat) (positive : 0 < width) :
    Delimits fun message : {message : List UInt8 // message.length < 256 ^ width} =>
      bigEndian width message.val.length ++ message.val where
  nonempty message empty := by
    have length := congrArg List.length empty
    simp only [List.length_append, length_bigEndian, List.length_nil] at length
    omega
  ends first second rest rest' same := by
    rw [List.append_assoc, List.append_assoc] at same
    obtain ⟨header, payload⟩ := List.append_inj same (by simp)
    have length := congrArg ofBigEndian header
    rw [ofBigEndian_bigEndian first.property, ofBigEndian_bigEndian second.property] at length
    exact Subtype.ext (List.append_inj payload length).1

end Frames

end Verification
