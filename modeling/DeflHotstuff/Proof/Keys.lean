import DeflHotstuff.Construction.Keys

namespace DeflHotstuff

open Verification

section Slice

variable {Failure : Type} {size : Nat} {bytes slice : List UInt8}

/-- A slice of enough bytes takes the first ones. -/
theorem sliceTo_ok (enough : size ≤ bytes.length) :
    (sliceTo size bytes : Exit Failure (List UInt8)) = .ok (bytes.take size) :=
  if_pos enough

/-- A slice of too few bytes panics. -/
theorem sliceTo_panic (short : bytes.length < size) :
    ∃ message, (sliceTo size bytes : Exit Failure (List UInt8)) = .panic message :=
  ⟨_, if_neg (Nat.not_le.mpr short)⟩

/-- A slice of the right length becomes a key. -/
theorem tryInto_some (sized : slice.length = size) :
    ∃ key : Bytes size, tryInto size slice = some key ∧ key.toList = slice :=
  ⟨⟨slice.toArray, sized⟩, dif_pos sized, rfl⟩

end Slice

section Decode

variable [Base64] {size : Nat} {s : String}

/-- A string that is no Base64 is refused. -/
theorem decodeKey_error {failure : DecodeError} (refused : Base64.decode s = .error failure) :
    decodeKey size s = .error failure := by
  rw [decodeKey, refused]
  rfl

/-- The slice is taken before any length is compared. -/
theorem decodeKey_short {bytes : List UInt8} (decoded : Base64.decode s = .ok bytes)
    (short : bytes.length < size) : ∃ message, decodeKey size s = .panic message := by
  obtain ⟨message, panics⟩ := @sliceTo_panic DecodeError _ _ short
  refine ⟨message, ?_⟩
  rw [decodeKey, decoded]
  change (sliceTo size bytes >>= _) = _
  rw [panics, Exit.panic_bind]

/-- What follows the slice is ignored, so the comparison of lengths behind it never fails. -/
theorem decodeKey_enough {bytes : List UInt8} (decoded : Base64.decode s = .ok bytes)
    (enough : size ≤ bytes.length) :
    ∃ key : Bytes size, decodeKey size s = .ok key ∧ key.toList = bytes.take size := by
  obtain ⟨key, into, spelled⟩ := tryInto_some (List.length_take_of_le enough)
  refine ⟨key, ?_, spelled⟩
  rw [decodeKey, decoded]
  change (sliceTo size bytes >>= _) = _
  rw [sliceTo_ok enough, Exit.ok_bind, into]

end Decode

section Strict

variable {Failure Other : Type} {size : Nat}

/-- The outcome is the key that the string spells out, and an error where it spells out none. -/
structure Strict (decoded : Except DecodeError (List UInt8)) (outcome : Exit Failure (Bytes size)) :
    Prop where
  returns : outcome.Returns
  key : ∀ key, outcome = .ok key ↔ decoded = .ok key.toList
  refuses : (∀ key : Bytes size, decoded ≠ .ok key.toList) → ∃ failure, outcome = .error failure

/-- Changing the error of a decoder does not change what it accepts. -/
theorem Strict.mapError {decoded : Except DecodeError (List UInt8)}
    {outcome : Exit Failure (Bytes size)} (change : Failure → Other) :
    Strict decoded (outcome.mapError change) ↔ Strict decoded outcome := by
  constructor
  · intro strict
    exact ⟨Exit.returns_mapError.mp strict.returns,
      fun key => Exit.mapError_ok.symm.trans (strict.key key),
      fun foreign => Exit.mapError_error.mp (strict.refuses foreign)⟩
  · intro strict
    exact ⟨Exit.returns_mapError.mpr strict.returns,
      fun key => Exit.mapError_ok.trans (strict.key key),
      fun foreign => Exit.mapError_error.mpr (strict.refuses foreign)⟩

variable [Base64]

/-- The string is not an encoding at all, or one of as many bytes as a key has. -/
def SizedKey (size : Nat) (s : String) : Prop :=
  ∀ bytes, Base64.decode s = .ok bytes → bytes.length = size

/-- A string of the right size is decoded strictly. -/
theorem SizedKey.strict {s : String} (sized : SizedKey size s) :
    Strict (Base64.decode s) (decodeKey size s) := by
  cases decoded : Base64.decode s with
  | error failure =>
      rw [decodeKey_error decoded]
      exact ⟨.inr ⟨failure, rfl⟩, by simp, fun _ => ⟨failure, rfl⟩⟩
  | ok bytes =>
      have length := sized bytes decoded
      obtain ⟨key, outcome, spelled⟩ := decodeKey_enough decoded length.ge
      rw [List.take_of_length_le length.le] at spelled
      rw [outcome, ← spelled]
      refine ⟨.inl ⟨key, rfl⟩, fun other => ?_, fun foreign => absurd rfl (foreign key)⟩
      rw [Exit.ok.injEq, Except.ok.injEq, Vector.toList_inj]

/-- A strict decoder meets strings of the right size or no Base64 only. -/
theorem Strict.sized {s : String} (strict : Strict (Base64.decode s) (decodeKey size s)) :
    SizedKey size s := by
  intro bytes decoded
  rcases Nat.lt_or_ge bytes.length size with short | enough
  · obtain ⟨message, panics⟩ := decodeKey_short decoded short
    have returns := strict.returns
    rw [panics] at returns
    obtain ⟨_, impossible⟩ | ⟨_, impossible⟩ := returns <;> cases impossible
  · obtain ⟨key, outcome, spelled⟩ := decodeKey_enough decoded enough
    have whole := (strict.key key).mp outcome
    rw [decoded, spelled, Except.ok.injEq] at whole
    have lengths := congrArg List.length whole
    rw [List.length_take_of_le enough] at lengths
    exact lengths

/-- The decoder of a key is strict exactly at these strings. -/
theorem strict_decodeKey_iff {s : String} :
    Strict (Base64.decode s) (decodeKey size s) ↔ SizedKey size s :=
  ⟨Strict.sized, SizedKey.strict⟩

/-- The deserializer of keys passes on what their decoder does with the string. -/
theorem strict_deserializeKey_iff (custom : String → Failure) {s : String} :
    Strict (Base64.decode s) (deserializeKey (decodeKey size) custom (.ok s)) ↔
      SizedKey size s := by
  change Strict _ ((decodeKey size s).mapError _) ↔ _
  rw [Strict.mapError, strict_decodeKey_iff]

/-- The encoding of a key decodes to the key. -/
theorem decodeKey_encode (standard : Base64.Standard) (key : Bytes size) :
    decodeKey size (Base64.encode key.toList) = .ok key := by
  have decoded := standard.decode_encode key.toList
  have sized : SizedKey size (Base64.encode key.toList) := by
    intro bytes spelled
    rw [decoded, Except.ok.injEq] at spelled
    rw [← spelled, Vector.length_toList]
  exact (sized.strict.key key).mpr decoded

/-- Keys are decoded strictly exactly where the length of the decoded bytes is right. -/
theorem key_decoding_strict (standard : Base64.Standard) (custom : String → Failure) :
    (∀ s, (Strict (Base64.decode s) (PublicKey.decodeBase64 s) ↔ SizedKey 32 s) ∧
      (Strict (Base64.decode s) (PublicKey.deserialize custom (.ok s)) ↔ SizedKey 32 s)) ∧
    (∀ s, (Strict (Base64.decode s) (SecretKey.decodeBase64 s) ↔ SizedKey 64 s) ∧
      (Strict (Base64.decode s) (SecretKey.deserialize custom (.ok s)) ↔ SizedKey 64 s)) ∧
    (∀ key, PublicKey.decodeBase64 (PublicKey.encodeBase64 key) = .ok key) ∧
    ∀ key, SecretKey.decodeBase64 (SecretKey.encodeBase64 key) = .ok key := by
  refine ⟨fun s => ?_, fun s => ?_, decodeKey_encode standard, decodeKey_encode standard⟩
  · exact ⟨strict_decodeKey_iff, strict_deserializeKey_iff custom⟩
  · exact ⟨strict_decodeKey_iff, strict_deserializeKey_iff custom⟩

end Strict

namespace Plain

/-- The standard alphabet with padding. The reason of a refusal is not told apart. -/
instance base64 : Base64 where
  encode bytes := String.ofList (Radix64.encode bytes)
  decode s :=
    match Radix64.decode s.toList with
    | some bytes => .ok bytes
    | none => .error .invalidLength
  describe
    | .invalidByte offset byte => s!"Invalid byte {byte}, offset {offset}."
    | .invalidLength => "Encoded text cannot have a 6-bit remainder."
    | .invalidLastSymbol offset byte => s!"Invalid last symbol {byte}, offset {offset}."

/-- The decoder of the source is the standard one. -/
theorem base64_standard : Base64.Standard where
  decode_encode bytes := by
    simp only [Base64.decode, Base64.encode, String.toList_ofList, Radix64.decode_encode]

/-- A short string and two keys of sevens. -/
theorem key_decoding_strict_sevens :
    (Strict (Base64.decode "AAAA") (PublicKey.decodeBase64 "AAAA") ↔ SizedKey 32 "AAAA") ∧
      PublicKey.decodeBase64 (PublicKey.encodeBase64 (Vector.replicate 32 7)) =
        .ok (Vector.replicate 32 7) ∧
      SecretKey.decodeBase64 (SecretKey.encodeBase64 (Vector.replicate 64 7)) =
        .ok (Vector.replicate 64 7) := by
  obtain ⟨publicKeys, _, publicTrip, secretTrip⟩ := key_decoding_strict base64_standard id
  exact ⟨(publicKeys "AAAA").1, publicTrip _, secretTrip _⟩

/-- Three bytes are too few and the decoder panics. Of 33 bytes it drops the last. -/
theorem key_decoding_strict_fails :
    PublicKey.decodeBase64 "AAAA" =
        .panic "range end index 32 out of range for slice of length 3" ∧
      PublicKey.decodeBase64 "AAAAAAAAAAAAAAAAAAAAAAAAAAAAAAAAAAAAAAAAAAAA" =
        .ok (Vector.replicate 32 0) ∧
      SecretKey.decodeBase64 "AAAA" =
        .panic "range end index 64 out of range for slice of length 3" ∧
      (¬ ∀ s, Strict (Base64.decode s) (PublicKey.decodeBase64 s)) ∧
      ¬ ∀ s, Strict (Base64.decode s) (SecretKey.decodeBase64 s) := by
  have short : Base64.decode "AAAA" = .ok [0, 0, 0] := by rfl
  refine ⟨by rfl, by rfl, by rfl, fun strict => ?_, fun strict => ?_⟩
  · cases (strict "AAAA").sized _ short
  · cases (strict "AAAA").sized _ short

end Plain

end DeflHotstuff
