import Mathlib.Data.List.Basic

namespace Verification.Radix64

/-- The standard alphabet, in the order of the values. -/
def alphabet : List Char :=
  "ABCDEFGHIJKLMNOPQRSTUVWXYZabcdefghijklmnopqrstuvwxyz0123456789+/".toList

def pad : Char := '='

def symbol (value : Nat) : Char := alphabet.getD value pad

def value? (symbol : Char) : Option Nat := alphabet.findIdx? fun other => other = symbol

/-- Three bytes make four symbols. What is missing at the end is filled up with the pad. -/
def encode : List UInt8 → List Char
  | [] => []
  | [first] => [symbol (first.toNat / 4), symbol (first.toNat % 4 * 16), pad, pad]
  | [first, second] => [symbol (first.toNat / 4),
      symbol (first.toNat % 4 * 16 + second.toNat / 16), symbol (second.toNat % 16 * 4), pad]
  | first :: second :: third :: rest =>
      symbol (first.toNat / 4) :: symbol (first.toNat % 4 * 16 + second.toNat / 16) ::
        symbol (second.toNat % 16 * 4 + third.toNat / 64) :: symbol (third.toNat % 64) ::
          encode rest

/-- One byte in two symbols, the spare bits of which are zero. -/
def decodeOne (first second : Char) : Option (List UInt8) := do
  let high ← value? first
  let low ← value? second
  if low % 16 = 0 then some [UInt8.ofNat (high * 4 + low / 16)] else none

/-- Two bytes in three symbols, the spare bits of which are zero. -/
def decodeTwo (first second third : Char) : Option (List UInt8) := do
  let high ← value? first
  let middle ← value? second
  let low ← value? third
  if low % 4 = 0 then
    some [UInt8.ofNat (high * 4 + middle / 16), UInt8.ofNat (middle % 16 * 16 + low / 4)]
  else none

def decodeThree (first second third fourth : Char) : Option (List UInt8) := do
  let high ← value? first
  let upper ← value? second
  let lower ← value? third
  let low ← value? fourth
  some [UInt8.ofNat (high * 4 + upper / 16), UInt8.ofNat (upper % 16 * 16 + lower / 4),
    UInt8.ofNat (lower % 4 * 64 + low)]

/-- Only the last group may be padded. -/
def decode : List Char → Option (List UInt8)
  | [] => some []
  | first :: second :: third :: fourth :: rest =>
      if fourth = pad ∧ rest = [] then
        if third = pad then decodeOne first second else decodeTwo first second third
      else do
        let bytes ← decodeThree first second third fourth
        let others ← decode rest
        some (bytes ++ others)
  | _ => none

/-- The value of a symbol is read back. -/
theorem value?_symbol : ∀ value < 64, value? (symbol value) = some value := by
  decide +kernel

/-- No symbol is the padding. -/
theorem symbol_ne_pad : ∀ value < 64, symbol value ≠ pad := by
  decide +kernel

/-- The two symbols of one byte are read back. -/
theorem decodeOne_symbol (byte : UInt8) :
    decodeOne (symbol (byte.toNat / 4)) (symbol (byte.toNat % 4 * 16)) = some [byte] := by
  have range := byte.toNat_lt
  have joined : byte.toNat / 4 * 4 + byte.toNat % 4 * 16 / 16 = byte.toNat := by omega
  rw [decodeOne, value?_symbol _ (by omega), value?_symbol _ (by omega)]
  simp only [Option.bind_eq_bind, Option.bind_some, Nat.mul_mod_left, if_true, joined,
    UInt8.ofNat_toNat]

/-- The three symbols of two bytes are read back. -/
theorem decodeTwo_symbol (first second : UInt8) :
    decodeTwo (symbol (first.toNat / 4)) (symbol (first.toNat % 4 * 16 + second.toNat / 16))
      (symbol (second.toNat % 16 * 4)) = some [first, second] := by
  have range := first.toNat_lt
  have range' := second.toNat_lt
  have joined : first.toNat / 4 * 4 + (first.toNat % 4 * 16 + second.toNat / 16) / 16 =
      first.toNat := by omega
  have joined' : (first.toNat % 4 * 16 + second.toNat / 16) % 16 * 16 +
      second.toNat % 16 * 4 / 4 = second.toNat := by omega
  rw [decodeTwo, value?_symbol _ (by omega), value?_symbol _ (by omega),
    value?_symbol _ (by omega)]
  simp only [Option.bind_eq_bind, Option.bind_some, Nat.mul_mod_left, if_true, joined, joined',
    UInt8.ofNat_toNat]

/-- The four symbols of three bytes are read back. -/
theorem decodeThree_symbol (first second third : UInt8) :
    decodeThree (symbol (first.toNat / 4)) (symbol (first.toNat % 4 * 16 + second.toNat / 16))
      (symbol (second.toNat % 16 * 4 + third.toNat / 64)) (symbol (third.toNat % 64)) =
        some [first, second, third] := by
  have range := first.toNat_lt
  have range' := second.toNat_lt
  have range'' := third.toNat_lt
  have joined : first.toNat / 4 * 4 + (first.toNat % 4 * 16 + second.toNat / 16) / 16 =
      first.toNat := by omega
  have joined' : (first.toNat % 4 * 16 + second.toNat / 16) % 16 * 16 +
      (second.toNat % 16 * 4 + third.toNat / 64) / 4 = second.toNat := by omega
  have joined'' : (second.toNat % 16 * 4 + third.toNat / 64) % 4 * 64 + third.toNat % 64 =
      third.toNat := by omega
  rw [decodeThree, value?_symbol _ (by omega), value?_symbol _ (by omega),
    value?_symbol _ (by omega), value?_symbol _ (by omega)]
  simp only [Option.bind_eq_bind, Option.bind_some, joined, joined', joined'',
    UInt8.ofNat_toNat]

/-- Every list of bytes survives its encoding. -/
theorem decode_encode (bytes : List UInt8) : decode (encode bytes) = some bytes := by
  induction bytes using encode.induct with
  | case1 => rfl
  | case2 first =>
      rw [encode, decode, if_pos ⟨rfl, rfl⟩, if_pos rfl, decodeOne_symbol]
  | case3 first second =>
      have range := second.toNat_lt
      rw [encode, decode, if_pos ⟨rfl, rfl⟩, if_neg (symbol_ne_pad _ (by omega)),
        decodeTwo_symbol]
  | case4 first second third rest ih =>
      have notPad := symbol_ne_pad (third.toNat % 64) (by omega)
      rw [encode, decode, if_neg fun padded => notPad padded.1, decodeThree_symbol, ih]
      rfl

end Verification.Radix64
