import Mathlib.Algebra.Order.Group.Nat
import Mathlib.Data.List.Basic

namespace Verification

/-- The bytes of a number, the least significant first, as many as the width allows. -/
def littleEndian : Nat → Nat → List UInt8
  | 0, _ => []
  | width + 1, value => UInt8.ofNat value :: littleEndian width (value / 256)

@[simp] theorem length_littleEndian (width value : Nat) :
    (littleEndian width value).length = width := by
  induction width generalizing value with
  | zero => rfl
  | succ width ih => simp [littleEndian, ih]

/-- Numbers that fit in the width have different bytes. -/
theorem littleEndian_inj {width first second : Nat} (fits : first < 256 ^ width)
    (fits' : second < 256 ^ width) :
    littleEndian width first = littleEndian width second ↔ first = second := by
  constructor
  · intro same
    induction width generalizing first second with
    | zero => omega
    | succ width ih =>
      obtain ⟨low, high⟩ := List.cons.inj same
      have sameLow := congrArg UInt8.toNat low
      rw [UInt8.toNat_ofNat', UInt8.toNat_ofNat'] at sameLow
      have sameHigh := ih (by omega) (by omega) high
      omega
  · rintro rfl
    rfl

section FixedWidth

variable {Item Symbol : Type} {spell : Item → List Symbol} {width : Nat}

/-- Spellings of one width add up. -/
theorem length_flatMap_width (fixed : ∀ item, (spell item).length = width) (items : List Item) :
    (items.flatMap spell).length = items.length * width := by
  induction items with
  | nil => simp
  | cons item items ih =>
    rw [List.flatMap_cons, List.length_append, fixed, ih, List.length_cons, Nat.succ_mul,
      Nat.add_comm]

/-- A sequence of items of one width needs no separators. -/
theorem flatMap_width_inj (fixed : ∀ item, (spell item).length = width) (positive : 0 < width)
    (injective : Function.Injective spell) {items others : List Item} :
    items.flatMap spell = others.flatMap spell ↔ items = others := by
  constructor
  · intro same
    induction items generalizing others with
    | nil =>
      have size := congrArg List.length same
      rw [length_flatMap_width fixed, length_flatMap_width fixed, List.length_nil,
        Nat.zero_mul] at size
      have none := (Nat.mul_eq_zero.mp size.symm).resolve_right positive.ne'
      exact (List.length_eq_zero_iff.mp none).symm
    | cons item items ih =>
      cases others with
      | nil =>
        have size := congrArg List.length same
        rw [length_flatMap_width fixed, length_flatMap_width fixed, List.length_nil,
          Nat.zero_mul] at size
        have none := (Nat.mul_eq_zero.mp size).resolve_right positive.ne'
        cases none
      | cons other others =>
        obtain ⟨head, tail⟩ := List.append_inj same (by rw [fixed, fixed])
        rw [injective head, ih tail]
  · rintro rfl
    rfl

end FixedWidth

end Verification
