import Mathlib.Data.Nat.Bitwise
import Mos6502.Alu

/-!
# Bytes as numbers

The processor speaks of single bits of a byte, and its manual of numbers below 256. These are the
translations: each masked bit is a statement about the value of the byte.
-/

namespace Mos6502.Byte

/-- What holds of the 256 values holds of every byte. -/
theorem forall_of_values {P : UInt8 → Prop} (h : ∀ n : Fin 256, P (UInt8.ofNat n)) (v : UInt8) :
    P v := by
  simpa using h ⟨v.toNat, v.toNat_lt⟩

/-- The top bit is the sign. -/
theorem and_top (v : UInt8) : (v &&& 0x80 != 0) = decide (128 ≤ v.toNat) :=
  forall_of_values (P := fun v => (v &&& 0x80 != 0) = decide (128 ≤ v.toNat)) (by decide +kernel) v

/-- Masking one bit asks whether it is set. -/
theorem and_bit (k : Fin 8) (v : UInt8) :
    (v &&& 1 <<< UInt8.ofNat k != 0) = decide (v.toNat / 2 ^ k.val % 2 = 1) := by
  revert v
  exact forall_of_values (by revert k; decide +kernel)

theorem and_lowest (v : UInt8) : (v &&& 0x01 != 0) = decide (v.toNat % 2 = 1) :=
  (and_bit 0 v).trans (by rw [Fin.val_zero, Nat.pow_zero, Nat.div_one])

theorem and_top_ne_zero (v : UInt8) : v &&& 0x80 ≠ 0 ↔ 128 ≤ v.toNat := by
  rw [← bne_iff_ne, and_top, decide_eq_true_iff]

end Mos6502.Byte
