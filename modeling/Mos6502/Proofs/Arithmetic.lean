import Mos6502.Microcode.Basic
import Mos6502.Proofs.Byte
import Mos6502.Proofs.Reference

/-!
# The arithmetic unit in numbers

What the operations on bytes and flags do to the numbers that the bytes stand for: sums and
differences are those of the integers, wrapped, the carry says whether they had to be wrapped, and
the overflow flag whether the signed result fits into a byte.
-/

namespace Mos6502.Alu

open Reference (signed Fits)

/-! ## Zero and sign -/

theorem beq_zero (v : UInt8) : (v == 0) = decide (v.toNat = 0) := by
  rw [Bool.eq_iff_iff, beq_iff_eq, decide_eq_true_iff, ← UInt8.toNat_inj]
  rfl

theorem zero_of_toNat {v : UInt8} {n : Nat} (h : v.toNat = n) : (v == 0) = decide (n = 0) :=
  h ▸ beq_zero v

theorem negative_of_toNat {v : UInt8} {n : Nat} (h : v.toNat = n) :
    (v &&& 0x80 != 0) = decide (128 ≤ n) :=
  h ▸ Byte.and_top v

/-! ## Addition and subtraction -/

/-- Two bytes of one sign have a sum of the other. -/
theorem overflow_bits (a b w : UInt8) :
    ((a ^^^ w) &&& (b ^^^ w) &&& 0x80 != 0) =
      decide ((128 ≤ a.toNat ↔ ¬ 128 ≤ w.toNat) ∧ (128 ≤ b.toNat ↔ ¬ 128 ≤ w.toNat)) := by
  have top : ∀ v : UInt8, v.toNat.testBit 7 = decide (128 ≤ v.toNat) :=
    Byte.forall_of_values (by decide +kernel)
  rw [Byte.and_top, ← top, UInt8.toNat_and, UInt8.toNat_xor, UInt8.toNat_xor, Nat.testBit_and,
    Nat.testBit_xor, Nat.testBit_xor, top, top, top]
  by_cases ha : 128 ≤ a.toNat <;> by_cases hb : 128 ≤ b.toNat <;> by_cases hw : 128 ≤ w.toNat <;>
    simp [ha, hb, hw]

theorem toNat_add (a b : UInt8) (s : Status) :
    (add a b s).1.toNat = (a.toNat + b.toNat + s.carry.toNat) % 256 :=
  UInt8.toNat_ofNat' ..

/-- The carry says that the sum does not fit into a byte. -/
theorem carry_add (a b : UInt8) (s : Status) :
    (add a b s).2.carry = decide (256 ≤ a.toNat + b.toNat + s.carry.toNat) := rfl

/-- The overflow flag says that the signed sum does not fit into a signed byte. -/
theorem overflow_add (a b : UInt8) (s : Status) :
    (add a b s).2.overflow =
      decide (¬ Fits (signed a.toNat + signed b.toNat + s.carry.toNat)) := by
  change ((a ^^^ (add a b s).1) &&& (b ^^^ (add a b s).1) &&& 0x80 != 0) = _
  rw [overflow_bits, toNat_add, decide_eq_decide, Fits, signed, signed]
  have ha := a.toNat_lt
  have hb := b.toNat_lt
  have hc := s.carry.toNat_le
  split <;> split <;> omega

/-- Subtracting is adding the complement. -/
theorem toNat_complement (b : UInt8) : (b ^^^ 0xFF).toNat = 255 - b.toNat :=
  Byte.forall_of_values (P := fun b => (b ^^^ 0xFF).toNat = 255 - b.toNat) (by decide +kernel) b

/-- A clear carry is a borrow. -/
theorem toNat_subtract (a b : UInt8) (s : Status) :
    (subtract a b s).1.toNat = (((a.toNat : Int) - b.toNat - (1 - s.carry.toNat)) % 256).toNat := by
  rw [subtract, toNat_add, toNat_complement]
  have hb := b.toNat_lt
  omega

/-- The carry stays set if nothing is borrowed. -/
theorem carry_subtract (a b : UInt8) (s : Status) :
    (subtract a b s).2.carry =
      decide ((0 : Int) ≤ (a.toNat : Int) - b.toNat - (1 - s.carry.toNat)) := by
  rw [subtract, carry_add, toNat_complement, decide_eq_decide]
  have hb := b.toNat_lt
  omega

/-- The overflow flag says that the signed difference does not fit into a signed byte. -/
theorem overflow_subtract (a b : UInt8) (s : Status) :
    (subtract a b s).2.overflow =
      decide (¬ Fits (signed a.toNat - signed b.toNat - (1 - s.carry.toNat))) := by
  rw [subtract, overflow_add, toNat_complement, decide_eq_decide, Fits, Fits, signed, signed,
    signed]
  have hb := b.toNat_lt
  split <;> split <;> split <;> omega

/-! ## Comparison -/

/-- A comparison is a subtraction without a borrow, whose difference is not kept. -/
theorem toNat_compare (a b : UInt8) (s : Status) :
    (add a (b ^^^ 0xFF) { s with carry := true }).1.toNat =
      (((a.toNat : Int) - b.toNat) % 256).toNat := by
  rw [toNat_add, toNat_complement, Bool.toNat_true]
  have hb := b.toNat_lt
  omega

/-- The carry of a comparison says that the register is not less. -/
theorem carry_compare (a b : UInt8) (s : Status) :
    (compare a b s).carry = decide (b.toNat ≤ a.toNat) := by
  change decide (255 < a.toNat + (b ^^^ 0xFF).toNat + 1) = _
  rw [toNat_complement, decide_eq_decide]
  have hb := b.toNat_lt
  omega

/-! ## Shifts, rotations, increments -/

theorem toNat_shiftLeft (v : UInt8) (s : Status) :
    (shiftLeft v s).1.toNat = 2 * v.toNat % 256 :=
  Byte.forall_of_values (P := fun v => (v <<< 1).toNat = 2 * v.toNat % 256) (by decide +kernel) v

theorem toNat_shiftRight (v : UInt8) (s : Status) : (shiftRight v s).1.toNat = v.toNat / 2 :=
  Byte.forall_of_values (P := fun v => (v >>> 1).toNat = v.toNat / 2) (by decide +kernel) v

/-- The carry comes in at the lowest bit. -/
theorem toNat_rotateLeft (v : UInt8) (s : Status) :
    (rotateLeft v s).1.toNat = 2 * v.toNat % 256 + s.carry.toNat := by
  have all : ∀ carry : Bool, ∀ v : UInt8,
      ((v <<< 1) ||| bitValue carry).toNat = 2 * v.toNat % 256 + carry.toNat := by
    intro carry
    exact Byte.forall_of_values (by cases carry <;> decide +kernel)
  exact all s.carry v

theorem toNat_rotateRight (v : UInt8) (s : Status) :
    (rotateRight v s).1.toNat = v.toNat / 2 + 128 * s.carry.toNat := by
  have all : ∀ carry : Bool, ∀ v : UInt8,
      ((v >>> 1) ||| (bitValue carry <<< 7)).toNat = v.toNat / 2 + 128 * carry.toNat := by
    intro carry
    exact Byte.forall_of_values (by cases carry <;> decide +kernel)
  exact all s.carry v

theorem toNat_add_one (v : UInt8) : (v + 1).toNat = (v.toNat + 1) % 256 := UInt8.toNat_add v 1

theorem toNat_sub_one (v : UInt8) : (v - 1).toNat = (v.toNat + 255) % 256 := by
  rw [UInt8.toNat_sub]
  have hv := v.toNat_lt
  change (2 ^ 8 - 1 + v.toNat) % 2 ^ 8 = _
  omega

end Mos6502.Alu

namespace Mos6502.Status

/-! ## Status bytes -/

/-- The flags of a pulled status are the bits of the byte. -/
theorem ofPulled_eq (v : UInt8) :
    ofPulled v = {
      carry := v.toNat % 2 = 1
      zero := v.toNat / 2 % 2 = 1
      irqDisable := v.toNat / 4 % 2 = 1
      decimal := v.toNat / 8 % 2 = 1
      overflow := v.toNat / 64 % 2 = 1
      negative := v.toNat / 128 % 2 = 1 } := by
  revert v
  exact Byte.forall_of_values (by decide +kernel)

/-- A pushed status is the sum of the values of its flags. -/
theorem toNat_pushedBySoftware (s : Status) :
    s.pushedBySoftware.toNat = s.carry.toNat + 2 * s.zero.toNat + 4 * s.irqDisable.toNat +
      8 * s.decimal.toNat + 16 + 32 + 64 * s.overflow.toNat + 128 * s.negative.toNat := by
  have all : ∀ c z i d v n : Bool,
      (pushedBySoftware ⟨c, z, i, d, true, true, v, n⟩).toNat = c.toNat + 2 * z.toNat +
        4 * i.toNat + 8 * d.toNat + 16 + 32 + 64 * v.toNat + 128 * n.toNat := by
    decide +kernel
  exact all s.carry s.zero s.irqDisable s.decimal s.overflow s.negative

end Mos6502.Status

namespace Mos6502.Microcode

/-! ## Words -/

theorem toNat_word (low high : UInt8) : (word low high).toNat = low.toNat + 256 * high.toNat := by
  have hlow := low.toNat_lt
  have hhigh := high.toNat_lt
  rw [word, UInt16.toNat_or, UInt16.toNat_shiftLeft, UInt8.toNat_toUInt16, UInt8.toNat_toUInt16]
  change low.toNat ||| high.toNat <<< 8 % 2 ^ 16 = _
  rw [Nat.mod_eq_of_lt (by rw [Nat.shiftLeft_eq]; omega), Nat.or_comm,
    ← Nat.shiftLeft_add_eq_or_of_lt hlow, Nat.shiftLeft_eq]
  omega

end Mos6502.Microcode
