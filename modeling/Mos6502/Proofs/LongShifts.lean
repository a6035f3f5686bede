import Mos6502.Instruction.Basic
import Mos6502.Proofs.LongArithmetic

/-!
# Shifts and rotations of long numbers

A program shifts a long number by one bit byte by byte, and the carry takes the bit that leaves one
byte into the next. To the left it begins at the lowest byte, to the right at the highest. No bit is
lost on the way: number and carry together are rotated (`number_upwards`, `number_downwards`). What
the passes do to the number, which bit they leave in the carry, and that rotating to one side undoes
rotating to the other, is read off these two equations (`passes_shift_and_rotate`).
-/

namespace Mos6502

open LittleEndian Status

namespace ModifyOp

/-! ## Passes -/

/-- Apply `first` to the lowest byte of a number and `rest` to the others, from there upwards. Each
application leaves its status to the next one. -/
def upwards (first rest : ModifyOp) : List UInt8 → Status → List UInt8 × Status
  | [], s => ([], s)
  | v :: vs, s =>
    let (w, next) := first.apply v s
    let (ws, last) := upwards rest rest vs next
    (w :: ws, last)

/-- Apply `first` to the highest byte of a number and `rest` to the others, from there downwards. -/
def downwards (first rest : ModifyOp) : List UInt8 → Status → List UInt8 × Status
  | [], s => ([], s)
  | [v], s =>
    let (w, last) := first.apply v s
    ([w], last)
  | v :: higher :: vs, s =>
    let (ws, next) := downwards first rest (higher :: vs) s
    let (w, last) := rest.apply v next
    (w :: ws, last)

variable {vs : List UInt8}

theorem length_upwards (first rest : ModifyOp) (vs : List UInt8) (s : Status) :
    (upwards first rest vs s).1.length = vs.length := by
  induction vs generalizing first s with
  | nil => rfl
  | cons v vs ih => exact congrArg (· + 1) (ih rest _)

theorem length_downwards (first rest : ModifyOp) (vs : List UInt8) (s : Status) :
    (downwards first rest vs s).1.length = vs.length := by
  induction vs with
  | nil => rfl
  | cons v vs ih =>
    cases vs with
    | nil => rfl
    | cons higher vs => exact congrArg (· + 1) ih

/-! ## A shift is a rotation of a cleared carry -/

/-- A shift is a rotation with the carry cleared before. -/
theorem apply_asl (v : UInt8) (s : Status) :
    asl.apply v s = rol.apply v { s with carry := false } := by
  simp [apply, Alu.shiftLeft, Alu.rotateLeft, Alu.bitValue]

theorem apply_lsr (v : UInt8) (s : Status) :
    lsr.apply v s = ror.apply v { s with carry := false } := by
  simp [apply, Alu.shiftRight, Alu.rotateRight, Alu.bitValue]

/-- A pass that starts with a shift is one of rotations alone. -/
theorem upwards_asl (h : vs ≠ []) (s : Status) :
    upwards asl rol vs s = upwards rol rol vs { s with carry := false } := by
  obtain ⟨v, vs, rfl⟩ := List.exists_cons_of_ne_nil h
  rw [upwards, upwards, apply_asl]

theorem downwards_lsr (h : vs ≠ []) (s : Status) :
    downwards lsr ror vs s = downwards ror ror vs { s with carry := false } := by
  induction vs with
  | nil => exact absurd rfl h
  | cons v vs ih =>
    cases vs with
    | nil => rw [downwards, downwards, apply_lsr]
    | cons higher vs => rw [downwards, downwards, ih (List.cons_ne_nil higher vs)]

/-! ## Nothing is lost -/

/-- A byte and the carry, rotated to the left. -/
theorem rol_exact (v : UInt8) (s : Status) :
    (rol.apply v s).1.toNat + 256 * (rol.apply v s).2.carry.toNat =
      2 * v.toNat + s.carry.toNat := by
  have hv := v.toNat_lt
  have hcarry : (rol.apply v s).2.carry = decide (128 ≤ v.toNat) := Byte.and_top v
  have hbyte : (rol.apply v s).1.toNat = 2 * v.toNat % 256 + s.carry.toNat :=
    Alu.toNat_rotateLeft v s
  rw [hcarry, hbyte]
  by_cases htop : 128 ≤ v.toNat <;> simp only [htop, decide_true, decide_false, Bool.toNat_true,
    Bool.toNat_false] <;> omega

/-- A byte and the carry, rotated to the right. -/
theorem ror_exact (v : UInt8) (s : Status) :
    2 * (ror.apply v s).1.toNat + (ror.apply v s).2.carry.toNat =
      v.toNat + 256 * s.carry.toNat := by
  have hcarry : (ror.apply v s).2.carry = decide (v.toNat % 2 = 1) := Byte.and_lowest v
  have hbyte : (ror.apply v s).1.toNat = v.toNat / 2 + 128 * s.carry.toNat :=
    Alu.toNat_rotateRight v s
  rw [hcarry, hbyte]
  by_cases hodd : v.toNat % 2 = 1 <;> simp only [hodd, decide_true, decide_false, Bool.toNat_true,
    Bool.toNat_false] <;> omega

/-- A long number and the carry, rotated to the left. -/
theorem number_upwards (vs : List UInt8) (s : Status) :
    number (upwards rol rol vs s).1 + 256 ^ vs.length * (upwards rol rol vs s).2.carry.toNat =
      2 * number vs + s.carry.toNat := by
  induction vs generalizing s with
  | nil => exact congrArg (0 + ·) (Nat.one_mul _)
  | cons v vs ih =>
    have hlow := rol_exact v s
    have hhigh := ih (rol.apply v s).2
    simp only [upwards, number_cons, List.length_cons, Nat.pow_succ']
    rw [Nat.mul_assoc]
    omega

/-- A long number and the carry, rotated to the right. -/
theorem number_downwards (vs : List UInt8) (s : Status) :
    2 * number (downwards ror ror vs s).1 + (downwards ror ror vs s).2.carry.toNat =
      number vs + 256 ^ vs.length * s.carry.toNat := by
  induction vs with
  | nil => exact congrArg (0 + ·) (Nat.one_mul _).symm
  | cons v vs ih =>
    cases vs with
    | nil =>
      have hbyte := ror_exact v s
      simp only [downwards, number_cons, List.length_cons, Nat.pow_succ']
      change 2 * (_ + 256 * 0) + _ = _ + 256 * 0 + 256 * 1 * _
      omega
    | cons higher vs =>
      have hlow := ror_exact v (downwards ror ror (higher :: vs) s).2
      rw [List.length_cons, Nat.pow_succ', Nat.mul_assoc, number_cons v, downwards]
      simp only [number_cons (ror.apply v _).1]
      omega

/-! ## What the status has to do with it -/

/-- The status behind a pass: beside the carry only zero and sign have changed, and these describe
the byte that was processed last. -/
structure Describes (w : UInt8) (s t : Status) : Prop where
  zero : t.zero = true ↔ w = 0
  negative : t.negative = true ↔ 128 ≤ w.toNat
  overflow : t.overflow = s.overflow
  modes : SameModes s t

theorem Describes.of_carry {w : UInt8} {s t : Status} {c : Bool}
    (h : Describes w { s with carry := c } t) : Describes w s t :=
  ⟨h.zero, h.negative, h.overflow, ⟨h.modes.1, h.modes.2, h.modes.3, h.modes.4⟩⟩

/-- Only the last result is described. -/
theorem Describes.trans {v w : UInt8} {s t u : Status} (h : Describes v s t)
    (k : Describes w t u) : Describes w s u :=
  ⟨k.zero, k.negative, k.overflow.trans h.overflow, IsTrans.trans _ _ _ h.modes k.modes⟩

theorem describes_rol (v : UInt8) (s : Status) :
    Describes (rol.apply v s).1 s (rol.apply v s).2 where
  zero := beq_iff_eq
  negative := bne_iff_ne.trans (Byte.and_top_ne_zero _)
  overflow := rfl
  modes := ⟨rfl, rfl, rfl, rfl⟩

theorem describes_ror (v : UInt8) (s : Status) :
    Describes (ror.apply v s).1 s (ror.apply v s).2 where
  zero := beq_iff_eq
  negative := bne_iff_ne.trans (Byte.and_top_ne_zero _)
  overflow := rfl
  modes := ⟨rfl, rfl, rfl, rfl⟩

/-- Behind a pass upwards the flags describe the highest byte. -/
theorem describes_upwards (h : vs ≠ []) (s : Status) :
    ∃ w, (upwards rol rol vs s).1.getLast? = some w ∧ Describes w s (upwards rol rol vs s).2 := by
  induction vs generalizing s with
  | nil => exact absurd rfl h
  | cons v vs ih =>
    cases vs with
    | nil => exact ⟨_, rfl, describes_rol v s⟩
    | cons higher vs =>
      obtain ⟨w, hlast, hdescribes⟩ := ih (List.cons_ne_nil higher vs) (rol.apply v s).2
      exact ⟨w, (List.getLast?_cons_cons ..).trans hlast, (describes_rol v s).trans hdescribes⟩

/-- Behind a pass downwards they describe the lowest byte. -/
theorem describes_downwards (h : vs ≠ []) (s : Status) :
    ∃ w, (downwards ror ror vs s).1.head? = some w ∧
      Describes w s (downwards ror ror vs s).2 := by
  induction vs with
  | nil => exact absurd rfl h
  | cons v vs ih =>
    cases vs with
    | nil => exact ⟨_, rfl, describes_ror v s⟩
    | cons higher vs =>
      obtain ⟨w, -, hdescribes⟩ := ih (List.cons_ne_nil higher vs)
      exact ⟨_, rfl, hdescribes.trans (describes_ror v _)⟩

/-! ## Shifts and rotations of long numbers -/

/-- The bytes and the flags are those of a long number that is shifted to the left, with a bit that
comes in at the bottom. -/
structure IsShiftedLeft (vs : List UInt8) (bit : Bool) (s : Status) (result : List UInt8 × Status) :
    Prop where
  length : result.1.length = vs.length
  bytes : number result.1 = (2 * number vs + bit.toNat) % 256 ^ vs.length
  carry : result.2.carry = (number vs).testBit (8 * vs.length - 1)
  flags : ∃ w, result.1.getLast? = some w ∧ Describes w s result.2

/-- The bytes and the flags are those of a long number that is shifted to the right, with a bit that
comes in at the top. -/
structure IsShiftedRight (vs : List UInt8) (bit : Bool) (s : Status)
    (result : List UInt8 × Status) : Prop where
  length : result.1.length = vs.length
  bytes : number result.1 = number vs / 2 + bit.toNat * 2 ^ (8 * vs.length - 1)
  carry : result.2.carry = (number vs).testBit 0
  flags : ∃ w, result.1.head? = some w ∧ Describes w s result.2

/-- The highest bit is worth half of what the number of bytes can tell apart. -/
theorem pow_eq_two_mul {n : Nat} (hn : n ≠ 0) : 256 ^ n = 2 * 2 ^ (8 * n - 1) := by
  rw [← Nat.pow_succ', Nat.succ_eq_add_one, Nat.sub_add_cancel (by omega), Nat.pow_mul]

/-- A pass of rotations upwards is a shift to the left of the long number. -/
theorem isShiftedLeft_upwards (h : vs ≠ []) (s : Status) :
    IsShiftedLeft vs s.carry s (upwards rol rol vs s) := by
  have hexact := number_upwards vs s
  have hlt := number_lt (upwards rol rol vs s).1
  have hpow := pow_eq_two_mul (List.length_pos_iff.mpr h).ne'
  have hcarry := s.carry.toNat_le
  rw [length_upwards] at hlt
  exact {
    length := length_upwards rol rol vs s
    bytes := by rw [← hexact, Nat.add_mul_mod_self_left, Nat.mod_eq_of_lt hlt]
    carry := by
      -- The carry that comes in is below the place that decides.
      rw [testBit_top h, Bool.eq_iff_iff, decide_eq_true_iff, signedNumber]
      have hcast : ((256 ^ vs.length : Nat) : Int) = 256 ^ vs.length := by push_cast; rfl
      have hnumber := number_lt vs
      rw [← hcast]
      rcases Bool.eq_false_or_eq_true (upwards rol rol vs s).2.carry with hout | hout <;>
        simp only [hout, Bool.toNat_false, Bool.toNat_true] at hexact <;> split <;> simp [hout] <;>
        omega
    flags := describes_upwards h s }

/-- A pass of rotations downwards is a shift to the right of the long number. -/
theorem isShiftedRight_downwards (h : vs ≠ []) (s : Status) :
    IsShiftedRight vs s.carry s (downwards ror ror vs s) := by
  have hexact := number_downwards vs s
  have hpow := pow_eq_two_mul (List.length_pos_iff.mpr h).ne'
  have hcarry := (downwards ror ror vs s).2.carry.toNat_le
  rw [hpow, Nat.mul_assoc, Nat.mul_comm _ s.carry.toNat] at hexact
  exact {
    length := length_downwards ror ror vs s
    bytes := by omega
    carry := by
      rw [Nat.testBit_zero]
      rcases Bool.eq_false_or_eq_true (downwards ror ror vs s).2.carry with hout | hout <;>
        rw [hout] at hexact ⊢ <;> simp at hexact ⊢ <;> omega
    flags := describes_downwards h s }

/-- The carry is worth more than all bytes together. -/
theorem eq_of_add_mul_toNat {p m n : Nat} {b c : Bool} (hm : m < p) (hn : n < p)
    (h : m + p * b.toNat = n + p * c.toNat) : m = n ∧ b = c := by
  cases b <;> cases c <;> simp at h ⊢ <;> omega

/-- What is rotated to the left and then to the right is as it was. -/
theorem downwards_upwards {s t : Status} (ht : t.carry = (upwards rol rol vs s).2.carry) :
    (downwards ror ror (upwards rol rol vs s).1 t).1 = vs ∧
      (downwards ror ror (upwards rol rol vs s).1 t).2.carry = s.carry := by
  have hup := number_upwards vs s
  have hdown := number_downwards (upwards rol rol vs s).1 t
  rw [length_upwards, ht, hup] at hdown
  have hcarry := s.carry.toNat_le
  have hcarry' := (downwards ror ror (upwards rol rol vs s).1 t).2.carry.toNat_le
  have hback : (downwards ror ror (upwards rol rol vs s).1 t).2.carry.toNat = s.carry.toNat := by
    omega
  refine ⟨number_injective ?_ (by omega), Bool.eq_iff_iff.mpr ?_⟩
  · rw [length_downwards, length_upwards]
  · rw [← Bool.toNat_eq_one, ← Bool.toNat_eq_one, hback]

/-- And the other way round. -/
theorem upwards_downwards {s t : Status} (ht : t.carry = (downwards ror ror vs s).2.carry) :
    (upwards rol rol (downwards ror ror vs s).1 t).1 = vs ∧
      (upwards rol rol (downwards ror ror vs s).1 t).2.carry = s.carry := by
  have hdown := number_downwards vs s
  have hup := number_upwards (downwards ror ror vs s).1 t
  have hlength : (upwards rol rol (downwards ror ror vs s).1 t).1.length = vs.length := by
    rw [length_upwards, length_downwards]
  have hlt := number_lt (upwards rol rol (downwards ror ror vs s).1 t).1
  have hlt' := number_lt vs
  rw [length_downwards, ht, hdown] at hup
  rw [hlength] at hlt
  obtain ⟨hnumber, hcarry⟩ := eq_of_add_mul_toNat hlt hlt' hup
  exact ⟨number_injective hlength hnumber, hcarry⟩

/-- A long number is doubled by shifting its lowest byte and rotating the others upwards, and halved
by shifting its highest byte and rotating the others downwards. Rotations throughout also take the
carry in, at the bottom or at the top, and the two directions undo each other. The bit that drops
out of the number is left in the carry; the other flags describe the byte processed last or are as
they were. -/
theorem passes_shift_and_rotate (h : vs ≠ []) (s : Status) :
    IsShiftedLeft vs false s (upwards asl rol vs s) ∧
    IsShiftedRight vs false s (downwards lsr ror vs s) ∧
    IsShiftedLeft vs s.carry s (upwards rol rol vs s) ∧
    IsShiftedRight vs s.carry s (downwards ror ror vs s) ∧
    (∀ t : Status, t.carry = (upwards rol rol vs s).2.carry →
      (downwards ror ror (upwards rol rol vs s).1 t).1 = vs ∧
        (downwards ror ror (upwards rol rol vs s).1 t).2.carry = s.carry) ∧
    ∀ t : Status, t.carry = (downwards ror ror vs s).2.carry →
      (upwards rol rol (downwards ror ror vs s).1 t).1 = vs ∧
        (upwards rol rol (downwards ror ror vs s).1 t).2.carry = s.carry := by
  refine ⟨?_, ?_, isShiftedLeft_upwards h s, isShiftedRight_downwards h s,
    fun t => downwards_upwards, fun t => upwards_downwards⟩
  · rw [upwards_asl h]
    obtain ⟨hlength, hbytes, hcarry, w, hlast, hflags⟩ :=
      isShiftedLeft_upwards h { s with carry := false }
    exact ⟨hlength, hbytes, hcarry, w, hlast, hflags.of_carry⟩
  · rw [downwards_lsr h]
    obtain ⟨hlength, hbytes, hcarry, w, hfirst, hflags⟩ :=
      isShiftedRight_downwards h { s with carry := false }
    exact ⟨hlength, hbytes, hcarry, w, hfirst, hflags.of_carry⟩

/-- `$8180` rotated to the left over a set carry loses its top bit into the carry. Rotated to the
right it comes back, whatever happened to the other flags in between. -/
theorem passes_rotate_and_undo :
    let vs : List UInt8 := [0x80, 0x81]
    let s : Status := { carry := true, overflow := true }
    let t : Status := { carry := true, zero := true }
    let up := upwards rol rol vs s
    vs ≠ [] ∧ up = ([0x01, 0x03], s) ∧ IsShiftedLeft vs true s up ∧
      t.carry = up.2.carry ∧ (downwards ror ror up.1 t).1 = vs := by
  intro vs s t up
  have hnonempty : vs ≠ [] := by decide
  have hpasses := passes_shift_and_rotate hnonempty s
  have hcarry : t.carry = up.2.carry := by decide
  exact ⟨hnonempty, by decide, hpasses.2.2.1, hcarry, (hpasses.2.2.2.2.1 t hcarry).1⟩

end ModifyOp

end Mos6502
