import Mos6502.Proofs.Arithmetic
import Mos6502.Proofs.Microcode

/-!
# Operands in flat memory

Registers and flat memory as a state of the reference processor, and the addressing modes: resolving
an operand on a flat board never fails and gives the documented address.
-/

namespace Mos6502

open Reference (signed)

def Flat.cells (b : Flat) (n : Nat) : Nat :=
  if h : n < flatSize then (b.memory.get ⟨n, h⟩).toNat else 0

/-- Registers and flat memory as the reference processor has them. -/
def view (r : Registers) (b : Flat) : Reference.State where
  a := r.a.toNat
  x := r.x.toNat
  y := r.y.toNat
  sp := r.sp.toNat
  pc := r.pc.toNat
  carry := r.status.carry
  zero := r.status.zero
  irqDisable := r.status.irqDisable
  decimal := r.status.decimal
  breakBit := r.status.breakBit
  unused := r.status.unused
  overflow := r.status.overflow
  negative := r.status.negative
  memory := b.cells

namespace Flat

theorem cells_toNat (b : Flat) (address : UInt16) :
    b.cells address.toNat = (b.read address).toNat :=
  dif_pos address.toNat_lt

/-- A write changes one cell. -/
theorem cells_write (b : Flat) (address : UInt16) (v : UInt8) :
    (b.write address v).cells = Function.update b.cells address.toNat v.toNat := by
  funext n
  by_cases hn : n < flatSize
  · rw [Function.update_apply, cells, cells, dif_pos hn, dif_pos hn]
    change ((b.memory.set address.toNat v address.toNat_lt)[n]).toNat = _
    rw [Vector.getElem_set]
    split
    next heq => rw [if_pos heq.symm]
    next hne => rw [if_neg (Ne.symm hne)]; rfl
  · have hne : n ≠ address.toNat := fun heq => hn (heq ▸ address.toNat_lt)
    rw [Function.update_of_ne hne, cells, cells, dif_neg hn, dif_neg hn]

end Flat

/-! ## Reading -/

/-- Reading at an address is reading the cell of its number. -/
theorem toNat_read {address : UInt16} {n : Nat} (h : address.toNat = n % 65536) (r : Registers)
    (b : Flat) : (b.read address).toNat = (view r b).byte n := by
  rw [← Flat.cells_toNat, h]
  rfl

theorem toNat_succ {address : UInt16} {n : Nat} (h : address.toNat = n % 65536) :
    (address + 1).toNat = (n + 1) % 65536 := by
  rw [UInt16.toNat_add, h]
  change (n % 65536 + 1) % 65536 = _
  omega

def Flat.word (b : Flat) (address : UInt16) : UInt16 :=
  Microcode.word (b.read address) (b.read (address + 1))

/-- A word that wraps at the top of memory is one whose second cell is found modulo the size of
memory. -/
theorem toNat_flatWord {address : UInt16} {n : Nat} (h : address.toNat = n % 65536) (r : Registers)
    (b : Flat) : (b.word address).toNat = (view r b).word n := by
  rw [Flat.word, Microcode.toNat_word, toNat_read h r, toNat_read (toNat_succ h) r]
  rfl

theorem toNat_mod (address : UInt16) : address.toNat = address.toNat % 65536 :=
  (Nat.mod_eq_of_lt address.toNat_lt).symm

theorem toNat_toUInt16_mod (v : UInt8) : v.toUInt16.toNat = v.toNat % 65536 := by
  have hv := v.toNat_lt
  rw [UInt8.toNat_toUInt16]
  omega

/-! ## Addressing modes -/

/-- A signed byte as a word has its value, wrapped. -/
theorem toNat_signExtend (v : UInt8) :
    (Alu.signExtend v).toNat = (signed v.toNat % 65536).toNat := by
  revert v
  exact Byte.forall_of_values (by decide +kernel)

theorem toNat_branchTarget (pc : UInt16) (v : UInt8) :
    (Alu.branchTarget pc v).toNat = ((pc.toNat + 2 + signed v.toNat) % 65536).toNat := by
  rw [Alu.branchTarget, UInt16.toNat_add, UInt16.toNat_add, toNat_signExtend]
  change ((pc.toNat + 2) % 65536 + _) % 65536 = _
  omega

def Flat.resolve (b : Flat) (r : Registers) : AddressingMode → UInt16
  | .implied | .accumulator => r.pc
  | .immediate => r.pc + 1
  | .relative => Alu.branchTarget r.pc (b.read (r.pc + 1))
  | .zeroPage => (b.read (r.pc + 1)).toUInt16
  | .zeroPageX => (b.read (r.pc + 1) + r.x).toUInt16
  | .zeroPageY => (b.read (r.pc + 1) + r.y).toUInt16
  | .absolute => b.word (r.pc + 1)
  | .absoluteX => b.word (r.pc + 1) + r.x.toUInt16
  | .absoluteY => b.word (r.pc + 1) + r.y.toUInt16
  | .indirect => b.word (b.word (r.pc + 1))
  | .indexedIndirect => b.word (b.read (r.pc + 1) + r.x).toUInt16
  | .indirectIndexed => b.word (b.read (r.pc + 1)).toUInt16 + r.y.toUInt16

theorem execute_readByte_flat (address : UInt16) (r : Registers) (b : Flat) :
    (Microcode.readByte address).execute ⟨r, .flat b⟩ = .ok (b.read address) ⟨r, .flat b⟩ :=
  Microcode.execute_readByte_ok rfl

theorem execute_readWord_flat (address : UInt16) (r : Registers) (b : Flat) :
    (Microcode.readWord address).execute ⟨r, .flat b⟩ = .ok (b.word address) ⟨r, .flat b⟩ :=
  Microcode.execute_readWord_ok rfl rfl

/-- On flat memory every mode can be resolved, and nothing changes on the way. -/
theorem execute_resolve_flat (mode : AddressingMode) (r : Registers) (b : Flat) :
    mode.resolve.execute ⟨r, .flat b⟩ = .ok (b.resolve r mode) ⟨r, .flat b⟩ := by
  have hbyte := execute_readByte_flat (r.pc + 1) r b
  have hword := execute_readWord_flat (r.pc + 1) r b
  refine (Microcode.execute_bind_of_ok (Microcode.execute_getRegisters _)).trans ?_
  cases mode with
  | implied | accumulator | immediate => rfl
  | relative | zeroPage | zeroPageX | zeroPageY => exact Microcode.execute_bind_of_ok hbyte
  | absolute => exact hword
  | absoluteX | absoluteY => exact Microcode.execute_bind_of_ok hword
  | indirect =>
    exact (Microcode.execute_bind_of_ok hword).trans (execute_readWord_flat _ r b)
  | indexedIndirect =>
    exact (Microcode.execute_bind_of_ok hbyte).trans (execute_readWord_flat _ r b)
  | indirectIndexed =>
    exact (Microcode.execute_bind_of_ok hbyte).trans
      (Microcode.execute_bind_of_ok (execute_readWord_flat _ r b))

/-- Flat memory resolves every operand to the documented address. -/
theorem toNat_resolve (mode : AddressingMode) (r : Registers) (b : Flat) :
    (b.resolve r mode).toNat = (view r b).address mode := by
  have hpc := toNat_succ (toNat_mod r.pc)
  have hbyte : (b.read (r.pc + 1)).toNat = (view r b).byte (r.pc.toNat + 1) := toNat_read hpc r b
  have hword : (b.word (r.pc + 1)).toNat = (view r b).word (r.pc.toNat + 1) :=
    toNat_flatWord hpc r b
  cases mode with
  | implied | accumulator => rfl
  | immediate => exact hpc
  | relative => rw [Flat.resolve, toNat_branchTarget, hbyte]; rfl
  | zeroPage => rw [Flat.resolve, UInt8.toNat_toUInt16, hbyte]; rfl
  | zeroPageX => rw [Flat.resolve, UInt8.toNat_toUInt16, UInt8.toNat_add, hbyte]; rfl
  | zeroPageY => rw [Flat.resolve, UInt8.toNat_toUInt16, UInt8.toNat_add, hbyte]; rfl
  | absolute => exact hword
  | absoluteX => rw [Flat.resolve, UInt16.toNat_add, UInt8.toNat_toUInt16, hword]; rfl
  | absoluteY => rw [Flat.resolve, UInt16.toNat_add, UInt8.toNat_toUInt16, hword]; rfl
  | indirect =>
    rw [Flat.resolve, toNat_flatWord (toNat_mod _) r, hword]
    rfl
  | indexedIndirect =>
    rw [Flat.resolve, toNat_flatWord (toNat_toUInt16_mod _) r, UInt8.toNat_add, hbyte]
    rfl
  | indirectIndexed =>
    rw [Flat.resolve, UInt16.toNat_add, UInt8.toNat_toUInt16,
      toNat_flatWord (toNat_toUInt16_mod _) r, hbyte]
    rfl

end Mos6502
