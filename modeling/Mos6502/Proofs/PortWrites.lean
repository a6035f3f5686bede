import Mos6502.Proofs.Microcode

/-!
# Reads come before writes to the ROM window

A write to the ROM window can switch banks, and then the bytes of the running instruction may lie
behind other addresses than before. No instruction notices: all that it reads it reads before such a
write. In between it writes only to the stack, which lies in RAM on every cartridge.
-/

namespace Mos6502

namespace Microcode

variable {α β : Type}

/-- No write to the ROM window. -/
def SparesRom : Microcode α → Prop
  | done _ => True
  | read _ next => ∀ v, (next v).SparesRom
  | write address _ next => address < 0x8000 ∧ next.SparesRom
  | inspect next => ∀ r, (next r).SparesRom
  | assign _ next => next.SparesRom

def ReadFree : Microcode α → Prop
  | done _ => True
  | read _ _ => False
  | write _ _ next => next.ReadFree
  | inspect next => ∀ r, (next r).ReadFree
  | assign _ next => next.ReadFree

/-- Nothing is read behind a write to the ROM window. -/
def ReadsFirst : Microcode α → Prop
  | done _ => True
  | read _ next => ∀ v, (next v).ReadsFirst
  | write address _ next => next.ReadFree ∨ (address < 0x8000 ∧ next.ReadsFirst)
  | inspect next => ∀ r, (next r).ReadsFirst
  | assign _ next => next.ReadsFirst

/-! ## Sequences -/

/-- Without writes there are none to the ROM window. -/
theorem ReadsOnly.sparesRom {p : Microcode α} (h : p.ReadsOnly) : p.SparesRom := by
  induction p with
  | done result => trivial
  | read address next ih => exact fun v => ih v (h v)
  | write => exact h.elim
  | inspect next ih => exact fun r => ih r (h r)
  | assign => exact h.elim

theorem SparesRom.bind {p : Microcode α} {f : α → Microcode β} (h : p.SparesRom)
    (hf : ∀ a, (f a).SparesRom) : (p >>= f).SparesRom := by
  induction p with
  | done result => exact hf result
  | read address next ih => exact fun v => ih v (h v)
  | write address value next ih => exact ⟨h.1, ih h.2⟩
  | inspect next ih => exact fun r => ih r (h r)
  | assign registers next ih => exact ih h

/-- What comes first and spares the window leaves it to the rest to write there. -/
theorem SparesRom.bind_readsFirst {p : Microcode α} {f : α → Microcode β} (h : p.SparesRom)
    (hf : ∀ a, (f a).ReadsFirst) : (p >>= f).ReadsFirst := by
  induction p with
  | done result => exact hf result
  | read address next ih => exact fun v => ih v (h v)
  | write address value next ih => exact .inr ⟨h.1, ih h.2⟩
  | inspect next ih => exact fun r => ih r (h r)
  | assign registers next ih => exact ih h

theorem SparesRom.readsFirst {p : Microcode α} (h : p.SparesRom) : p.ReadsFirst := by
  have hbind := h.bind_readsFirst (f := done) fun _ => trivial
  rwa [show p >>= done = p from bind_done p] at hbind

/-! ## Stack and registers -/

theorem sparesRom_modifyRegisters (f : Registers → Registers) : (modifyRegisters f).SparesRom :=
  fun _ => trivial

theorem readsFirst_readByte (address : UInt16) : (readByte address).ReadsFirst :=
  (readsOnly_readByte address).sparesRom.readsFirst

theorem sparesRom_readWord (address : UInt16) : (readWord address).SparesRom :=
  (readsOnly_readWord address).sparesRom

/-- The stack page lies far below the ROM window. -/
theorem stackAddress_lt (r : Registers) : r.stackAddress < 0x8000 := by
  have hlt := r.sp.toNat_lt
  unfold Registers.stackAddress
  rw [UInt16.lt_iff_toNat_lt, UInt16.toNat_or, UInt8.toNat_toUInt16]
  exact Nat.or_lt_two_pow (n := 15) (by decide) (by omega)

theorem sparesRom_push (value : UInt8) : (push value).SparesRom :=
  fun r => ⟨stackAddress_lt r, sparesRom_modifyRegisters _⟩

theorem sparesRom_pull : pull.SparesRom := fun _ _ _ => trivial

theorem sparesRom_pushWord (value : UInt16) : (pushWord value).SparesRom :=
  (sparesRom_push _).bind fun _ => sparesRom_push _

theorem sparesRom_pullWord : pullWord.SparesRom :=
  sparesRom_pull.bind fun _ => sparesRom_pull.bind fun _ => trivial

/-- Resolving an operand writes nowhere. -/
theorem sparesRom_resolve (mode : AddressingMode) : mode.resolve.SparesRom :=
  (readsOnly_resolve mode).sparesRom

end Microcode

open Microcode

/-! ## Instructions and interrupts -/

/-- Stack operations stay in the stack page. -/
theorem StackOp.sparesRom_microcode (op : StackOp) : op.microcode.SparesRom := by
  cases op with
  | pha => exact fun r => sparesRom_push _
  | php => exact fun r => sparesRom_push _
  | pla => exact sparesRom_pull.bind fun v => sparesRom_modifyRegisters _
  | plp => exact sparesRom_pull.bind fun v => sparesRom_modifyRegisters _

theorem Interrupt.sparesRom_microcode (i : Interrupt) : i.microcode.SparesRom := by
  intro r
  refine (sparesRom_pushWord _).bind fun _ => (sparesRom_push _).bind fun _ => ?_
  exact (sparesRom_readWord _).bind fun _ => sparesRom_modifyRegisters _

/-- An instruction that writes to its operand has read all it reads. -/
theorem Instruction.readsFirst_microcode (i : Instruction) : i.microcode.ReadsFirst := by
  cases i with
  | read op mode =>
    refine (sparesRom_resolve mode).bind_readsFirst fun address v => ?_
    exact (sparesRom_modifyRegisters _).readsFirst
  | store op mode =>
    -- The write may go anywhere, but nothing is read behind it.
    refine (sparesRom_resolve mode).bind_readsFirst fun address r => ?_
    exact .inl fun _ => trivial
  | modify op mode =>
    cases mode with
    | accumulator => exact (sparesRom_modifyRegisters _).readsFirst
    | _ =>
      refine (sparesRom_resolve _).bind_readsFirst fun address v r => ?_
      exact .inl fun _ => trivial
  | internal op => exact (sparesRom_modifyRegisters _).readsFirst
  | stack op =>
    exact (op.sparesRom_microcode.bind fun _ => sparesRom_modifyRegisters _).readsFirst
  | branch op =>
    exact ((sparesRom_resolve _).bind fun _ => sparesRom_modifyRegisters _).readsFirst
  | jmp mode =>
    exact ((sparesRom_resolve mode).bind fun _ => sparesRom_modifyRegisters _).readsFirst
  | jsr =>
    refine SparesRom.readsFirst ((sparesRom_resolve _).bind fun target r => ?_)
    exact (sparesRom_pushWord _).bind fun _ => sparesRom_modifyRegisters _
  | rts =>
    exact (sparesRom_pullWord.bind fun _ => sparesRom_modifyRegisters _).readsFirst
  | rti =>
    refine SparesRom.readsFirst (sparesRom_pull.bind fun _ => ?_)
    refine (sparesRom_modifyRegisters _).bind fun _ => ?_
    exact sparesRom_pullWord.bind fun _ => sparesRom_modifyRegisters _
  | brk =>
    refine SparesRom.readsFirst fun r => ?_
    refine (sparesRom_pushWord _).bind fun _ => (sparesRom_push _).bind fun _ => ?_
    refine (sparesRom_modifyRegisters _).bind fun _ => ?_
    exact (sparesRom_readWord _).bind fun _ => sparesRom_modifyRegisters _

end Mos6502
