import Mos6502.Microcode.Instruction
import Mos6502.Proofs.Effects

/-!
# Executing microcode

Executing a sequence is executing its parts one behind the other, so the accesses of an instruction
can be followed one at a time. Resolving an operand only reads: it changes neither registers nor
board, and what it answers on a copy is what it answers in the instruction.
-/

namespace Mos6502.Microcode

variable {α β : Type}

@[simp]
theorem execute_bind' (p : Microcode α) (f : α → Microcode β) :
    (p >>= f).execute = p.execute >>= fun a => (f a).execute :=
  execute_bind p f

theorem execute_bind_of_ok {p : Microcode α} {f : α → Microcode β} {c c' : Core} {a : α}
    (h : p.execute c = .ok a c') : (p >>= f).execute c = (f a).execute c' := by
  rw [execute_bind', bind_of_ok h]

theorem execute_bind_of_error {p : Microcode α} {f : α → Microcode β} {c c' : Core}
    {e : BoardError} (h : p.execute c = .error e c') : (p >>= f).execute c = .error e c' := by
  rw [execute_bind', bind_of_error h]

@[simp]
theorem execute_getRegisters (c : Core) : getRegisters.execute c = .ok c.registers c := rfl

theorem execute_readByte_ok {c : Core} {address : UInt16} {v : UInt8}
    (h : c.board.read address = .ok v) : (readByte address).execute c = .ok v c := by
  simp only [readByte, execute, h]

theorem execute_readByte_error {c : Core} {address : UInt16} {e : BoardError}
    (h : c.board.read address = .error e) : (readByte address).execute c = .error e c := by
  simp only [readByte, execute, h]

theorem execute_readWord_ok {c : Core} {address : UInt16} {low high : UInt8}
    (hlow : c.board.read address = .ok low) (hhigh : c.board.read (address + 1) = .ok high) :
    (readWord address).execute c = .ok (word low high) c :=
  (execute_bind_of_ok (execute_readByte_ok hlow)).trans
    (execute_bind_of_ok (execute_readByte_ok hhigh))

/-- The low byte is read first, and its failure is the one reported. -/
theorem execute_readWord_error_low {c : Core} {address : UInt16} {e : BoardError}
    (h : c.board.read address = .error e) : (readWord address).execute c = .error e c :=
  execute_bind_of_error (execute_readByte_error h)

theorem execute_readWord_error_high {c : Core} {address : UInt16} {v : UInt8} {e : BoardError}
    (hlow : c.board.read address = .ok v) (hhigh : c.board.read (address + 1) = .error e) :
    (readWord address).execute c = .error e c :=
  (execute_bind_of_ok (execute_readByte_ok hlow)).trans
    (execute_bind_of_error (execute_readByte_error hhigh))

/-! ## Sequences that only read -/

/-- No write and no register update, whatever is read. -/
def ReadsOnly : Microcode α → Prop
  | done _ => True
  | read _ next => ∀ v, (next v).ReadsOnly
  | inspect next => ∀ r, (next r).ReadsOnly
  | write .. | assign .. => False

/-- Microcode that only reads leaves the core as it was, also where it fails. -/
theorem ReadsOnly.execute {p : Microcode α} (h : p.ReadsOnly) (c : Core) :
    finalState (p.execute c) = c := by
  induction p with
  | done result => rfl
  | read address next ih =>
    rw [Microcode.execute]
    dsimp only
    split
    next v hread => exact ih v (h v)
    next => rfl
  | write => exact h.elim
  | inspect next ih => exact ih c.registers (h c.registers)
  | assign => exact h.elim

theorem ReadsOnly.bind {p : Microcode α} {f : α → Microcode β} (h : p.ReadsOnly)
    (hf : ∀ a, (f a).ReadsOnly) : (p >>= f).ReadsOnly := by
  induction p with
  | done result => exact hf result
  | read address next ih => exact fun v => ih v (h v)
  | write => exact h.elim
  | inspect next ih => exact fun r => ih r (h r)
  | assign => exact h.elim

theorem readsOnly_pure (a : α) : (pure a : Microcode α).ReadsOnly := trivial

theorem readsOnly_readByte (address : UInt16) : (readByte address).ReadsOnly := fun _ => trivial

theorem readsOnly_readWord (address : UInt16) : (readWord address).ReadsOnly :=
  .bind (readsOnly_readByte _) fun _ => .bind (readsOnly_readByte _) fun _ => readsOnly_pure _

/-- Resolving an operand only reads. -/
theorem readsOnly_resolve (mode : AddressingMode) : mode.resolve.ReadsOnly := by
  refine .bind (fun _ => trivial) fun r => ?_
  cases mode with
  | implied | accumulator | immediate => exact readsOnly_pure _
  | relative | zeroPage | zeroPageX | zeroPageY =>
    exact .bind (readsOnly_readByte _) fun _ => readsOnly_pure _
  | absolute => exact readsOnly_readWord _
  | absoluteX | absoluteY => exact .bind (readsOnly_readWord _) fun _ => readsOnly_pure _
  | indirect => exact .bind (readsOnly_readWord _) fun _ => readsOnly_readWord _
  | indexedIndirect => exact .bind (readsOnly_readByte _) fun _ => readsOnly_readWord _
  | indirectIndexed =>
    exact .bind (readsOnly_readByte _) fun _ =>
      .bind (readsOnly_readWord _) fun _ => readsOnly_pure _

/-- An instruction without operand bytes resolves without a read. -/
theorem execute_resolve_of_size_one {mode : AddressingMode} (h : mode.size = 1) (c : Core) :
    mode.resolve.execute c = .ok c.registers.pc c := by
  cases mode <;> first | rfl | cases h

/-- An operand whose first byte cannot be read cannot be resolved. -/
theorem execute_resolve_error_first {mode : AddressingMode} (hsize : mode.size ≠ 1)
    (himmediate : mode ≠ .immediate) {c : Core} {e : BoardError}
    (h : c.board.read (c.registers.pc + 1) = .error e) : mode.resolve.execute c = .error e c := by
  refine (execute_bind_of_ok (execute_getRegisters c)).trans ?_
  cases mode with
  | implied | accumulator => exact absurd rfl hsize
  | immediate => exact absurd rfl himmediate
  | relative | zeroPage | zeroPageX | zeroPageY | indexedIndirect | indirectIndexed =>
    exact execute_bind_of_error (execute_readByte_error h)
  | absolute => exact execute_readWord_error_low h
  | absoluteX | absoluteY | indirect => exact execute_bind_of_error (execute_readWord_error_low h)

/-- Nor can one whose second byte cannot be read. -/
theorem execute_resolve_error_second {mode : AddressingMode} (hsize : mode.size = 3) {c : Core}
    {v : UInt8} {e : BoardError} (hfirst : c.board.read (c.registers.pc + 1) = .ok v)
    (h : c.board.read (c.registers.pc + 1 + 1) = .error e) :
    mode.resolve.execute c = .error e c := by
  refine (execute_bind_of_ok (execute_getRegisters c)).trans ?_
  have hword := execute_readWord_error_high hfirst h
  cases mode with
  | absolute => exact hword
  | absoluteX | absoluteY | indirect => exact execute_bind_of_error hword
  | _ => cases hsize

/-- A sequence that only reads answers on a copy what it answers in place. -/
theorem ReadsOnly.execute_of_peek_ok {p : Microcode α} (h : p.ReadsOnly) {c : Core} {a : α}
    (hpeek : p.peek c = .ok a) : p.execute c = .ok a c := by
  have hcore := h.execute c
  unfold peek at hpeek
  split at hpeek
  next heq => cases hpeek; rw [heq] at hcore ⊢; exact congrArg _ hcore
  next => cases hpeek

/-- Where a look fails, so does the execution, with the same error. -/
theorem ReadsOnly.execute_of_peek_error {p : Microcode α} (h : p.ReadsOnly) {c : Core}
    {e : BoardError} (hpeek : p.peek c = .error e) : p.execute c = .error e c := by
  have hcore := h.execute c
  unfold peek at hpeek
  split at hpeek
  next => cases hpeek
  next heq => cases hpeek; rw [heq] at hcore ⊢; exact congrArg _ hcore

end Mos6502.Microcode
