import Mos6502.Instruction.Opcode
import Mos6502.Microcode.Basic

/-!
# The microcode of the instructions

Every instruction resolves its operand first, then makes its data accesses, then updates the
registers it has not updated yet. Pointers are two bytes at an address and the next one, wherever
the address lies.
-/

namespace Mos6502

/-- Read the operand of an instruction at the program counter and compute the address it stands
for. Indexing in page zero stays in page zero; other indexing wraps at the top of memory. -/
def AddressingMode.resolve (mode : AddressingMode) : Microcode UInt16 := do
  let r ← Microcode.getRegisters
  let operand := r.pc + 1
  match mode with
  | .implied | .accumulator => pure r.pc
  | .immediate => pure operand
  | .relative => return Alu.branchTarget r.pc (← Microcode.readByte operand)
  | .zeroPage => return (← Microcode.readByte operand).toUInt16
  | .zeroPageX => return ((← Microcode.readByte operand) + r.x).toUInt16
  | .zeroPageY => return ((← Microcode.readByte operand) + r.y).toUInt16
  | .absolute => Microcode.readWord operand
  | .absoluteX => return (← Microcode.readWord operand) + r.x.toUInt16
  | .absoluteY => return (← Microcode.readWord operand) + r.y.toUInt16
  | .indirect => Microcode.readWord (← Microcode.readWord operand)
  | .indexedIndirect => Microcode.readWord ((← Microcode.readByte operand) + r.x).toUInt16
  | .indirectIndexed =>
    return (← Microcode.readWord (← Microcode.readByte operand).toUInt16) + r.y.toUInt16

/-- The ways into an interrupt routine. -/
inductive Interrupt where
  | nmi | reset | irq
deriving DecidableEq

namespace Interrupt

def vector : Interrupt → UInt16
  | nmi => 0xFFFA
  | reset => 0xFFFC
  | irq => 0xFFFE

def name : Interrupt → String
  | nmi => "Nmi"
  | reset => "Reset"
  | irq => "Irq"

/-- Interrupt the program: push where it stands and its status, and go to the routine. The
interrupt-disable flag stays as it is. -/
def microcode (interrupt : Interrupt) : Microcode Unit := do
  let r ← Microcode.getRegisters
  Microcode.pushWord r.pc
  Microcode.push r.status.pushedByInterrupt
  let target ← Microcode.readWord interrupt.vector
  Microcode.modifyRegisters fun r => { r with pc := target }

end Interrupt

namespace StackOp

def microcode : StackOp → Microcode Unit
  | pha => do
    Microcode.push (← Microcode.getRegisters).a
  | php => do
    Microcode.push (← Microcode.getRegisters).status.pushedBySoftware
  | pla => do
    let v ← Microcode.pull
    Microcode.modifyRegisters fun r => { r with a := v, status := r.status.describe v }
  | plp => do
    let v ← Microcode.pull
    Microcode.modifyRegisters fun r => { r with status := .ofPulled v }

end StackOp

namespace Instruction

/-- Move the program counter behind an instruction of this mode. -/
def skip (mode : AddressingMode) (r : Registers) : Registers := r.advance (UInt16.ofNat mode.size)

def microcode : Instruction → Microcode Unit
  | read op mode => do
    let address ← mode.resolve
    let v ← Microcode.readByte address
    Microcode.modifyRegisters fun r => skip mode (op.apply v r)
  | store op mode => do
    let address ← mode.resolve
    Microcode.writeByte address (op.source (← Microcode.getRegisters))
    Microcode.modifyRegisters (skip mode)
  | modify op .accumulator =>
    Microcode.modifyRegisters fun r =>
      let (v, status) := op.apply r.a r.status
      skip .accumulator { r with a := v, status := status }
  | modify op mode => do
    let address ← mode.resolve
    let v ← Microcode.readByte address
    let r ← Microcode.getRegisters
    let (v, status) := op.apply v r.status
    Microcode.assign { r with status := status } (Microcode.writeByte address v)
    Microcode.modifyRegisters (skip mode)
  | internal op => Microcode.modifyRegisters fun r => skip .implied (op.apply r)
  | stack op => do
    op.microcode
    Microcode.modifyRegisters (skip .implied)
  | branch op => do
    let target ← AddressingMode.relative.resolve
    Microcode.modifyRegisters fun r =>
      if op.taken r.status then { r with pc := target } else skip .relative r
  | jmp mode => do
    let target ← mode.resolve
    Microcode.modifyRegisters fun r => { r with pc := target }
  | jsr => do
    let target ← AddressingMode.absolute.resolve
    Microcode.pushWord ((← Microcode.getRegisters).pc + 2)
    Microcode.modifyRegisters fun r => { r with pc := target }
  | rts => do
    let target ← Microcode.pullWord
    Microcode.modifyRegisters fun r => { r with pc := target + 1 }
  | rti => do
    let v ← Microcode.pull
    Microcode.modifyRegisters fun r => { r with status := .ofPulled v }
    let target ← Microcode.pullWord
    Microcode.modifyRegisters fun r => { r with pc := target }
  | brk => do
    let r ← Microcode.getRegisters
    Microcode.pushWord (r.pc + 2)
    Microcode.push r.status.pushedBySoftware
    Microcode.modifyRegisters fun r => { r with status := r.status.set .irqDisable true }
    let target ← Microcode.readWord Interrupt.irq.vector
    Microcode.modifyRegisters fun r => { r with pc := target }

/-- How an instruction changes the nesting of calls. -/
def nesting : Instruction → Int32
  | jsr => 1
  | rts => -1
  | read .. | store .. | modify .. | internal _ | stack _ | branch _ | jmp _ | rti | brk => 0

end Instruction

end Mos6502
