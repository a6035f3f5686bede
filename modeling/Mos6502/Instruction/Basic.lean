import Mos6502.AddressingMode
import Mos6502.Alu
import Mos6502.Registers

/-!
# Instructions

Instructions are grouped by what they do on the bus: read an operand, write one, read and write
back, use the stack, stay inside the processor, or move the program counter. The effect of an
operation on the register file is given here; `Mos6502.Instruction.Microcode` adds the bus.
-/

namespace Mos6502

inductive ReadOp where
  | lda | ldx | ldy | adc | sbc | and | ora | eor | bit | cmp | cpx | cpy
deriving DecidableEq

inductive StoreOp where
  | sta | stx | sty
deriving DecidableEq

/-- Operations that replace a byte, in memory or in the accumulator. -/
inductive ModifyOp where
  | asl | lsr | rol | ror | inc | dec
deriving DecidableEq

/-- Operations between registers and flags, off the bus. -/
inductive RegisterOp where
  | tax | tay | txa | tya | tsx | txs | inx | iny | dex | dey
  | clc | sec | cli | sei | cld | sed | clv | nop
deriving DecidableEq

/-- Single pushes and pulls. -/
inductive StackOp where
  | pha | php | pla | plp
deriving DecidableEq

inductive BranchOp where
  | bpl | bmi | bvc | bvs | bcc | bcs | bne | beq
deriving DecidableEq

/-- An instruction, with the addressing mode where the opcode chooses one. -/
inductive Instruction where
  | read (op : ReadOp) (mode : AddressingMode)
  | store (op : StoreOp) (mode : AddressingMode)
  | modify (op : ModifyOp) (mode : AddressingMode)
  | internal (op : RegisterOp)
  | stack (op : StackOp)
  | branch (op : BranchOp)
  /-- Go to the operand address. -/
  | jmp (mode : AddressingMode)
  /-- Call a routine: push the address of the call's last byte and go there. -/
  | jsr
  /-- Return from a routine, behind the call. -/
  | rts
  /-- Return from an interrupt to the very address that was pushed. -/
  | rti
  /-- Enter the interrupt routine by software. -/
  | brk
deriving DecidableEq

namespace ReadOp

def mnemonic : ReadOp → String
  | lda => "LDA" | ldx => "LDX" | ldy => "LDY" | adc => "ADC" | sbc => "SBC" | and => "AND"
  | ora => "ORA" | eor => "EOR" | bit => "BIT" | cmp => "CMP" | cpx => "CPX" | cpy => "CPY"

def apply (op : ReadOp) (v : UInt8) (r : Registers) : Registers :=
  match op with
  | lda => { r with a := v, status := r.status.describe v }
  | ldx => { r with x := v, status := r.status.describe v }
  | ldy => { r with y := v, status := r.status.describe v }
  | adc => { r with a := (Alu.add r.a v r.status).1, status := (Alu.add r.a v r.status).2 }
  | sbc =>
    { r with a := (Alu.subtract r.a v r.status).1, status := (Alu.subtract r.a v r.status).2 }
  | and => { r with a := r.a &&& v, status := r.status.describe (r.a &&& v) }
  | ora => { r with a := r.a ||| v, status := r.status.describe (r.a ||| v) }
  | eor => { r with a := r.a ^^^ v, status := r.status.describe (r.a ^^^ v) }
  | bit => { r with status := Alu.bitTest r.a v r.status }
  | cmp => { r with status := Alu.compare r.a v r.status }
  | cpx => { r with status := Alu.compare r.x v r.status }
  | cpy => { r with status := Alu.compare r.y v r.status }

end ReadOp

namespace StoreOp

def mnemonic : StoreOp → String
  | sta => "STA" | stx => "STX" | sty => "STY"

def source (op : StoreOp) (r : Registers) : UInt8 :=
  match op with
  | sta => r.a
  | stx => r.x
  | sty => r.y

end StoreOp

namespace ModifyOp

def mnemonic : ModifyOp → String
  | asl => "ASL" | lsr => "LSR" | rol => "ROL" | ror => "ROR" | inc => "INC" | dec => "DEC"

/-- The new byte and the status after it. -/
def apply (op : ModifyOp) (v : UInt8) (s : Status) : UInt8 × Status :=
  match op with
  | asl => Alu.shiftLeft v s
  | lsr => Alu.shiftRight v s
  | rol => Alu.rotateLeft v s
  | ror => Alu.rotateRight v s
  | inc => Alu.increment v s
  | dec => Alu.decrement v s

end ModifyOp

namespace RegisterOp

def mnemonic : RegisterOp → String
  | tax => "TAX" | tay => "TAY" | txa => "TXA" | tya => "TYA" | tsx => "TSX" | txs => "TXS"
  | inx => "INX" | iny => "INY" | dex => "DEX" | dey => "DEY"
  | clc => "CLC" | sec => "SEC" | cli => "CLI" | sei => "SEI" | cld => "CLD" | sed => "SED"
  | clv => "CLV" | nop => "NOP"

/-- The effect on the register file. Only the transfer to the stack pointer moves a value without
describing it in the flags. -/
def apply (op : RegisterOp) (r : Registers) : Registers :=
  match op with
  | tax => { r with x := r.a, status := r.status.describe r.a }
  | tay => { r with y := r.a, status := r.status.describe r.a }
  | txa => { r with a := r.x, status := r.status.describe r.x }
  | tya => { r with a := r.y, status := r.status.describe r.y }
  | tsx => { r with x := r.sp, status := r.status.describe r.sp }
  | txs => { r with sp := r.x }
  | inx => { r with x := r.x + 1, status := r.status.describe (r.x + 1) }
  | iny => { r with y := r.y + 1, status := r.status.describe (r.y + 1) }
  | dex => { r with x := r.x - 1, status := r.status.describe (r.x - 1) }
  | dey => { r with y := r.y - 1, status := r.status.describe (r.y - 1) }
  | clc => { r with status := r.status.set .carry false }
  | sec => { r with status := r.status.set .carry true }
  | cli => { r with status := r.status.set .irqDisable false }
  | sei => { r with status := r.status.set .irqDisable true }
  | cld => { r with status := r.status.set .decimal false }
  | sed => { r with status := r.status.set .decimal true }
  | clv => { r with status := r.status.set .overflow false }
  | nop => r

end RegisterOp

namespace StackOp

def mnemonic : StackOp → String
  | pha => "PHA" | php => "PHP" | pla => "PLA" | plp => "PLP"

end StackOp

namespace BranchOp

def mnemonic : BranchOp → String
  | bpl => "BPL" | bmi => "BMI" | bvc => "BVC" | bvs => "BVS"
  | bcc => "BCC" | bcs => "BCS" | bne => "BNE" | beq => "BEQ"

def flag : BranchOp → Flag
  | bpl | bmi => .negative
  | bvc | bvs => .overflow
  | bcc | bcs => .carry
  | bne | beq => .zero

/-- The value of the flag on which the branch is taken. -/
def whenSet : BranchOp → Bool
  | bmi | bvs | bcs | beq => true
  | bpl | bvc | bcc | bne => false

def taken (op : BranchOp) (s : Status) : Bool := s.get op.flag == op.whenSet

end BranchOp

namespace Instruction

def mnemonic : Instruction → String
  | read op _ => op.mnemonic
  | store op _ => op.mnemonic
  | modify op _ => op.mnemonic
  | internal op => op.mnemonic
  | stack op => op.mnemonic
  | branch op => op.mnemonic
  | jmp _ => "JMP"
  | jsr => "JSR"
  | rts => "RTS"
  | rti => "RTI"
  | brk => "BRK"

/-- The addressing mode. Calls are always absolute, branches always relative. -/
def mode : Instruction → AddressingMode
  | read _ mode | store _ mode | modify _ mode | jmp mode => mode
  | internal _ | stack _ | rts | rti | brk => .implied
  | branch _ => .relative
  | jsr => .absolute

def size (i : Instruction) : Nat := i.mode.size

end Instruction

end Mos6502
