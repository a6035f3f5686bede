import Mathlib.Logic.Function.Basic
import Mos6502.AddressingMode

/-!
# A reference processor over the integers

The documented processor, written down a second time: registers, flags and memory cells are numbers
and truth values, wrapping is a remainder, and signs are signs of integers. The opcode matrix is
given by the bit fields `aaabbbcc` of the opcode. Nothing here mentions the machine; what it has to
do with it is said in `Mos6502.Proofs.Refinement`.
-/

namespace Mos6502.Reference

/-- Registers below 256, a program counter below 65536, and the eight bits of the status. Memory
cells beyond the address space hold zero. -/
@[ext]
structure State where
  a : Nat
  x : Nat
  y : Nat
  sp : Nat
  pc : Nat
  carry : Bool
  zero : Bool
  irqDisable : Bool
  decimal : Bool
  breakBit : Bool
  unused : Bool
  overflow : Bool
  negative : Bool
  memory : Nat → Nat

/-- The byte at an address encodes no instruction. -/
structure Unimplemented where
  address : Nat
  opcode : Nat

inductive Mnemonic where
  | adc | and | asl | bcc | bcs | beq | bit | bmi | bne | bpl | brk | bvc | bvs | clc
  | cld | cli | clv | cmp | cpx | cpy | dec | dex | dey | eor | inc | inx | iny | jmp
  | jsr | lda | ldx | ldy | lsr | nop | ora | pha | php | pla | plp | rol | ror | rti
  | rts | sbc | sec | sed | sei | sta | stx | sty | tax | tay | tsx | txa | txs | tya
deriving DecidableEq

/-! ## The opcode matrix -/

/-- Opcodes `aaabbb01`: operations on the accumulator. There is no immediate store. -/
def accumulatorColumn (aaa bbb : Nat) : Option (Mnemonic × AddressingMode) := do
  let op ← [.ora, .and, .eor, .adc, .sta, .lda, .cmp, .sbc][aaa]?
  let mode ← [.indexedIndirect, .zeroPage, .immediate, .absolute,
    .indirectIndexed, .zeroPageX, .absoluteY, .absoluteX][bbb]?
  if op = .sta ∧ mode = .immediate then none else some (op, mode)

/-- Opcodes `aaabbb10`: shifts and increments, and transfers of X, which cannot index by X and so
index by Y. -/
def modifyColumn (aaa bbb : Nat) : Option (Mnemonic × AddressingMode) :=
  let op := [.asl, .rol, .lsr, .ror, .stx, .ldx, .dec, .inc][aaa]?
  match bbb, aaa with
  | 0, 5 => some (.ldx, .immediate)
  | 1, _ => op.map (·, .zeroPage)
  | 2, n => [(.asl, .accumulator), (.rol, .accumulator), (.lsr, .accumulator), (.ror, .accumulator),
      (.txa, .implied), (.tax, .implied), (.dex, .implied), (.nop, .implied)][n]?
  | 3, _ => op.map (·, .absolute)
  | 5, n => op.map (·, if n = 4 ∨ n = 5 then .zeroPageY else .zeroPageX)
  | 6, 4 => some (.txs, .implied)
  | 6, 5 => some (.tsx, .implied)
  | 7, 4 => none
  | 7, n => op.map (·, if n = 5 then .absoluteY else .absoluteX)
  | _, _ => none

/-- Opcodes `aaabbb00`: everything else. -/
def controlColumn (aaa bbb : Nat) : Option (Mnemonic × AddressingMode) :=
  match bbb, aaa with
  | 0, 0 => some (.brk, .implied)
  | 0, 1 => some (.jsr, .absolute)
  | 0, 2 => some (.rti, .implied)
  | 0, 3 => some (.rts, .implied)
  | 0, 5 => some (.ldy, .immediate)
  | 0, 6 => some (.cpy, .immediate)
  | 0, 7 => some (.cpx, .immediate)
  | 1, 1 => some (.bit, .zeroPage)
  | 1, 4 => some (.sty, .zeroPage)
  | 1, 5 => some (.ldy, .zeroPage)
  | 1, 6 => some (.cpy, .zeroPage)
  | 1, 7 => some (.cpx, .zeroPage)
  | 2, n => ([.php, .plp, .pha, .pla, .dey, .tay, .iny, .inx][n]?).map (·, .implied)
  | 3, 1 => some (.bit, .absolute)
  | 3, 2 => some (.jmp, .absolute)
  | 3, 3 => some (.jmp, .indirect)
  | 3, 4 => some (.sty, .absolute)
  | 3, 5 => some (.ldy, .absolute)
  | 3, 6 => some (.cpy, .absolute)
  | 3, 7 => some (.cpx, .absolute)
  | 4, n => ([.bpl, .bmi, .bvc, .bvs, .bcc, .bcs, .bne, .beq][n]?).map (·, .relative)
  | 5, 4 => some (.sty, .zeroPageX)
  | 5, 5 => some (.ldy, .zeroPageX)
  | 6, n => ([.clc, .sec, .cli, .sei, .tya, .clv, .cld, .sed][n]?).map (·, .implied)
  | 7, 5 => some (.ldy, .absoluteX)
  | _, _ => none

def decode (opcode : Nat) : Option (Mnemonic × AddressingMode) :=
  match opcode % 4 with
  | 0 => controlColumn (opcode / 32) (opcode / 4 % 8)
  | 1 => accumulatorColumn (opcode / 32) (opcode / 4 % 8)
  | 2 => modifyColumn (opcode / 32) (opcode / 4 % 8)
  | _ => none

/-- There are 151 documented opcodes. -/
example : ((List.range 256).filter fun n => (decode n).isSome).length = 151 := by
  decide +kernel

/-! ## Operands -/

/-- The signed number that a byte stands for. -/
def signed (v : Nat) : Int := if v < 128 then v else v - 256

def Fits (n : Int) : Prop := -128 ≤ n ∧ n ≤ 127

instance (n : Int) : Decidable (Fits n) := inferInstanceAs (Decidable (_ ∧ _))

def length : AddressingMode → Nat
  | .implied | .accumulator => 1
  | .immediate | .relative | .zeroPage | .zeroPageX | .zeroPageY | .indexedIndirect
  | .indirectIndexed => 2
  | .absolute | .absoluteX | .absoluteY | .indirect => 3

namespace State

/-- The byte at an address; the address space is a circle. -/
def byte (s : State) (address : Nat) : Nat := s.memory (address % 65536)

def word (s : State) (address : Nat) : Nat := s.byte address + 256 * s.byte (address + 1)

def address (s : State) : AddressingMode → Nat
  | .implied | .accumulator => s.pc
  | .immediate => (s.pc + 1) % 65536
  | .relative => ((s.pc + 2 + signed (s.byte (s.pc + 1))) % 65536).toNat
  | .zeroPage => s.byte (s.pc + 1)
  | .zeroPageX => (s.byte (s.pc + 1) + s.x) % 256
  | .zeroPageY => (s.byte (s.pc + 1) + s.y) % 256
  | .absolute => s.word (s.pc + 1)
  | .absoluteX => (s.word (s.pc + 1) + s.x) % 65536
  | .absoluteY => (s.word (s.pc + 1) + s.y) % 65536
  | .indirect => s.word (s.word (s.pc + 1))
  | .indexedIndirect => s.word ((s.byte (s.pc + 1) + s.x) % 256)
  | .indirectIndexed => (s.word (s.byte (s.pc + 1)) + s.y) % 65536

def next (s : State) (mode : AddressingMode) : Nat := (s.pc + length mode) % 65536

/-! ## Effects -/

def describe (s : State) (v : Nat) : State := { s with zero := v = 0, negative := 128 ≤ v }

/-- Binary addition to the accumulator, whatever the decimal flag says. -/
def add (s : State) (v : Nat) : State :=
  let sum := s.a + v + s.carry.toNat
  { s.describe (sum % 256) with
    a := sum % 256
    carry := 256 ≤ sum
    overflow := ¬ Fits (signed s.a + signed v + s.carry.toNat) }

/-- Binary subtraction from the accumulator; a clear carry is a borrow. -/
def subtract (s : State) (v : Nat) : State :=
  let difference : Int := s.a - v - (1 - s.carry.toNat)
  let result := (difference % 256).toNat
  { s.describe result with
    a := result
    carry := 0 ≤ difference
    overflow := ¬ Fits (signed s.a - signed v - (1 - s.carry.toNat)) }

/-- The flags of a difference. The overflow flag is kept. -/
def compare (s : State) (register v : Nat) : State :=
  { s.describe (((register : Int) - v) % 256).toNat with carry := v ≤ register }

/-- Zero describes the common bits, sign and overflow are the two top bits of the operand. -/
def bitTest (s : State) (v : Nat) : State :=
  { s with zero := s.a &&& v = 0, negative := v / 128 % 2 = 1, overflow := v / 64 % 2 = 1 }

def store (s : State) (address v : Nat) : State :=
  { s with memory := Function.update s.memory address v }

/-- The byte that a shift or an increment replaces. -/
def operand (s : State) (mode : AddressingMode) : Nat :=
  if mode = .accumulator then s.a else s.memory (s.address mode)

def modify (s : State) (mode : AddressingMode) (v : Nat) : State :=
  let t := if mode = .accumulator then { s with a := v } else s.store (s.address mode) v
  { t.describe v with pc := s.next mode }

/-- The status as a byte with both framing bits. -/
def statusByte (s : State) : Nat :=
  s.carry.toNat + 2 * s.zero.toNat + 4 * s.irqDisable.toNat + 8 * s.decimal.toNat + 16 + 32 +
    64 * s.overflow.toNat + 128 * s.negative.toNat

/-- The status that a byte on the stack stands for. The framing bits are dropped. -/
def loadStatus (s : State) (v : Nat) : State :=
  { s with
    carry := v % 2 = 1
    zero := v / 2 % 2 = 1
    irqDisable := v / 4 % 2 = 1
    decimal := v / 8 % 2 = 1
    breakBit := false
    unused := false
    overflow := v / 64 % 2 = 1
    negative := v / 128 % 2 = 1 }

def push (s : State) (v : Nat) : State := { s.store (256 + s.sp) v with sp := (s.sp + 255) % 256 }

def pushWord (s : State) (v : Nat) : State := (s.push (v / 256)).push (v % 256)

def top (s : State) : Nat := s.memory (256 + (s.sp + 1) % 256)

def drop (s : State) : State := { s with sp := (s.sp + 1) % 256 }

/-- Go to the address on top of the stack, or so many bytes behind it. -/
def goBack (s : State) (distance : Nat) : State :=
  { s.drop.drop with pc := (s.top + 256 * s.drop.top + distance) % 65536 }

def branch (s : State) (condition : Bool) : State :=
  { s with pc := if condition then s.address .relative else s.next .relative }

/-! ## Instructions -/

def exec (s : State) (op : Mnemonic) (mode : AddressingMode) : State :=
  let t := { s with pc := s.next mode }
  let v := s.memory (s.address mode)
  let w := s.operand mode
  match op with
  | .lda => { t.describe v with a := v }
  | .ldx => { t.describe v with x := v }
  | .ldy => { t.describe v with y := v }
  | .sta => t.store (s.address mode) s.a
  | .stx => t.store (s.address mode) s.x
  | .sty => t.store (s.address mode) s.y
  | .adc => t.add v
  | .sbc => t.subtract v
  | .and => { t.describe (s.a &&& v) with a := s.a &&& v }
  | .ora => { t.describe (s.a ||| v) with a := s.a ||| v }
  | .eor => { t.describe (s.a ^^^ v) with a := s.a ^^^ v }
  | .bit => t.bitTest v
  | .cmp => t.compare s.a v
  | .cpx => t.compare s.x v
  | .cpy => t.compare s.y v
  | .asl => { s.modify mode (2 * w % 256) with carry := w / 128 % 2 = 1 }
  | .lsr => { s.modify mode (w / 2) with carry := w % 2 = 1 }
  | .rol => { s.modify mode (2 * w % 256 + s.carry.toNat) with carry := w / 128 % 2 = 1 }
  | .ror => { s.modify mode (w / 2 + 128 * s.carry.toNat) with carry := w % 2 = 1 }
  | .inc => s.modify mode ((w + 1) % 256)
  | .dec => s.modify mode ((w + 255) % 256)
  | .tax => { t.describe s.a with x := s.a }
  | .tay => { t.describe s.a with y := s.a }
  | .txa => { t.describe s.x with a := s.x }
  | .tya => { t.describe s.y with a := s.y }
  | .tsx => { t.describe s.sp with x := s.sp }
  | .txs => { t with sp := s.x }
  | .inx => { t.describe ((s.x + 1) % 256) with x := (s.x + 1) % 256 }
  | .iny => { t.describe ((s.y + 1) % 256) with y := (s.y + 1) % 256 }
  | .dex => { t.describe ((s.x + 255) % 256) with x := (s.x + 255) % 256 }
  | .dey => { t.describe ((s.y + 255) % 256) with y := (s.y + 255) % 256 }
  | .clc => { t with carry := false }
  | .sec => { t with carry := true }
  | .cli => { t with irqDisable := false }
  | .sei => { t with irqDisable := true }
  | .cld => { t with decimal := false }
  | .sed => { t with decimal := true }
  | .clv => { t with overflow := false }
  | .nop => t
  | .pha => t.push s.a
  | .php => t.push s.statusByte
  | .pla => { t.drop.describe s.top with a := s.top }
  | .plp => t.drop.loadStatus s.top
  | .bpl => s.branch (!s.negative)
  | .bmi => s.branch s.negative
  | .bvc => s.branch (!s.overflow)
  | .bvs => s.branch s.overflow
  | .bcc => s.branch (!s.carry)
  | .bcs => s.branch s.carry
  | .bne => s.branch (!s.zero)
  | .beq => s.branch s.zero
  | .jmp => { s with pc := s.address mode }
  | .jsr => { s.pushWord ((s.pc + 2) % 65536) with pc := s.address mode }
  | .rts => s.goBack 1
  | .rti => (s.drop.loadStatus s.top).goBack 0
  | .brk =>
    let t := (s.pushWord ((s.pc + 2) % 65536)).push s.statusByte
    { t with irqDisable := true, pc := t.word 0xFFFE }

def step (s : State) : Except Unimplemented State :=
  match decode (s.byte s.pc) with
  | some (op, mode) => .ok (s.exec op mode)
  | none => .error ⟨s.pc, s.byte s.pc⟩

end State

end Mos6502.Reference
