import Mos6502.Microcode.Instruction

/-!
# Disassembly

Instructions at the program counter as text. Everything is read off a copy of the processor and the
board, so rendering changes nothing; it fails only where a byte that the text shows cannot be read.
Rendering reads no byte behind the instruction.
-/

namespace Mos6502

/-- An operand as it is written in source, with a remark on what it stands for at present. -/
structure Operand where
  text : String
  remark : Option String := none
deriving DecidableEq

namespace Operand

/-- The remark that gives an effective address. -/
def atAddress (address : UInt16) : String := "@ " ++ Text.address address

def annotated (operand : Operand) : String :=
  match operand.remark with
  | some remark => operand.text ++ " " ++ remark
  | none => operand.text

/-- The operand with these operand bytes and this effective address; `content` is the byte there,
which only a plain page-zero operand shows. -/
def render (mode : AddressingMode) (byte : UInt8) (word address : UInt16) (content : UInt8) :
    Operand :=
  let short := "$" ++ Text.hexByte byte
  let long := Text.address word
  match mode with
  | .implied => { text := "" }
  | .accumulator => { text := "A" }
  | .immediate => { text := "#" ++ short }
  | .relative =>
    { text := Text.address address, remark := "(" ++ toString byte.toInt8.toInt ++ ")" }
  | .zeroPage => { text := short, remark := "= " ++ Text.hexByte content }
  | .zeroPageX => { text := short ++ ",X", remark := atAddress address }
  | .zeroPageY => { text := short ++ ",Y", remark := atAddress address }
  | .absolute => { text := long }
  | .absoluteX => { text := long ++ ",X", remark := atAddress address }
  | .absoluteY => { text := long ++ ",Y", remark := atAddress address }
  | .indirect => { text := "(" ++ long ++ ")", remark := atAddress address }
  | .indexedIndirect => { text := "(" ++ short ++ ",X)", remark := atAddress address }
  | .indirectIndexed => { text := "(" ++ short ++ "),Y", remark := atAddress address }

end Operand

namespace Core

def peekByte (core : Core) (address : UInt16) : Except BoardError UInt8 := core.board.read address

def peekWord (core : Core) (address : UInt16) : Except BoardError UInt16 :=
  (Microcode.readWord address).peek core

def operand (core : Core) (mode : AddressingMode) : Except BoardError Operand := do
  let address ← mode.resolve.peek core
  let first := core.registers.pc + 1
  let byte ← if mode.size = 1 then pure 0 else core.peekByte first
  let word ← if mode.size = 3 then core.peekWord first else pure byte.toUInt16
  let content ← if mode = .zeroPage then core.peekByte address else pure 0
  pure (.render mode byte word address content)

def instructionBytes (core : Core) (size : Nat) : Except BoardError (List UInt8) :=
  (List.range size).mapM fun i => core.peekByte (core.registers.pc + UInt16.ofNat i)

/-- The addresses of the occupied stack slots, oldest first. -/
def stackAddresses (core : Core) : List UInt16 :=
  (List.range (0xFF - core.registers.sp.toNat)).map fun i => 0x01FF - UInt16.ofNat i

/-- The occupied stack bytes, oldest first. -/
def stackBytes (core : Core) : Except BoardError (List UInt8) :=
  core.stackAddresses.mapM core.peekByte

def stackText (core : Core) : Except BoardError String :=
  core.stackBytes.map fun bytes => Text.join " " (bytes.map fun b => "$" ++ Text.hexByte b)

def hexDump (bytes : List UInt8) : String := Text.join " " (bytes.map Text.hexByte)

def source (i : Instruction) (operand : Operand) : String :=
  Text.trimRight (i.mnemonic ++ " " ++ operand.text)

def listingLine (core : Core) (i : Instruction) (offset : Nat) (bytes : List UInt8) :
    Except BoardError String :=
  (core.operand i.mode).map fun operand =>
    "[$" ++ Text.hex 6 offset ++ ":" ++ Text.address core.registers.pc ++ "] " ++
      source i operand ++ " ; " ++ hexDump bytes

/-- The trace line for an instruction at the program counter: the number of instructions before it,
its address and bytes, its text, the registers and the stack. -/
def traceLine (core : Core) (ticks : Nat) (i : Instruction) : Except BoardError String := do
  let bytes ← core.instructionBytes i.size
  let operand ← core.operand i.mode
  let stack ← core.stackText
  pure (Text.trimRight (Text.join " " [
    "[" ++ Text.decimal 6 ticks ++ "]", Text.address core.registers.pc ++ ":",
    Text.padRight 9 (hexDump bytes), i.mnemonic, Text.padRight 17 operand.annotated,
    core.registers.line, stack]))

end Core

end Mos6502
