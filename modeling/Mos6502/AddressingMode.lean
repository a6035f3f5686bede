/-!
# Addressing modes

How an instruction names its operand. The mode alone fixes the length of the instruction.
-/

namespace Mos6502

/-- The thirteen addressing modes. -/
inductive AddressingMode where
  /-- No operand. -/
  | implied
  /-- The operand is the accumulator. -/
  | accumulator
  /-- The operand is the byte after the opcode. -/
  | immediate
  /-- A signed distance from behind the instruction. -/
  | relative
  | zeroPage
  | zeroPageX
  | zeroPageY
  | absolute
  | absoluteX
  | absoluteY
  /-- The word stored at an absolute address. -/
  | indirect
  /-- The word stored in page zero, at the operand plus X. -/
  | indexedIndirect
  /-- The word stored in page zero at the operand, plus Y. -/
  | indirectIndexed
deriving DecidableEq

namespace AddressingMode

def all : List AddressingMode :=
  [implied, accumulator, immediate, relative, zeroPage, zeroPageX, zeroPageY, absolute, absoluteX,
    absoluteY, indirect, indexedIndirect, indirectIndexed]

def size : AddressingMode → Nat
  | implied | accumulator => 1
  | absolute | absoluteX | absoluteY | indirect => 3
  | immediate | relative | zeroPage | zeroPageX | zeroPageY | indexedIndirect
  | indirectIndexed => 2

def name : AddressingMode → String
  | implied => "Implied"
  | accumulator => "Accumulator"
  | immediate => "Immediate"
  | relative => "Relative"
  | zeroPage => "ZeroPage"
  | zeroPageX => "ZeroPage,X"
  | zeroPageY => "ZeroPage,Y"
  | absolute => "Absolute"
  | absoluteX => "Absolute,X"
  | absoluteY => "Absolute,Y"
  | indirect => "Indirect"
  | indexedIndirect => "(Indirect,X)"
  | indirectIndexed => "(Indirect),Y"

end AddressingMode

end Mos6502
