import Mos6502.Memory

/-!
# Bank registers with a serial port

The bank registers of a serially programmed board are five bits wide, but a write delivers one bit.
Five writes make a group, lowest bit first, and the address of the fifth alone chooses the register.
A write with bit 7 set abandons the group.
-/

namespace Mos6502

/-- How a board arranges the two name tables. -/
inductive Mirroring where
  | singleScreenLower | singleScreenUpper | vertical | horizontal
deriving DecidableEq

namespace Mirroring

/-- The arrangement that the low two bits of a control register select. -/
def ofBits (bits : UInt8) : Mirroring :=
  if bits &&& 3 = 0 then singleScreenLower
  else if bits &&& 3 = 1 then singleScreenUpper
  else if bits &&& 3 = 2 then vertical
  else horizontal

def name : Mirroring → String
  | singleScreenLower => "SingleScreenLower"
  | singleScreenUpper => "SingleScreenUpper"
  | vertical => "Vertical"
  | horizontal => "Horizontal"

end Mirroring

/-- The bank registers, and the group of bits that is still being delivered. -/
structure BankConfig where
  /-- Control bits 0 and 1. -/
  mirroring : UInt8
  /-- Control bits 2 and 3. -/
  prgMode : UInt8
  /-- Control bit 4. -/
  chrMode : UInt8
  chrBank0 : UInt8
  chrBank1 : UInt8
  /-- The low four bits of the PRG register. -/
  prgBank : UInt8
  /-- Cartridge RAM answers. Once enabled it stays so. -/
  hasRam : Bool
  /-- The bits of the unfinished group, the first in bit 0. -/
  shift : UInt8
  /-- How many bits the unfinished group has. -/
  shiftCount : UInt8
deriving DecidableEq

namespace BankConfig

/-- The registers after power-on: the first window switchable, the last bank fixed. -/
def powerOn (hasRam : Bool) : BankConfig where
  mirroring := 0
  prgMode := 3
  chrMode := 0
  chrBank0 := 0
  chrBank1 := 0
  prgBank := 0
  hasRam := hasRam
  shift := 0
  shiftCount := 0

def abandon (c : BankConfig) : BankConfig := { c with shift := 0, shiftCount := 0 }

/-- The bits of the group after one more write. -/
def shifted (c : BankConfig) (v : UInt8) : UInt8 := c.shift ||| ((v &&& 1) <<< c.shiftCount)

/-- The five bits that a write completes, if it completes a group. -/
def completed? (c : BankConfig) (v : UInt8) : Option UInt8 :=
  if v &&& 0x80 = 0 ∧ c.shiftCount = 4 then some (c.shifted v &&& 0x1F) else none

/-- Put five bits into the register that the address selects. -/
def commit (c : BankConfig) (address : UInt16) (five : UInt8) : BankConfig :=
  if address < 0xA000 then
    { c with
      mirroring := five &&& 3
      prgMode := (five >>> 2) &&& 3
      chrMode := (five >>> 4) &&& 1 }
  else if address < 0xC000 then { c with chrBank0 := five }
  else if address < 0xE000 then { c with chrBank1 := five }
  else { c with prgBank := five &&& 0x0F, hasRam := c.hasRam || five &&& 0x10 != 0 }

/-- One write to the serial port. -/
def feed (c : BankConfig) (address : UInt16) (v : UInt8) : BankConfig :=
  if v &&& 0x80 ≠ 0 then c.abandon
  else
    match c.completed? v with
    | some five => (c.commit address five).abandon
    | none => { c with shift := c.shifted v, shiftCount := c.shiftCount + 1 }

/-- A register in as few hexadecimal digits as it needs, but at least `width`. -/
def column (name : String) (width : Nat) (v : UInt8) : String :=
  name ++ ": " ++ Text.hex width v.toNat

def describe (c : BankConfig) : String :=
  Text.join " " [column "Mirroring" 1 c.mirroring, column "PrgMode" 1 c.prgMode,
    column "ChrMode" 1 c.chrMode, column "Chr0" 2 c.chrBank0, column "Chr1" 2 c.chrBank1,
    column "Prg" 2 c.prgBank, "Ram: " ++ (if c.hasRam then "true" else "false")]

end BankConfig

end Mos6502
