import Mos6502.Status

/-!
# The register file

Everything architecturally visible inside the processor, as a plain value: saving a register file
is keeping it, and restoring it is putting it back.
-/

namespace Mos6502

/-- Accumulator, index registers, stack pointer, program counter and status. -/
structure Registers where
  a : UInt8
  x : UInt8
  y : UInt8
  sp : UInt8
  pc : UInt16
  status : Status
deriving DecidableEq

namespace Registers

/-- Power-up values: the stack pointer at `$FD`, interrupts disabled, all else zero. -/
def powerOn : Registers where
  a := 0
  x := 0
  y := 0
  sp := 0xFD
  pc := 0
  status := Status.only .irqDisable

instance : Inhabited Registers := ⟨powerOn⟩

def advance (r : Registers) (delta : UInt16) : Registers := { r with pc := r.pc + delta }

/-- The address of the free stack slot. The stack lives in page one. -/
def stackAddress (r : Registers) : UInt16 := 0x0100 ||| r.sp.toUInt16

def describe (r : Registers) (v : UInt8) : Registers := { r with status := r.status.describe v }

/-- A register in hexadecimal and, in brackets, in decimal. -/
def column (name : String) (v : UInt8) : String :=
  name ++ ": " ++ Text.hexByte v ++ " (" ++ Text.padRight 3 (toString v.toNat) ++ ")"

def line (r : Registers) : String :=
  Text.join " " [column "A" r.a, column "X" r.x, column "Y" r.y, column "SP" r.sp,
    "[" ++ Text.hexByte r.status.toByte ++ "]", r.status.letters]

def inspect (r : Registers) : String :=
  "CpuState \x7b a: " ++ toString r.a.toNat ++ ", x: " ++ toString r.x.toNat ++
    ", y: " ++ toString r.y.toNat ++ ", sp: " ++ toString r.sp.toNat ++
    ", pc: " ++ toString r.pc.toNat ++ ", status: " ++ r.status.inspect ++ " \x7d"

end Registers

end Mos6502
