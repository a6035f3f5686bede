import Mos6502.Status

/-!
# Arithmetic and logic

Each operation takes the status before it and gives the result with the status after it. Arithmetic
is binary whatever the decimal flag says. Subtraction is addition of the complement, with the carry
as "no borrow", and a comparison is a subtraction that keeps only its flags and leaves the overflow
flag alone.
-/

namespace Mos6502.Alu

def bitValue (b : Bool) : UInt8 := if b then 1 else 0

def add (a b : UInt8) (s : Status) : UInt8 × Status :=
  let sum := a.toNat + b.toNat + s.carry.toNat
  let result := UInt8.ofNat sum
  (result,
    { s with
      carry := decide (sum > 0xFF)
      overflow := (a ^^^ result) &&& (b ^^^ result) &&& 0x80 != 0 }.describe result)

/-- The difference of two bytes, less one if the carry is clear. -/
def subtract (a b : UInt8) (s : Status) : UInt8 × Status := add a (b ^^^ 0xFF) s

/-- The flags of `a - b`: the carry says that `a` is not below `b`. The overflow flag is kept. -/
def compare (a b : UInt8) (s : Status) : Status :=
  { (add a (b ^^^ 0xFF) { s with carry := true }).2 with overflow := s.overflow }

/-- The bit test: zero describes `a &&& v`, sign and overflow are bits 7 and 6 of `v`. -/
def bitTest (a v : UInt8) (s : Status) : Status :=
  { s with zero := a &&& v == 0, negative := v &&& 0x80 != 0, overflow := v &&& 0x40 != 0 }

/-- Shift left; the top bit falls into the carry. -/
def shiftLeft (v : UInt8) (s : Status) : UInt8 × Status :=
  let result := v <<< 1
  (result, { s with carry := v &&& 0x80 != 0 }.describe result)

/-- Shift right; the lowest bit falls into the carry. -/
def shiftRight (v : UInt8) (s : Status) : UInt8 × Status :=
  let result := v >>> 1
  (result, { s with carry := v &&& 0x01 != 0 }.describe result)

def rotateLeft (v : UInt8) (s : Status) : UInt8 × Status :=
  let result := (v <<< 1) ||| bitValue s.carry
  (result, { s with carry := v &&& 0x80 != 0 }.describe result)

def rotateRight (v : UInt8) (s : Status) : UInt8 × Status :=
  let result := (v >>> 1) ||| (bitValue s.carry <<< 7)
  (result, { s with carry := v &&& 0x01 != 0 }.describe result)

def increment (v : UInt8) (s : Status) : UInt8 × Status := (v + 1, s.describe (v + 1))

def decrement (v : UInt8) (s : Status) : UInt8 × Status := (v - 1, s.describe (v - 1))

def signExtend (b : UInt8) : UInt16 := b.toInt8.toInt16.toUInt16

/-- Where a taken branch goes: the offset is signed and counts from behind the two-byte branch. -/
def branchTarget (pc : UInt16) (offset : UInt8) : UInt16 := pc + 2 + signExtend offset

end Mos6502.Alu
