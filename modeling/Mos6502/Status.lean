import Mos6502.Text.Column

/-!
# The processor status

Six condition flags and two framing bits that exist only in a status byte on the stack. As a byte,
bit 0 is the carry and bit 7 the sign; `ofByte_toByte` and `toByte_ofByte` say that no bit is lost
either way.
-/

namespace Mos6502

/-- The eight bits of a status byte, from bit 0 upwards. `breakBit` and `unused` are the framing
bits: pushes set them, and a pulled status drops them. -/
inductive Flag where
  | carry | zero | irqDisable | decimal | breakBit | unused | overflow | negative
deriving DecidableEq

namespace Flag

def all : List Flag :=
  [carry, zero, irqDisable, decimal, breakBit, unused, overflow, negative]

def bit : Flag → Nat
  | carry => 0 | zero => 1 | irqDisable => 2 | decimal => 3
  | breakBit => 4 | unused => 5 | overflow => 6 | negative => 7

def name : Flag → String
  | carry => "CARRY" | zero => "ZERO" | irqDisable => "IRQ_DISABLE" | decimal => "DECIMAL"
  | breakBit => "BREAK" | unused => "UNUSED" | overflow => "OVERFLOW" | negative => "NEGATIVE"

end Flag

/-- A status register, or any set of status bits. -/
structure Status where
  carry : Bool := false
  zero : Bool := false
  irqDisable : Bool := false
  decimal : Bool := false
  breakBit : Bool := false
  unused : Bool := false
  overflow : Bool := false
  negative : Bool := false
deriving DecidableEq, Inhabited

namespace Status

def get (s : Status) : Flag → Bool
  | .carry => s.carry | .zero => s.zero | .irqDisable => s.irqDisable | .decimal => s.decimal
  | .breakBit => s.breakBit | .unused => s.unused | .overflow => s.overflow
  | .negative => s.negative

def set (s : Status) (flag : Flag) (on : Bool) : Status :=
  match flag with
  | .carry => { s with carry := on }
  | .zero => { s with zero := on }
  | .irqDisable => { s with irqDisable := on }
  | .decimal => { s with decimal := on }
  | .breakBit => { s with breakBit := on }
  | .unused => { s with unused := on }
  | .overflow => { s with overflow := on }
  | .negative => { s with negative := on }

def only (flag : Flag) : Status := Status.set {} flag true

/-- The bits of a byte, bit 0 the carry. -/
def ofByte (b : UInt8) : Status where
  carry := b &&& 0x01 != 0
  zero := b &&& 0x02 != 0
  irqDisable := b &&& 0x04 != 0
  decimal := b &&& 0x08 != 0
  breakBit := b &&& 0x10 != 0
  unused := b &&& 0x20 != 0
  overflow := b &&& 0x40 != 0
  negative := b &&& 0x80 != 0

def toByte (s : Status) : UInt8 :=
  (if s.carry then 0x01 else 0) ||| (if s.zero then 0x02 else 0) |||
  (if s.irqDisable then 0x04 else 0) ||| (if s.decimal then 0x08 else 0) |||
  (if s.breakBit then 0x10 else 0) ||| (if s.unused then 0x20 else 0) |||
  (if s.overflow then 0x40 else 0) ||| (if s.negative then 0x80 else 0)

@[simp]
theorem ofByte_toByte (s : Status) : ofByte s.toByte = s := by
  rcases s with ⟨c, z, i, d, b, u, v, n⟩
  cases c <;> cases z <;> cases i <;> cases d <;> cases b <;> cases u <;> cases v <;> cases n <;>
    rfl

@[simp]
theorem toByte_ofByte (b : UInt8) : (ofByte b).toByte = b := by
  have all : ∀ i : Fin 256, (ofByte (UInt8.ofNat i)).toByte = UInt8.ofNat i := by
    decide +kernel
  simpa using all ⟨b.toNat, b.toNat_lt⟩

def contains (s mask : Status) : Bool :=
  Flag.all.all fun flag => !mask.get flag || s.get flag

def union (s t : Status) : Status where
  carry := s.carry || t.carry
  zero := s.zero || t.zero
  irqDisable := s.irqDisable || t.irqDisable
  decimal := s.decimal || t.decimal
  breakBit := s.breakBit || t.breakBit
  unused := s.unused || t.unused
  overflow := s.overflow || t.overflow
  negative := s.negative || t.negative

def without (s t : Status) : Status where
  carry := s.carry && !t.carry
  zero := s.zero && !t.zero
  irqDisable := s.irqDisable && !t.irqDisable
  decimal := s.decimal && !t.decimal
  breakBit := s.breakBit && !t.breakBit
  unused := s.unused && !t.unused
  overflow := s.overflow && !t.overflow
  negative := s.negative && !t.negative

/-- The status a pulled byte stands for: the framing bits are dropped. -/
def ofPulled (b : UInt8) : Status := { ofByte b with breakBit := false, unused := false }

/-- The byte that software pushes: both framing bits set. -/
def pushedBySoftware (s : Status) : UInt8 :=
  { s with breakBit := true, unused := true : Status }.toByte

/-- The byte that an interrupt pushes: bit 5 set, bit 4 as it is. -/
def pushedByInterrupt (s : Status) : UInt8 := { s with unused := true : Status }.toByte

/-- Zero and sign describe `v`; the other flags stay. -/
def describe (s : Status) (v : UInt8) : Status :=
  { s with zero := v == 0, negative := v &&& 0x80 != 0 }

def names (s : Status) : List String := (Flag.all.filter s.get).map Flag.name

/-- The flags as a row of letters: a dash for each clear flag and for the two framing bits. -/
def letters (s : Status) : String :=
  String.ofList [
    if s.negative then 'N' else '-', if s.overflow then 'V' else '-', '-', '-',
    if s.decimal then 'D' else '-', if s.irqDisable then 'I' else '-',
    if s.zero then 'Z' else '-', if s.carry then 'C' else '-']

def inspect (s : Status) : String :=
  "Status(" ++ (if s.names.isEmpty then "0x0" else Text.join " | " s.names) ++ ")"

end Status

end Mos6502
