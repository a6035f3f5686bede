import Mos6502.Board.Error

/-!
# The board with serial bank switching

The upper half of the address space shows two 16 KiB banks of a larger image. Writes there go to
the serial port of the bank registers. The registers can name banks that the image does not have;
reading such a window is an error, not a wrap. Banks and offsets are natural numbers here. In 32-bit
words they are the same for every image of fewer than `2 ^ 32` bytes (`Mmc1.wordOffset?_eq`).
-/

namespace Mos6502

abbrev bankSize : Nat := 0x4000

/-- A board with serially programmed bank registers. -/
structure Mmc1 where
  prg : Array UInt8
  banks : BankConfig
  ram : WorkRam
  cartRam : CartRam
  size_pos : 0 < prg.size
  size_mod : prg.size % bankSize = 0

namespace Mmc1

/-- A board around an image of whole banks, as it powers on. -/
def ofImage (prg : Array UInt8) (hasRam : Bool) : Except BoardError Mmc1 :=
  if h : 0 < prg.size ∧ prg.size % bankSize = 0 then
    .ok ⟨prg, .powerOn hasRam, .zeros, .zeros, h.1, h.2⟩
  else .error (.romSize prg.size)

def lastBank (b : Mmc1) : Nat := b.prg.size / bankSize - 1

/-- The offset in the image that the bank registers give an address of the ROM window. Modes 0 and
1 switch both windows at once, mode 2 fixes the first bank low, any other fixes the last bank
high. -/
def romOffset (b : Mmc1) (address : UInt16) : Nat :=
  let distance := address.toNat - 0x8000
  let bank := b.banks.prgBank.toNat
  if b.banks.prgMode ≤ 1 then (bank &&& 0x0E) * bankSize + distance
  else if b.banks.prgMode = 2 then
    if distance < bankSize then distance else bank * bankSize + (distance - bankSize)
  else
    if distance < bankSize then bank * bankSize + distance
    else b.lastBank * bankSize + (distance - bankSize)

def outOfRange (b : Mmc1) (address : UInt16) : BoardError :=
  .offsetOutOfRange address (b.romOffset address) b.prg.size b.banks

def read (b : Mmc1) (address : UInt16) : Except BoardError UInt8 :=
  match Region.of address with
  | .workRam => .ok (b.ram.read address)
  | .openBus => .ok openBus
  | .cartRam => .ok (if b.banks.hasRam then b.cartRam.read address else openBus)
  | .cartRom =>
    if h : b.romOffset address < b.prg.size then .ok b.prg[b.romOffset address]
    else .error (b.outOfRange address)

/-- RAM takes writes, cartridge RAM only when enabled; the ROM window is the serial port. -/
def write (b : Mmc1) (address : UInt16) (v : UInt8) : Mmc1 :=
  match Region.of address with
  | .workRam => { b with ram := b.ram.write address v }
  | .openBus => b
  | .cartRam => if b.banks.hasRam then { b with cartRam := b.cartRam.write address v } else b
  | .cartRom => { b with banks := b.banks.feed address v }

def committed? (b : Mmc1) (address : UInt16) (v : UInt8) : Option UInt8 :=
  match Region.of address with
  | .cartRom => b.banks.completed? v
  | .workRam | .openBus | .cartRam => none

def locate (b : Mmc1) (address : UInt16) : Except BoardError Location :=
  if address < 0x8000 then .ok (.ofRam address)
  else if b.romOffset address < b.prg.size then .ok ⟨b.romOffset address, true⟩
  else .error (b.outOfRange address)

/-- Zero all RAM. The bank registers stay. -/
def clearRam (b : Mmc1) : Mmc1 := { b with ram := .zeros, cartRam := .zeros }

/-- Put saved RAM and bank registers back; nothing changes unless both RAMs fit. -/
def restore (banks : BankConfig) (ram cartRam : Array UInt8) : EStateM BoardError Mmc1 Unit :=
  fun b =>
    match CartRam.ofBytes? cartRam, WorkRam.ofBytes? ram with
    | some cartRam, some ram => .ok () { b with banks := banks, ram := ram, cartRam := cartRam }
    | some _, none => .error (.stateRamSize workRamSize ram.size) b
    | none, _ => .error (.stateRamSize cartRamSize cartRam.size) b

end Mmc1

end Mos6502
