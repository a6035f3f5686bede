import Mos6502.Board.Error

/-!
# The board without bank switching

One or two 16 KiB banks of ROM fill the upper half of the address space, a single bank twice. The
cartridge may carry RAM.
-/

namespace Mos6502

/-- A board with fixed ROM. -/
structure Nrom where
  prg : Array UInt8
  ram : WorkRam
  cartRam : Option CartRam
  size_prg : prg.size = 0x4000 ∨ prg.size = 0x8000

namespace Nrom

def ofImage (prg : Array UInt8) (hasRam : Bool) : Except BoardError Nrom :=
  if h : prg.size = 0x4000 ∨ prg.size = 0x8000 then
    .ok ⟨prg, .zeros, if hasRam then some .zeros else none, h⟩
  else .error (.romSize prg.size)

/-- The place of an address in the ROM: the address lines that the image decodes. -/
def romIndex (b : Nrom) (address : UInt16) : Fin b.prg.size :=
  ⟨address.toNat % b.prg.size, Nat.mod_lt _ (by have := b.size_prg; omega)⟩

def read (b : Nrom) (address : UInt16) : UInt8 :=
  match Region.of address with
  | .workRam => b.ram.read address
  | .openBus => openBus
  | .cartRam =>
    match b.cartRam with
    | some ram => ram.read address
    | none => openBus
  | .cartRom => b.prg[b.romIndex address]

/-- Only RAM takes writes. -/
def write (b : Nrom) (address : UInt16) (v : UInt8) : Nrom :=
  match Region.of address with
  | .workRam => { b with ram := b.ram.write address v }
  | .cartRam => { b with cartRam := b.cartRam.map (·.write address v) }
  | .openBus | .cartRom => b

def locate (b : Nrom) (address : UInt16) : Location :=
  if address < 0x8000 then .ofRam address else ⟨b.romIndex address, true⟩

def clearRam (b : Nrom) : Nrom :=
  { b with ram := .zeros, cartRam := b.cartRam.map fun _ => .zeros }

/-- Put saved cartridge RAM back. A cartridge without RAM has nothing to put back. -/
def restoreCartRam (saved : Option (Array UInt8)) : EStateM BoardError Nrom Unit := fun b =>
  match b.cartRam, saved with
  | some _, some bytes =>
    match CartRam.ofBytes? bytes with
    | some ram => .ok () { b with cartRam := some ram }
    | none => .error (.stateRamSize cartRamSize bytes.size) b
  | none, none => .ok () b
  | some _, none => .error (.stateRamSize cartRamSize 0) b
  | none, some bytes => .error (.stateRamSize 0 bytes.size) b

def restoreRam (saved : Array UInt8) : EStateM BoardError Nrom Unit := fun b =>
  match WorkRam.ofBytes? saved with
  | some ram => .ok () { b with ram := ram }
  | none => .error (.stateRamSize workRamSize saved.size) b

/-- Put saved RAM back, the cartridge first: when the work RAM does not fit, the cartridge RAM has
already been replaced. -/
def restore (ram : Array UInt8) (cartRam : Option (Array UInt8)) :
    EStateM BoardError Nrom Unit := do
  restoreCartRam cartRam
  restoreRam ram

def describe (b : Nrom) : String := "NROM-" ++ toString (b.prg.size / 0x400 * 8)

end Nrom

end Mos6502
