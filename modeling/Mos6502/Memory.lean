import Mos6502.Text.Column

/-!
# Memory behind the address bus

The windows of the address space of a cartridge board, and the two RAM stores behind them. A store
decodes only its low address lines, so the 2 KiB of work RAM appear four times in their window.
-/

namespace Mos6502

/-- The windows of the address space. -/
inductive Region where
  /-- `$0000` to `$1FFF`. -/
  | workRam
  /-- `$2000` to `$5FFF`: reads find nothing, writes are dropped. -/
  | openBus
  /-- `$6000` to `$7FFF`. -/
  | cartRam
  /-- `$8000` to `$FFFF`: program ROM, or the registers of the board for writes. -/
  | cartRom
deriving DecidableEq

def Region.of (address : UInt16) : Region :=
  if address < 0x2000 then .workRam
  else if address < 0x6000 then .openBus
  else if address < 0x8000 then .cartRam
  else .cartRom

/-- The value of a read that no store answers. -/
def openBus : UInt8 := 0

abbrev workRamSize : Nat := 0x0800

abbrev cartRamSize : Nat := 0x2000

/-- The work RAM of the console. -/
structure WorkRam where
  bytes : Vector UInt8 workRamSize
deriving DecidableEq

namespace WorkRam

def zeros : WorkRam := ⟨Vector.replicate workRamSize 0⟩

/-- The cell behind an address: the low eleven address lines. -/
def index (address : UInt16) : Fin workRamSize :=
  ⟨address.toNat % workRamSize, Nat.mod_lt _ (by decide)⟩

def read (ram : WorkRam) (address : UInt16) : UInt8 := ram.bytes[index address]

def write (ram : WorkRam) (address : UInt16) (v : UInt8) : WorkRam :=
  ⟨ram.bytes.set (index address) v⟩

/-- Work RAM with the given contents, if they have the right length. -/
def ofBytes? (bytes : Array UInt8) : Option WorkRam :=
  if h : bytes.size = workRamSize then some ⟨⟨bytes, h⟩⟩ else none

def inspect (ram : WorkRam) : String :=
  "Ram \x7b nonzero_bytes: " ++ toString (ram.bytes.toArray.foldl
    (fun n b => if b == 0 then n else n + 1) 0) ++ " \x7d"

end WorkRam

structure CartRam where
  bytes : Vector UInt8 cartRamSize
deriving DecidableEq

namespace CartRam

def zeros : CartRam := ⟨Vector.replicate cartRamSize 0⟩

/-- The cell behind an address: the low thirteen address lines. -/
def index (address : UInt16) : Fin cartRamSize :=
  ⟨address.toNat % cartRamSize, Nat.mod_lt _ (by decide)⟩

def read (ram : CartRam) (address : UInt16) : UInt8 := ram.bytes[index address]

def write (ram : CartRam) (address : UInt16) (v : UInt8) : CartRam :=
  ⟨ram.bytes.set (index address) v⟩

/-- Cartridge RAM with the given contents, if they have the right length. -/
def ofBytes? (bytes : Array UInt8) : Option CartRam :=
  if h : bytes.size = cartRamSize then some ⟨⟨bytes, h⟩⟩ else none

end CartRam

/-- A place in the store that answers an address: a ROM image, or anything else. -/
structure Location where
  offset : Nat
  inRom : Bool
deriving DecidableEq

/-- The place of an address below the ROM window. An address that no store answers stands for
itself. -/
def Location.ofRam (address : UInt16) : Location :=
  match Region.of address with
  | .workRam => ⟨WorkRam.index address, false⟩
  | .cartRam => ⟨CartRam.index address, false⟩
  | .openBus | .cartRom => ⟨address.toNat, false⟩

end Mos6502
