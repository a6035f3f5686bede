import Mos6502.Board.Error

/-!
# Flat memory

A board that is one writable 64 KiB image, vectors and code included.
-/

namespace Mos6502

abbrev flatSize : Nat := 0x10000

/-- A board of plain memory. -/
structure Flat where
  memory : Vector UInt8 flatSize
deriving DecidableEq

namespace Flat

def ofImage (image : Array UInt8) : Except BoardError Flat :=
  if h : image.size = flatSize then .ok ⟨⟨image, h⟩⟩ else .error (.romSize image.size)

def read (b : Flat) (address : UInt16) : UInt8 := b.memory.get ⟨address.toNat, address.toNat_lt⟩

def write (b : Flat) (address : UInt16) (v : UInt8) : Flat :=
  ⟨b.memory.set address.toNat v address.toNat_lt⟩

/-- Write bytes one behind the other; those that would pass the top of memory are dropped. -/
def place (b : Flat) (start : Nat) : List UInt8 → Flat
  | [] => b
  | v :: rest =>
    if h : start < flatSize then place ⟨b.memory.set start v h⟩ (start + 1) rest else b

def ofProgram (base : UInt16) (code : List UInt8) : Flat :=
  place ⟨Vector.replicate flatSize 0⟩ base.toNat code

def setResetVector (b : Flat) (address : UInt16) : Flat :=
  (b.write 0xFFFC address.toUInt8).write 0xFFFD (address >>> 8).toUInt8

def restore (memory : Array UInt8) : EStateM BoardError Flat Unit := fun b =>
  if h : memory.size = flatSize then .ok () ⟨⟨memory, h⟩⟩
  else .error (.stateRamSize flatSize memory.size) b

def inspect (b : Flat) : String :=
  "FullRw \x7b len: " ++ toString b.memory.toArray.size ++ " \x7d"

end Flat

end Mos6502
