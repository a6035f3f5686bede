import Mos6502.Board.Basic

/-!
# Cartridge images

An iNES image is a header of sixteen bytes, a trainer of 512 if the header says so, the program ROM
in banks of 16 KiB, and data for other chips, which is ignored. The header names the board. Every
board gets cartridge RAM, since the format has no reliable way to say that there is none.
-/

namespace Mos6502

inductive CartridgeError where
  | tooShort (found : Nat)
  | badMagic
  | truncated (needed available : Nat)
  | unsupportedMapper (id : UInt8)
  | board (error : BoardError)
deriving DecidableEq

def CartridgeError.message : CartridgeError → String
  | tooShort found => "image too short for an iNES header (" ++ toString found ++ " bytes)"
  | badMagic => "missing iNES magic"
  | truncated needed available =>
    "image truncated: PRG data needs " ++ toString needed ++ " bytes, " ++ toString available ++
      " available"
  | unsupportedMapper id => "unsupported mapper " ++ toString id.toNat
  | board error => error.message

namespace Cartridge

def headerSize : Nat := 16

def trainerSize : Nat := 512

structure Header where
  /-- The number of the board. -/
  mapperId : UInt8
  /-- The length of the program ROM in bytes. -/
  prgSize : Nat
  battery : Bool
  hasTrainer : Bool
deriving DecidableEq

namespace Header

/-- The header with this number of banks and these two bytes of flags. The board's number is split
over the upper halves of the flags. -/
def ofFlags (banks flags6 flags7 : UInt8) : Header where
  mapperId := (flags7 &&& (0xF0 : UInt8)) ||| (flags6 >>> (4 : UInt8))
  prgSize := banks.toNat * bankSize
  battery := flags6 &&& 0x02 != 0
  hasTrainer := flags6 &&& 0x04 != 0

def ofBytes (data : Array UInt8) : Except CartridgeError Header :=
  if h : data.size < headerSize then .error (.tooShort data.size)
  else
    have size : 16 ≤ data.size := Nat.le_of_not_lt h
    if data[0] = 0x4E ∧ data[1] = 0x45 ∧ data[2] = 0x53 ∧ data[3] = 0x1A then
      .ok (ofFlags data[4] data[6] data[7])
    else .error .badMagic

def prgStart (header : Header) : Nat := headerSize + if header.hasTrainer then trainerSize else 0

def describe (header : Header) : String :=
  "iNES mapper " ++ toString header.mapperId.toNat ++ " with " ++
    toString (header.prgSize / 1024) ++ " KiB PRG"

end Header

end Cartridge

structure Cartridge where
  header : Cartridge.Header
  prg : Array UInt8

namespace Cartridge

/-- Read a cartridge image. What follows the program ROM is ignored. -/
def ofBytes (data : Array UInt8) : Except CartridgeError Cartridge := do
  let header ← Header.ofBytes data
  let needed := header.prgStart + header.prgSize
  if data.size < needed then .error (.truncated needed data.size)
  else .ok ⟨header, data.extract header.prgStart needed⟩

/-- The board that the cartridge names, around its program ROM. -/
def board (cartridge : Cartridge) : Except CartridgeError Board :=
  if cartridge.header.mapperId = 0 then
    ((Nrom.ofImage cartridge.prg true).map .nrom).mapError .board
  else if cartridge.header.mapperId = 1 then
    ((Mmc1.ofImage cartridge.prg true).map .mmc1).mapError .board
  else .error (.unsupportedMapper cartridge.header.mapperId)

def load (data : Array UInt8) : Except CartridgeError Board := ofBytes data >>= board

end Cartridge

end Mos6502
