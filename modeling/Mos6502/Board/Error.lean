import Mos6502.Board.BankConfig

/-!
# What can go wrong on a board

A board refuses images and snapshots that do not fit it. Once it is built, the only failure is a
read through a bank register that points past the image.
-/

namespace Mos6502

/-- The kinds of board. -/
inductive BoardKind where
  | nrom | mmc1 | flat
deriving DecidableEq

def BoardKind.name : BoardKind → String
  | nrom => "NROM"
  | mmc1 => "MMC1"
  | flat => "FullRW"

inductive BoardError where
  /-- The bank registers map an address to an offset past the end of the image. -/
  | offsetOutOfRange (address : UInt16) (offset size : Nat) (banks : BankConfig)
  /-- An image of a size that the board does not take. -/
  | romSize (found : Nat)
  /-- A snapshot of another kind of board. -/
  | stateMismatch (expected : BoardKind)
  /-- A snapshot whose RAM has another length than the board's. -/
  | stateRamSize (expected found : Nat)
deriving DecidableEq

def BoardError.message : BoardError → String
  | offsetOutOfRange address offset size banks =>
    "address out of range for ROM: " ++ Text.address address ++ " -> 0x" ++ Text.hex 6 offset ++
      "; len: 0x" ++ Text.hex 6 size ++ " [" ++ banks.describe ++ "]"
  | romSize found => "ROM data is incorrect size: " ++ toString found ++ " bytes"
  | stateMismatch expected => "snapshot does not belong to a " ++ expected.name ++ " mapper"
  | stateRamSize expected found =>
    "snapshot RAM is " ++ toString found ++ " bytes, expected " ++ toString expected

end Mos6502
