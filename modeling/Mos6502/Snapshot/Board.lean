import Mos6502.Board.Basic
import Mos6502.Snapshot.Format

/-!
# Written board snapshots

A snapshot is one of three kinds, one for each board: a record of RAM contents and, on a board with
bank registers, of these. Only the cartridge RAM of a board without banks may be absent.
-/

namespace Mos6502

namespace BankConfig

def keys : List String := ["mirroring", "prg_bank_mode", "chr_bank_mode", "chr_bank0", "chr_bank1",
  "prg_bank", "has_ram", "shift", "shift_count"]

def write (format : Format) (c : BankConfig) : Document := format.record [
  ("mirroring", format.byte c.mirroring), ("prg_bank_mode", format.byte c.prgMode),
  ("chr_bank_mode", format.byte c.chrMode), ("chr_bank0", format.byte c.chrBank0),
  ("chr_bank1", format.byte c.chrBank1), ("prg_bank", format.byte c.prgBank),
  ("has_ram", format.bool c.hasRam), ("shift", format.byte c.shift),
  ("shift_count", format.byte c.shiftCount)]

def read? (format : Format) (given : Option Document) : Option BankConfig := do
  match ← format.fields? keys given with
  | [mirroring, prgMode, chrMode, chrBank0, chrBank1, prgBank, hasRam, shift, shiftCount] =>
    pure {
      mirroring := ← format.byte? mirroring
      prgMode := ← format.byte? prgMode
      chrMode := ← format.byte? chrMode
      chrBank0 := ← format.byte? chrBank0
      chrBank1 := ← format.byte? chrBank1
      prgBank := ← format.byte? prgBank
      hasRam := ← format.bool? hasRam
      shift := ← format.byte? shift
      shiftCount := ← format.byte? shiftCount }
  | _ => none

end BankConfig

namespace Snapshot

variable (format : Format)

def write : Snapshot → Document
  | nrom ram cartRam => format.tagged "Nrom"
      (format.record [("ram", format.bytes ram), ("cart_ram", format.optional cartRam)])
  | mmc1 banks ram cartRam => format.tagged "Mmc1"
      (format.record [("config", banks.write format), ("ram", format.bytes ram),
        ("cart_ram", format.bytes cartRam)])
  | flat memory => format.tagged "FullRw" (format.record [("memory", format.bytes memory)])

def readNrom? (d : Document) : Option Snapshot := do
  match ← format.fields? ["ram", "cart_ram"] (some d) with
  | [ram, cartRam] => pure (nrom (← format.bytes? ram) (← format.optional? cartRam))
  | _ => none

def readMmc1? (d : Document) : Option Snapshot := do
  match ← format.fields? ["config", "ram", "cart_ram"] (some d) with
  | [config, ram, cartRam] =>
    pure (mmc1 (← BankConfig.read? format config) (← format.bytes? ram) (← format.bytes? cartRam))
  | _ => none

def readFlat? (d : Document) : Option Snapshot := do
  match ← format.fields? ["memory"] (some d) with
  | [memory] => pure (flat (← format.bytes? memory))
  | _ => none

def names : List String := ["Nrom", "Mmc1", "FullRw"]

def read? (d : Document) : Option Snapshot := do
  let (name, d) ← format.tagged? names d
  if name = "Nrom" then readNrom? format d
  else if name = "Mmc1" then readMmc1? format d
  else readFlat? format d

end Snapshot

end Mos6502
