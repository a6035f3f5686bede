import Mos6502.Registers
import Mos6502.Snapshot.Format

/-!
# Written register files

A register file is a record of five numbers and the status flags.
-/

namespace Mos6502.Registers

def keys : List String := ["a", "x", "y", "sp", "pc", "status"]

def write (format : Format) (r : Registers) : Document := format.record [
  ("a", format.byte r.a), ("x", format.byte r.x), ("y", format.byte r.y),
  ("sp", format.byte r.sp), ("pc", format.word r.pc), ("status", format.flags r.status)]

def read? (format : Format) (d : Document) : Option Registers := do
  match ← format.fields? keys (some d) with
  | [a, x, y, sp, pc, status] =>
    pure {
      a := ← format.byte? a
      x := ← format.byte? x
      y := ← format.byte? y
      sp := ← format.byte? sp
      pc := ← format.word? pc
      status := ← format.flags? status }
  | _ => none

end Mos6502.Registers
