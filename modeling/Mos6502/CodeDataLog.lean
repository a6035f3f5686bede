import Mos6502.Sink
import Mos6502.Text.Blank
import Std.Data.TreeMap

/-!
# The code/data log

Which bytes of a ROM image were executed and which were read as data, by their offset in the image,
so that a byte seen through several banks counts once. Beside it stands a listing: one line for
each offset at which an instruction was executed, the first one seen there.
-/

namespace Mos6502

/-- How a byte was used, one bit for each use. Bit 0 stands for code and bit 1 for data; the others
have no meaning, but a log keeps them too. -/
structure Usage where
  bits : UInt8 := 0
deriving DecidableEq, Inhabited

namespace Usage

def executed : Usage := ⟨0x01⟩

def loaded : Usage := ⟨0x02⟩

def code (u : Usage) : Bool := u.bits &&& 0x01 != 0

def data (u : Usage) : Bool := u.bits &&& 0x02 != 0

def union (u v : Usage) : Usage := ⟨u.bits ||| v.bits⟩

@[simp]
theorem code_executed : executed.code = true := rfl

@[simp]
theorem data_executed : executed.data = false := rfl

@[simp]
theorem code_loaded : loaded.code = false := rfl

@[simp]
theorem data_loaded : loaded.data = true := rfl

@[simp]
theorem code_default : Usage.code {} = false := rfl

@[simp]
theorem data_default : Usage.data {} = false := rfl

/-- A union has the bits of both. -/
theorem bits_union_and (u v : Usage) (mask : UInt8) :
    (u.union v).bits &&& mask = (u.bits &&& mask) ||| (v.bits &&& mask) :=
  UInt8.toNat_inj.mp (by simp [union, Nat.and_or_distrib_right])

@[simp]
theorem code_union (u v : Usage) : (u.union v).code = (u.code || v.code) := by
  rw [Bool.eq_iff_iff, code, bits_union_and]
  simp [code, ← Decidable.not_and_iff_or_not]

@[simp]
theorem data_union (u v : Usage) : (u.union v).data = (u.data || v.data) := by
  rw [Bool.eq_iff_iff, data, bits_union_and]
  simp [data, ← Decidable.not_and_iff_or_not]

end Usage

/-- The uses of each marked offset, and the listing. -/
structure CodeDataLog where
  uses : Std.TreeMap Nat Usage := {}
  lines : Std.TreeMap Nat String := {}

namespace CodeDataLog

def empty : CodeDataLog := {}

def mark (log : CodeDataLog) (offset : Nat) (u : Usage) : CodeDataLog :=
  { log with uses := log.uses.insert offset ((log.uses.getD offset {}).union u) }

def usage (log : CodeDataLog) (offset : Nat) : Usage := log.uses.getD offset {}

def isVisited (log : CodeDataLog) (offset : Nat) : Bool := log.lines.contains offset

/-- List an instruction, unless its offset has a line already. -/
def visit (log : CodeDataLog) (offset : Nat) (line : String) : CodeDataLog :=
  { log with lines := log.lines.insertIfNew offset line }

def isEmpty (log : CodeDataLog) : Bool := log.uses.isEmpty && log.lines.isEmpty

def visited (log : CodeDataLog) : List String := log.lines.values

/-- One byte for each offset up to the last that was marked. -/
def toBytes (log : CodeDataLog) : List UInt8 :=
  match log.uses.maxKey? with
  | none => []
  | some last => (List.range (last + 1)).map fun offset => (log.usage offset).bits

/-- Instructions after which the listing starts a new block. -/
def endsBlock (mnemonic : String) : Bool :=
  mnemonic == "RTS" || mnemonic == "RTI" || mnemonic == "BRK" || mnemonic == "JMP"

/-- The mnemonic of a line: what stands between its first two spaces. -/
def lineMnemonic (line : String) : String :=
  match Text.splitOn ' ' line.toList with
  | _ :: mnemonic :: _ => String.ofList mnemonic
  | _ => ""

/-- A line of the listing as it is written to a file: a new line after it, and an empty line where
a block ends. -/
def linePieces (line : String) : List String :=
  line :: "\n" :: if endsBlock (lineMnemonic line) then ["\n"] else []

def listing (log : CodeDataLog) : String := String.join (log.visited.flatMap linePieces)

def write (log : CodeDataLog) : EStateM Unit Sink Unit := do
  Sink.write log.toBytes
  Sink.flush

def writeListing (log : CodeDataLog) : EStateM Unit Sink Unit := do
  Sink.writeAll ((log.visited.flatMap linePieces).map fun piece => piece.toUTF8.toList)
  Sink.flush

end CodeDataLog

end Mos6502
