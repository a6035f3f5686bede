import Mos6502.Board.Flat
import Mos6502.Board.Mmc1
import Mos6502.Board.Nrom

/-!
# Boards

The board on the bus decides what every address means. All boards answer the same questions: read,
write, locate, save and restore. Only reading and locating can fail, both for the same addresses,
and a snapshot fits only a board of its own kind.
-/

namespace Mos6502

/-- Any board. -/
inductive Board where
  | nrom (board : Nrom)
  | mmc1 (board : Mmc1)
  | flat (board : Flat)

/-- Everything on a board that can change: RAM and bank registers, never the ROM. -/
inductive Snapshot where
  | nrom (ram : Array UInt8) (cartRam : Option (Array UInt8))
  | mmc1 (banks : BankConfig) (ram cartRam : Array UInt8)
  | flat (memory : Array UInt8)
deriving DecidableEq

namespace Board

def kind : Board → BoardKind
  | nrom _ => .nrom
  | mmc1 _ => .mmc1
  | flat _ => .flat

def name (b : Board) : String := b.kind.name

def describe : Board → String
  | nrom b => b.describe
  | mmc1 b => b.banks.describe
  | flat _ => BoardKind.flat.name

def read (b : Board) (address : UInt16) : Except BoardError UInt8 :=
  match b with
  | nrom b => .ok (b.read address)
  | mmc1 b => b.read address
  | flat b => .ok (b.read address)

def write (b : Board) (address : UInt16) (v : UInt8) : Board :=
  match b with
  | nrom b => nrom (b.write address v)
  | mmc1 b => mmc1 (b.write address v)
  | flat b => flat (b.write address v)

/-- The five bits that a write would put into a bank register. -/
def committed? (b : Board) (address : UInt16) (v : UInt8) : Option UInt8 :=
  match b with
  | mmc1 b => b.committed? address v
  | nrom _ | flat _ => none

/-- The place of an address in the store behind it. Flat memory is its own image. -/
def locate (b : Board) (address : UInt16) : Except BoardError Location :=
  match b with
  | nrom b => .ok (b.locate address)
  | mmc1 b => b.locate address
  | flat _ => .ok ⟨address.toNat, true⟩

/-- Zero the volatile RAM. Flat memory is all image and has none. -/
def clearRam : Board → Board
  | nrom b => nrom b.clearRam
  | mmc1 b => mmc1 b.clearRam
  | flat b => flat b

def mirroring? : Board → Option Mirroring
  | mmc1 b => some (.ofBits b.banks.mirroring)
  | nrom _ | flat _ => none

def banks? : Board → Option BankConfig
  | mmc1 b => some b.banks
  | nrom _ | flat _ => none

def snapshot : Board → Snapshot
  | nrom b => .nrom b.ram.bytes.toArray (b.cartRam.map (·.bytes.toArray))
  | mmc1 b => .mmc1 b.banks b.ram.bytes.toArray b.cartRam.bytes.toArray
  | flat b => .flat b.memory.toArray

def restoreAs {β : Type} (wrap : β → Board) (b : β) (act : EStateM BoardError β Unit) :
    EStateM.Result BoardError Board Unit :=
  match act b with
  | .ok u b => .ok u (wrap b)
  | .error e b => .error e (wrap b)

/-- Put a snapshot back. A restore that fails can have put a part of it back. -/
def restore (s : Snapshot) : EStateM BoardError Board Unit := fun b =>
  match b, s with
  | nrom b, .nrom ram cartRam => restoreAs nrom b (Nrom.restore ram cartRam)
  | mmc1 b, .mmc1 banks ram cartRam => restoreAs mmc1 b (Mmc1.restore banks ram cartRam)
  | flat b, .flat memory => restoreAs flat b (Flat.restore memory)
  | b, _ => .error (.stateMismatch b.kind) b

end Board

end Mos6502
