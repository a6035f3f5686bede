import Mos6502.Board.Basic
import Mos6502.Registers

/-!
# Microcode

What an instruction does, apart from its meaning for any observer: a sequence of bus accesses and
register updates, each choosing the rest by what it read. The same microcode is executed on the
bare processor and board (`execute`), evaluated without a trace (`peek`), and performed by a machine
that watches every access.
-/

namespace Mos6502

/-- A sequence of bus accesses and register updates that ends with a result. -/
inductive Microcode (α : Type) where
  | done (result : α)
  /-- Read a byte. -/
  | read (address : UInt16) (next : UInt8 → Microcode α)
  /-- Write a byte. -/
  | write (address : UInt16) (value : UInt8) (next : Microcode α)
  /-- Look at the registers. -/
  | inspect (next : Registers → Microcode α)
  /-- Replace the registers. -/
  | assign (registers : Registers) (next : Microcode α)

/-- What a program can see and change: the registers and the board. -/
structure Core where
  registers : Registers
  board : Board

namespace Microcode

variable {α β γ : Type}

def bind (p : Microcode α) (f : α → Microcode β) : Microcode β :=
  match p with
  | done result => f result
  | read address next => read address fun v => (next v).bind f
  | write address value next => write address value (next.bind f)
  | inspect next => inspect fun r => (next r).bind f
  | assign registers next => assign registers (next.bind f)

instance : Monad Microcode where
  pure := done
  bind := bind

theorem bind_done (p : Microcode α) : p.bind done = p := by
  induction p with
  | done result => rfl
  | read address next ih => simp [bind, ih]
  | write address value next ih => simp [bind, ih]
  | inspect next ih => simp [bind, ih]
  | assign registers next ih => simp [bind, ih]

theorem bind_assoc (p : Microcode α) (f : α → Microcode β) (g : β → Microcode γ) :
    (p.bind f).bind g = p.bind fun a => (f a).bind g := by
  induction p with
  | done result => rfl
  | read address next ih => simp [bind, ih]
  | write address value next ih => simp [bind, ih]
  | inspect next ih => simp [bind, ih]
  | assign registers next ih => simp [bind, ih]

instance : LawfulMonad Microcode :=
  LawfulMonad.mk' Microcode (fun p => bind_done p) (fun _ _ => rfl) bind_assoc

/-- Execute a sequence. A read that fails ends it; what was done before stays done. -/
def execute : Microcode α → EStateM BoardError Core α
  | done result => fun c => .ok result c
  | read address next => fun c =>
    match c.board.read address with
    | .ok v => execute (next v) c
    | .error e => .error e c
  | write address value next => fun c =>
    execute next { c with board := c.board.write address value }
  | inspect next => fun c => execute (next c.registers) c
  | assign registers next => fun c => execute next { c with registers := registers }

theorem execute_bind (p : Microcode α) (f : α → Microcode β) :
    (p.bind f).execute = p.execute >>= fun a => (f a).execute := by
  induction p with
  | done result => rfl
  | read address next ih =>
    funext c
    simp only [bind, execute, Bind.bind, EStateM.bind]
    cases c.board.read address with
    | ok v => exact congrFun (ih v) c
    | error e => rfl
  | write address value next ih =>
    funext c
    exact congrFun ih _
  | inspect next ih =>
    funext c
    exact congrFun (ih c.registers) c
  | assign registers next ih =>
    funext c
    exact congrFun ih _

/-- The result of a sequence on a copy of the processor and the board. -/
def peek (p : Microcode α) (c : Core) : Except BoardError α :=
  match p.execute c with
  | .ok result _ => .ok result
  | .error e _ => .error e

def readByte (address : UInt16) : Microcode UInt8 := read address done

def writeByte (address : UInt16) (value : UInt8) : Microcode Unit :=
  write address value (done ())

def getRegisters : Microcode Registers := inspect done

def modifyRegisters (f : Registers → Registers) : Microcode Unit :=
  inspect fun r => assign (f r) (done ())

def word (low high : UInt8) : UInt16 := low.toUInt16 ||| (high.toUInt16 <<< 8)

/-- The word at an address, low byte first. The address wraps at the top of memory. -/
def readWord (address : UInt16) : Microcode UInt16 := do
  let low ← readByte address
  let high ← readByte (address + 1)
  pure (word low high)

/-- Push a byte: it goes to the free slot, and the slot below becomes free. -/
def push (value : UInt8) : Microcode Unit := do
  writeByte (← getRegisters).stackAddress value
  modifyRegisters fun r => { r with sp := r.sp - 1 }

/-- Pull the byte above the free slot. -/
def pull : Microcode UInt8 := do
  modifyRegisters fun r => { r with sp := r.sp + 1 }
  readByte (← getRegisters).stackAddress

/-- Push a word, high byte first. -/
def pushWord (value : UInt16) : Microcode Unit := do
  push (value >>> 8).toUInt8
  push value.toUInt8

def pullWord : Microcode UInt16 := do
  let low ← pull
  let high ← pull
  pure (word low high)

end Microcode

end Mos6502
