import Mos6502.Machine.Basic

/-!
# The watched bus

Microcode performed by a machine: each access reaches the board as it does on the bare processor,
and then the observers. A read is logged as data unless it fetches a byte of the instruction that
is being executed; then breakpoints see it. Breakpoints see a write after it took effect.
-/

namespace Mos6502

/-- The bytes of the instruction that is being executed. -/
structure Span where
  start : UInt16
  size : Nat
deriving DecidableEq

/-- The address lies in the span, which may wrap at the top of memory. -/
def Span.contains (span : Span) (address : UInt16) : Bool :=
  (address - span.start).toNat < span.size

namespace Machine

variable {α : Type}

def fire (m : Machine) (events : Events) (address : UInt16) (value : UInt8) : Machine :=
  if m.breakpoints.isEmpty then m
  else
    let access : Access := { events, address, value, registers := m.core.registers }
    let fired := m.breakpoints.fire access
    let m := { m with
      breakpoints := fired.breakpoints
      journal := fired.hits.foldl Journal.hit m.journal }
    if fired.halt then
      (m.note .debug fun _ => Breakpoints.haltMessage access).halt
    else m

/-- Log the use of an address, if it lies in ROM. It is logged behind a read of the address, so that
the board knows its place (`Board.exists_locate_of_read`). -/
def mark (m : Machine) (address : UInt16) (u : Usage) : Machine :=
  match m.core.board.locate address with
  | .ok ⟨offset, true⟩ => { m with log := m.log.mark offset u }
  | .ok ⟨_, false⟩ | .error _ => m

/-- Log a read as data, unless it lies in the instruction that is being executed. -/
def markRead (m : Machine) (span : Option Span) (address : UInt16) : Machine :=
  if m.config.codeDataLog && !span.any (·.contains address) then m.mark address .loaded else m

/-- Write to the board, past the breakpoints. -/
def poke (m : Machine) (address : UInt16) (value : UInt8) : Machine :=
  let m :=
    match m.core.board.committed? address value with
    | some five =>
      m.note .trace fun _ => "MMC1 commit " ++ Text.address address ++ " <- %" ++ Text.fiveBits five
    | none => m
  { m with core := { m.core with board := m.core.board.write address value } }

/-- Perform microcode in full view of the observers. `span` is the instruction that it belongs to,
if it belongs to one. A machine that keeps the span in a field does the same
(`Spanned.actAll_eq_keeping`). -/
def perform (span : Option Span) : Microcode α → EStateM ExecutionError Machine α
  | .done result => fun m => .ok result m
  | .read address next => fun m =>
    match m.core.board.read address with
    | .ok v => perform span (next v) ((m.markRead span address).fire .read address v)
    | .error e => .error (.board e) m
  | .write address value next => fun m =>
    perform span next ((m.poke address value).fire .write address value)
  | .inspect next => fun m => perform span (next m.core.registers) m
  | .assign registers next => fun m => perform span next (m.setRegisters registers)

/-- Look at the processor and the board without being seen. -/
def observe (view : Core → Except BoardError α) : EStateM ExecutionError Machine α := fun m =>
  match view m.core with
  | .ok a => .ok a m
  | .error e => .error (.board e) m

def interrupt (interrupt : Interrupt) : EStateM ExecutionError Machine Unit := do
  modify fun m => m.note .debug fun _ =>
    interrupt.name ++ " from " ++ Text.address m.registers.pc
  perform none interrupt.microcode

/-- Interrupt the program unless interrupts are disabled; the answer says whether it happened. -/
def irq : EStateM ExecutionError Machine Bool := do
  if (← get).registers.status.irqDisable then pure false
  else
    interrupt .irq
    pure true

/-- Switch off and on again: clear the RAM, load power-up registers and the reset vector, and
forget ticks and history. Breakpoints, the code/data log and a pending halt stay. -/
def hardReset : EStateM ExecutionError Machine Unit := do
  modify fun m => { m with core := ⟨.powerOn, m.core.board.clearRam⟩ }
  let pc ← observe (·.peekWord Interrupt.reset.vector)
  modify fun m =>
    { m.setRegisters { m.registers with pc := pc } with
      ticks := 0
      depth := none
      history := m.history.clear }

end Machine

end Mos6502
