import Mos6502.CodeDataLog
import Mos6502.Disassembly
import Mos6502.History
import Mos6502.Journal

/-!
# The machine

A processor on its board together with everything that watches it: breakpoints, the code/data log,
the history of trace lines and the journal. The `core` is what a program can see; the rest observes
it and decides only when a run stops.
-/

namespace Mos6502

/-- Diagnostics and stop conditions. -/
structure Config where
  /-- Fail when an instruction leaves the program counter where it was. -/
  checkStuck : Bool := false
  /-- Record a trace line for each instruction. -/
  trace : Bool := false
  /-- How many trace lines are kept. -/
  historyLength : Nat := 100
  /-- Stop a run after this many instructions. -/
  limit : Option Nat := none
  /-- Reaching the limit is a fault. -/
  limitIsError : Bool := false
  /-- Stop a run in front of this opcode. -/
  stopOpcode : Option UInt8 := none
  /-- Keep the code/data log. -/
  codeDataLog : Bool := false
deriving DecidableEq, Inhabited

/-- Why an instruction or a run failed. -/
inductive ExecutionError where
  /-- The byte at an address encodes no instruction. -/
  | unimplementedOpcode (address : UInt16) (opcode : UInt8)
  /-- The instruction at an address left the program counter there. -/
  | stuck (address : UInt16)
  /-- A run executed as many instructions as it may. -/
  | instructionLimit (count : Nat)
  | board (error : BoardError)
deriving DecidableEq

namespace ExecutionError

def message : ExecutionError → String
  | unimplementedOpcode address opcode =>
    "opcode not implemented: [" ++ Text.address address ++ "] $" ++ Text.hexByte opcode
  | stuck address => "stuck at " ++ Text.address address
  | instructionLimit count => "instruction limit hit after " ++ toString count ++ " instructions"
  | board error => error.message

def address? : ExecutionError → Option UInt16
  | unimplementedOpcode address _ => some address
  | stuck address => some address
  | board (.offsetOutOfRange address _ _ _) => some address
  | instructionLimit _ | board _ => none

end ExecutionError

/-- A processor on its board, and its observers. -/
structure Machine where
  core : Core
  config : Config
  /-- Instructions executed since construction or the last hard reset. The count has no bound here;
  in a word of 64 bits it is the same for as long as any machine lives (`Machine.lifetime`). -/
  ticks : Nat := 0
  /-- A halt is due at the next instruction boundary. -/
  halted : Bool := false
  /-- While a routine runs: how many calls are open inside it. The count is a word that wraps. -/
  depth : Option Int32 := none
  history : History
  breakpoints : Breakpoints := .empty
  log : CodeDataLog := .empty
  journal : Journal := {}

namespace Machine

/-- A machine with power-up registers that starts at the reset vector. -/
def powerOn (board : Board) (config : Config) : Except BoardError Machine := do
  let core : Core := ⟨.powerOn, board⟩
  let pc ← core.peekWord Interrupt.reset.vector
  pure {
    core := { core with registers := { core.registers with pc := pc } }
    config := config
    history := .ofCapacity config.historyLength }

def registers (m : Machine) : Registers := m.core.registers

def board (m : Machine) : Board := m.core.board

def setRegisters (m : Machine) (r : Registers) : Machine :=
  { m with core := { m.core with registers := r } }

def note (m : Machine) (level : Level) (text : Unit → String) : Machine :=
  { m with journal := m.journal.note level text }

/-- Change the configuration. A smaller history forgets its oldest lines. -/
def setConfig (m : Machine) (config : Config) : Machine :=
  { m with config := config, history := m.history.setCapacity config.historyLength }

def halt (m : Machine) : Machine := { m with halted := true }

def clearHalt (m : Machine) : Machine := { m with halted := false }

def clearLog (m : Machine) : Machine := { m with log := .empty }

def register (m : Machine) (events : Events) (name : String) (address : UInt16)
    (callback : Callback) : Machine :=
  let m := m.note .debug fun _ => m.breakpoints.registerMessage events name address
  { m with breakpoints := m.breakpoints.register events name address callback }

def restoreBoard (s : Snapshot) : EStateM BoardError Machine Unit := fun m =>
  match Board.restore s m.core.board with
  | .ok u board => .ok u { m with core := { m.core with board := board } }
  | .error e board => .error e { m with core := { m.core with board := board } }

def inspect (m : Machine) : String :=
  "Cpu \x7b state: " ++ m.registers.inspect ++ ", mapper: " ++ Text.quote m.board.describe ++
    ", breakpoints: " ++ m.breakpoints.inspect ++ ", ticks: " ++ toString m.ticks ++ " \x7d"

end Machine

end Mos6502
