import Mos6502.Machine.Step

/-!
# Runs

A run executes instructions until a stop condition holds at an instruction boundary or a step
fails. The conditions are tested in a fixed order, and never inside an instruction. A run gets a
budget of steps, so that every run is a finite object; a run that uses its budget up has neither
stopped nor failed.
-/

namespace Mos6502

inductive Outcome where
  /-- A halt was asked for. -/
  | halted
  | limitReached
  /-- The stop opcode is next. -/
  | stopped
  /-- The routine executed its last return. -/
  | returned
deriving DecidableEq

def Outcome.name : Outcome → String
  | halted => "Halted"
  | limitReached => "LimitReached"
  | stopped => "Stopped"
  | returned => "Returned"

/-- Why a run failed, and the trace lines that led there. -/
structure Fault where
  error : ExecutionError
  trace : List String

/-- What the test at an instruction boundary decides. -/
inductive Boundary where
  | proceed
  | stop (outcome : Outcome)
  | fail (error : ExecutionError)
deriving DecidableEq

namespace Machine

/-- The test in front of the instruction at the program counter, after `executed` instructions of
this run. -/
def boundary (m : Machine) (executed : Nat) : Boundary :=
  if m.depth.any (· < 0) then .stop .returned
  else if m.halted then .stop .halted
  else if m.config.limit.any (· ≤ executed) then
    if m.config.limitIsError then .fail (.instructionLimit executed) else .stop .limitReached
  else
    match m.config.stopOpcode with
    | none => .proceed
    | some opcode =>
      match m.core.peekByte m.registers.pc with
      | .ok v => if v = opcode then .stop .stopped else .proceed
      | .error e => .fail (.board e)

/-- A stop uses up the condition that led to it. -/
def settle (m : Machine) : Outcome → Machine
  | .returned => { m with depth := none }
  | .halted => m.clearHalt
  | .limitReached | .stopped => m

def fault {α : Type} (error : ExecutionError) : EStateM Fault Machine α := fun m =>
  let lines := m.history.lines
  let records := error.message :: lines.map ("  " ++ ·) ++ ["  " ++ m.registers.line]
  .error ⟨error, lines⟩ (records.foldl (fun m text => m.note .error fun _ => text) m)

/-- Run for at most `budget` steps, `executed` steps having been made before. The answer is empty
if the budget was used up. -/
def runFrom : Nat → Nat → EStateM Fault Machine (Option Outcome)
  | budget, executed => fun m =>
    match m.boundary executed with
    | .stop outcome =>
      .ok (some outcome) ((m.settle outcome).note .info fun _ =>
        outcome.name ++ " after " ++ toString executed ++ " instructions at " ++
          Text.address m.registers.pc)
    | .fail error => fault error m
    | .proceed =>
      match budget with
      | 0 => .ok none m
      | budget + 1 =>
        match step m with
        | .ok () m => runFrom budget (executed + 1) m
        | .error error m => fault error m

/-- More steps than a run makes in a lifetime. -/
def lifetime : Nat := 0x4000000000000000

def run (budget : Nat := lifetime) : EStateM Fault Machine (Option Outcome) := runFrom budget 0

/-- Call the routine at an address and run until it returns to the present program counter. -/
def runRoutine (address : UInt16) (budget : Nat := lifetime) :
    EStateM Fault Machine (Option Outcome) := fun m =>
  match perform none (Microcode.pushWord (m.registers.pc - 1)) m with
  | .error error m => fault error m
  | .ok () m =>
    let m := { m.setRegisters { m.registers with pc := address } with depth := some 0 }
    match run budget m with
    | .ok outcome m => .ok outcome { m with depth := none }
    | .error error m => .error error { m with depth := none }

end Machine

end Mos6502
