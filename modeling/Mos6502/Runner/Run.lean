import Mos6502.Cartridge
import Mos6502.Machine.Run
import Mos6502.Runner.Options
import Mos6502.Runner.Session

/-!
# Running an image

The runner loads an image, runs it, writes the logs that were asked for and tells how the run ended.
The verdict is the exit code: zero if the program passed. It passes by executing the success
address, or, if none was named, by reaching the stop opcode or returning.
-/

namespace Mos6502.Runner

/-- A board built from an image, and what the log says of it. -/
structure Loading where
  board : Except String Board
  records : Array Record

/-- Build the board of an image. A cartridge is logged as soon as it is complete, even if there is
no board for it. -/
def Options.load (o : Options) (data : Array UInt8) : Loading :=
  let journal : Journal := { level := some o.level }
  if o.flat then
    { board := ((Flat.ofImage data).map .flat).mapError fun e =>
        "Failed to load flat image: " ++ e.message
      records := journal.records }
  else
    { board := (Cartridge.load data).mapError fun e => "Failed to load cartridge: " ++ e.message
      records :=
        match Cartridge.ofBytes data with
        | .ok cartridge => (journal.note .debug fun _ => cartridge.header.describe).records
        | .error _ => journal.records }

/-- A machine that is ready to run. The success breakpoint always asks for a halt. -/
def Options.machine (o : Options) (board : Board) : Except BoardError Machine := do
  let m ← Machine.powerOn board o.config
  let m := { m with journal := { level := some o.level } }
  let m :=
    if o.flat then m.setRegisters { m.registers with pc := o.pc.getD 0x0400 } else m
  match o.success with
  | none => pure m
  | some address => pure (m.register .execute "success" address .halt)

structure Execution where
  result : Except Fault (Option Outcome)
  /-- The machine after the run. -/
  machine : Machine

def execute (m : Machine) (budget : Nat := Machine.lifetime) : Execution :=
  match Machine.run budget m with
  | .ok outcome m => ⟨.ok outcome, m⟩
  | .error fault m => ⟨.error fault, m⟩

def passed (o : Options) (m : Machine) (outcome : Outcome) : Bool :=
  match o.success with
  | some _ => !m.journal.hits.isEmpty
  | none => outcome = .stopped || outcome = .returned

/-- The files that the options ask for, in the order in which they are written. -/
def logFiles (o : Options) (m : Machine) : List (String × List UInt8) :=
  let file (path : Option String) (content : List UInt8) :=
    path.toList.map fun path => (path, content)
  file o.cdl m.log.toBytes ++ file o.visited m.log.listing.toUTF8.toList

def recordLine (r : Record) : String :=
  "[" ++ Text.padRight 5 r.level.name ++ "] " ++ r.text

namespace Session

def remarkAll (records : Array Record) : Session Unit :=
  records.toList.forM fun r => remark (recordLine r)

/-- Create files up to the first that fails. -/
def createAll : List (String × List UInt8) → Session (Except String Unit)
  | [] => pure (.ok ())
  | (path, content) :: rest => do
    match ← createFile path content with
    | .ok () => createAll rest
    | .error e => pure (.error (e.message path))

def fail (line : String) : Session UInt32 := do
  remark line
  pure 1

def conclude (o : Options) (e : Execution) : Session UInt32 := do
  let m := e.machine
  match e.result with
  | .error fault =>
    fault.trace.forM say
    say m.registers.line
    fail ("Fault after " ++ toString m.ticks ++ " instructions: " ++ fault.error.message)
  | .ok none => fail "Program did not end"
  | .ok (some outcome) =>
    say (outcome.name ++ " after " ++ toString m.ticks ++ " instructions")
    say ("  PC:   " ++ Text.address m.registers.pc)
    say ("  " ++ m.registers.line)
    if passed o m outcome then pure 0 else fail "Program did not reach its success condition"

def runBoard (o : Options) (board : Board) : Session UInt32 := do
  match o.machine board with
  | .error e => fail e.message
  | .ok m =>
    let e := execute m
    remarkAll e.machine.journal.records
    match ← createAll (logFiles o e.machine) with
    | .error line => fail line
    | .ok () => conclude o e

def runImage (o : Options) (path : String) : Session UInt32 := do
  match ← readFile path with
  | .error reason => fail ("Failed to read " ++ path ++ ": " ++ reason)
  | .ok data =>
    let loading := o.load data
    remarkAll loading.records
    match loading.board with
    | .error line => fail line
    | .ok board =>
      say ("Loaded " ++ board.name ++ ": " ++ board.describe)
      runBoard o board

def help : List String := [
  "Run a 6502 program image",
  "",
  "Usage: [OPTIONS] [IMAGE]",
  "",
  "  IMAGE                a cartridge, or a raw 64 KiB image with --flat",
  "  --flat               treat the image as flat memory",
  "  --pc ADDRESS         start of a program in flat memory (hex, 0400 if not given)",
  "  --success ADDRESS    the program passes if it executes this address (hex)",
  "  -l, --limit COUNT    stop after this many instructions",
  "  --stop OPCODE        stop in front of this opcode (hex)",
  "  --check-stuck        fail if an instruction jumps to itself",
  "  -t, --trace          keep trace lines for fault reports",
  "  --cdl FILE           write the code/data log",
  "  --visited FILE       write the listing of executed instructions",
  "  --list-opcodes       list the opcodes and do nothing else",
  "  -v, --verbose        log more; up to three times",
  "  -h, --help           print this text"]

def follow (o : Options) : Session UInt32 := do
  if o.help then
    help.forM say
    pure 0
  else if o.listOpcodes then
    Instruction.listing.forM say
    pure 0
  else
    match o.image with
    | none => fail "no image given (see --help)"
    | some path => runImage o path

def usageCode : UInt32 := 2

/-- Run what a command line asks for. How it is read is left to a reader of command lines. -/
def start (reader : List String → Except UsageError Options) (words : List String) :
    Session UInt32 :=
  match reader words with
  | .ok o => follow o
  | .error e => do
    remark e.message
    pure usageCode

end Session

end Mos6502.Runner
