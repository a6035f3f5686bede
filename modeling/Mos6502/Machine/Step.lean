import Mos6502.Machine.Bus

/-!
# One instruction

A step fetches the opcode, decodes it, writes the trace line and the code log while nothing has
happened yet, and then performs the microcode. A step that fails counts no tick, but for the one
failure that is found after the instruction: that it left the program counter where it was.
-/

namespace Mos6502.Machine

def fetch : EStateM ExecutionError Machine UInt8 := do
  let pc := (← get).registers.pc
  let opcode ← perform (some ⟨pc, 1⟩) (Microcode.readByte pc)
  modify (·.fire .execute pc opcode)
  pure opcode

def decode (opcode : UInt8) : EStateM ExecutionError Machine Instruction := do
  match Instruction.decode opcode with
  | some i => pure i
  | none => throw (.unimplementedOpcode (← get).registers.pc opcode)

/-- Trace lines are rendered, for the history or for the journal. -/
def tracing (m : Machine) : Bool := m.config.trace || m.journal.keeps .trace

def record (m : Machine) (line : String) : Machine :=
  let m := m.note .trace fun _ => line
  if m.config.trace then { m with history := m.history.push line } else m

/-- Render and keep the trace line of an instruction at the program counter. -/
def trace (i : Instruction) : EStateM ExecutionError Machine Unit := do
  if (← get).tracing then
    let ticks := (← get).ticks
    let line ← observe (·.traceLine ticks i)
    modify (·.record line)

def markCode : List UInt16 → EStateM ExecutionError Machine (List UInt8)
  | [] => pure []
  | address :: rest => do
    let v ← observe (·.peekByte address)
    modify (·.mark address .executed)
    return v :: (← markCode rest)

/-- List an instruction at the program counter, if its opcode lies in ROM and is not listed. -/
def list (i : Instruction) (bytes : List UInt8) : EStateM ExecutionError Machine Unit := do
  let m ← get
  match m.board.locate m.registers.pc with
  | .ok ⟨offset, true⟩ =>
    if !m.log.isVisited offset then
      let line ← observe (·.listingLine i offset bytes)
      modify fun m => { m with log := m.log.visit offset line }
  | .ok ⟨_, false⟩ | .error _ => pure ()

def logCode (i : Instruction) : EStateM ExecutionError Machine Unit := do
  if (← get).config.codeDataLog then
    let pc := (← get).registers.pc
    let bytes ← markCode ((List.range i.size).map fun n => pc + UInt16.ofNat n)
    list i bytes

/-- Follow the nesting of calls inside a routine. -/
def nest (m : Machine) (i : Instruction) : Machine :=
  { m with depth := m.depth.map (· + i.nesting) }

/-- Fetch an instruction, tell the observers, and perform it. -/
def cycle : EStateM ExecutionError Machine Unit := do
  let opcode ← fetch
  let i ← decode opcode
  trace i
  logCode i
  let pc := (← get).registers.pc
  perform (some ⟨pc, i.size⟩) i.microcode
  modify (·.nest i)

def step : EStateM ExecutionError Machine Unit := do
  let pc := (← get).registers.pc
  cycle
  modify fun m => { m with ticks := m.ticks + 1 }
  let m ← get
  if m.config.checkStuck && m.registers.pc == pc then
    set (m.note .warn fun _ => "PC stuck at " ++ Text.address pc)
    throw (.stuck pc)

end Mos6502.Machine
