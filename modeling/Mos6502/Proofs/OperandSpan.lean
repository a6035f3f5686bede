import Mos6502.Proofs.Coverage
import Mos6502.Proofs.Operations

/-!
# The operand span in a field

A machine is told the bytes of the instruction that its microcode belongs to. It may keep them in a
field instead, which is set in front of the fetch, widened behind the decoding and emptied behind
the instruction, however that ends (`Spanned`). Such a machine might meet the bytes of another
instruction in its field, but it does not: between operations the field is empty, and it does what
the machine without it does (`actAll_eq_keeping`). It also passes on the errors of the board when it
looks for the place of an address in the image. There are none where the address has been read
(`Machine.strictLogCode_eq`).
-/

namespace Mos6502

/-- An address that can be read has a place. -/
theorem Board.exists_locate_of_read {b : Board} {address : UInt16} {v : UInt8}
    (h : b.read address = .ok v) : ∃ location, b.locate address = .ok location := by
  cases b with
  | nrom b => exact ⟨_, rfl⟩
  | flat b => exact ⟨_, rfl⟩
  | mmc1 b =>
    change b.read address = .ok v at h
    change ∃ location, b.locate address = .ok location
    by_cases hrom : address < 0x8000
    · exact ⟨_, if_pos hrom⟩
    · have hle : 0x8000 ≤ address.toNat := Nat.le_of_not_lt hrom
      rw [Mmc1.read_of_rom b hle] at h
      split at h
      next hinside => exact ⟨_, by rw [Mmc1.locate_of_rom b hle, if_pos hinside]⟩
      next => cases h

namespace Machine

/-! ## Marks that may fail -/

/-- Log the use of an address, if it lies in ROM, and fail if it has no place. -/
def strictMark (address : UInt16) (u : Usage) : EStateM ExecutionError Machine Unit := do
  match ← observe (·.board.locate address) with
  | ⟨offset, true⟩ => modify fun m => { m with log := m.log.mark offset u }
  | ⟨_, false⟩ => pure ()

/-- An address that was just read can be located. -/
theorem strictMark_of_read {m : Machine} {address : UInt16} {v : UInt8}
    (h : m.board.read address = .ok v) (u : Usage) :
    strictMark address u m = .ok () (m.mark address u) := by
  obtain ⟨⟨offset, inRom⟩, hlocate⟩ := Board.exists_locate_of_read h
  have hplace : m.core.board.locate address = .ok ⟨offset, inRom⟩ := hlocate
  rw [strictMark, bind_of_ok (observe_of_ok hplace), mark, hplace]
  cases inRom <;> rfl

def strictMarkCode : List UInt16 → EStateM ExecutionError Machine (List UInt8)
  | [] => pure []
  | address :: rest => do
    let v ← observe (·.peekByte address)
    strictMark address .executed
    return v :: (← strictMarkCode rest)

def strictList (i : Instruction) (bytes : List UInt8) : EStateM ExecutionError Machine Unit := do
  let m ← get
  match ← observe (·.board.locate m.registers.pc) with
  | ⟨offset, true⟩ =>
    if !m.log.isVisited offset then
      let line ← observe (·.listingLine i offset bytes)
      modify fun m => { m with log := m.log.visit offset line }
  | ⟨_, false⟩ => pure ()

/-- Log an instruction as code, and fail if one of its bytes has no place. -/
def strictLogCode (i : Instruction) : EStateM ExecutionError Machine Unit := do
  if (← get).config.codeDataLog then
    let pc := (← get).registers.pc
    let bytes ← strictMarkCode ((List.range i.size).map fun n => pc + UInt16.ofNat n)
    strictList i bytes

/-- Code is marked behind reads of the same bytes, so none of them fails to be located. -/
theorem strictMarkCode_eq (addresses : List UInt16) :
    strictMarkCode addresses = markCode addresses := by
  induction addresses with
  | nil => rfl
  | cons address rest ih =>
    funext m
    rw [strictMarkCode, markCode, ih]
    cases hread : m.core.peekByte address with
    | error e => rw [bind_of_error (observe_of_error hread), bind_of_error (observe_of_error hread)]
    | ok v =>
      rw [bind_of_ok (observe_of_ok hread), bind_of_ok (observe_of_ok hread),
        bind_of_ok (strictMark_of_read hread .executed)]
      rfl

/-- An instruction is listed behind the read of its opcode. -/
theorem strictList_of_read (i : Instruction) (bytes : List UInt8) {m : Machine} {v : UInt8}
    (h : m.board.read m.registers.pc = .ok v) : strictList i bytes m = list i bytes m := by
  obtain ⟨⟨offset, inRom⟩, hlocate⟩ := Board.exists_locate_of_read h
  have hplace : m.core.board.locate m.registers.pc = .ok ⟨offset, inRom⟩ := hlocate
  rw [strictList, list, get_bind_apply, get_bind_apply, bind_of_ok (observe_of_ok hplace), hlocate]
  cases inRom <;> rfl

/-- Bytes that have been logged as code can be read. -/
theorem exists_read_of_markCode {addresses : List UInt16} {bytes : List UInt8} {m m' : Machine}
    (h : markCode addresses m = .ok bytes m') {address : UInt16} (haddress : address ∈ addresses) :
    ∃ v, m'.board.read address = .ok v := by
  have hspec := markCode_spec addresses m
  rw [board, ((leaves_markCode addresses).of_ok h).core]
  cases hread : addresses.mapM m.core.peekByte with
  | ok vs => exact exists_mapM_ok_iff.mp ⟨vs, hread⟩ address haddress
  | error e =>
    rw [hread] at hspec
    obtain ⟨m'', herror⟩ := hspec
    cases h.symm.trans herror

/-- Code is listed behind a look at its bytes, and its first byte is one of them. -/
theorem strictLogCode_eq (i : Instruction) : strictLogCode i = logCode i := by
  funext m
  rw [strictLogCode, logCode, get_bind_apply, get_bind_apply]
  split
  next =>
    rw [get_bind_apply, get_bind_apply, strictMarkCode_eq]
    have hfirst := Span.start_mem_addresses m.registers.pc i.size_pos
    change (markCode (Span.addresses ⟨m.registers.pc, i.size⟩) >>= strictList i) m =
      (markCode (Span.addresses ⟨m.registers.pc, i.size⟩) >>= list i) m
    cases hmark : markCode (Span.addresses ⟨m.registers.pc, i.size⟩) m with
    | error e m' => rw [bind_of_error hmark, bind_of_error hmark]
    | ok bytes m' =>
      obtain ⟨v, hread⟩ := exists_read_of_markCode hmark hfirst
      have hpc : m'.registers.pc = m.registers.pc := by
        rw [registers, registers, ((leaves_markCode _).of_ok hmark).core]
      rw [bind_of_ok hmark, bind_of_ok hmark, strictList_of_read i bytes (hpc ▸ hread)]
  next => rfl

end Machine

open Machine (Operation)

/-- A machine with a field for the bytes of the instruction that is being executed. -/
structure Spanned where
  machine : Machine
  span : Option Span

namespace Spanned

variable {ε α β : Type}

/-- What a machine does, with the field as it is. -/
def keeping (act : EStateM ε Machine α) : EStateM ε Spanned α := fun s =>
  match act s.machine with
  | .ok a m => .ok a { s with machine := m }
  | .error e m => .error e { s with machine := m }

theorem keeping_of_ok {act : EStateM ε Machine α} {s : Spanned} {a : α} {m : Machine}
    (h : act s.machine = .ok a m) : keeping act s = .ok a { s with machine := m } := by
  simp only [keeping, h]

theorem keeping_of_error {act : EStateM ε Machine α} {s : Spanned} {e : ε} {m : Machine}
    (h : act s.machine = .error e m) : keeping act s = .error e { s with machine := m } := by
  simp only [keeping, h]

theorem keeping_modify (f : Machine → Machine) (s : Spanned) :
    (keeping (modify f) : EStateM ε Spanned PUnit) s = .ok ⟨⟩ { s with machine := f s.machine } :=
  rfl

/-- An action on the machine is blind to the span beside it. -/
theorem keeping_congr {act act' : EStateM ε Machine α} {m m' : Machine} {span : Option Span}
    (h : act m = act' m') : keeping act ⟨m, span⟩ = keeping act' ⟨m', span⟩ := by
  simp only [keeping, h]

theorem keeping_bind (act : EStateM ε Machine α) (f : α → EStateM ε Machine β) :
    keeping (act >>= f) = keeping act >>= fun a => keeping (f a) := by
  funext s
  cases hact : act s.machine with
  | ok a m =>
    rw [bind_of_ok (keeping_of_ok hact), keeping, bind_of_ok hact]
    rfl
  | error e m =>
    rw [bind_of_error (keeping_of_error hact), keeping, bind_of_error hact]

/-! ## Instructions -/

/-- Log a read as data, unless the address lies in the span. -/
def logRead (address : UInt16) : EStateM ExecutionError Spanned Unit := do
  let s ← get
  if s.machine.config.codeDataLog && !s.span.any (·.contains address) then
    keeping (Machine.strictMark address .loaded)

def perform : Microcode α → EStateM ExecutionError Spanned α
  | .done result => pure result
  | .read address next => do
    let v ← keeping (Machine.observe (·.board.read address))
    logRead address
    keeping (modify (·.fire .read address v))
    perform (next v)
  | .write address value next => do
    keeping (modify fun m => (m.poke address value).fire .write address value)
    perform next
  | .inspect next => do perform (next (← get).machine.registers)
  | .assign registers next => do
    keeping (modify (·.setRegisters registers))
    perform next

/-- Reads are logged behind the read itself, so the mark does not fail. -/
theorem logRead_of_read {s : Spanned} {address : UInt16} {v : UInt8}
    (h : s.machine.board.read address = .ok v) :
    logRead address s = .ok () { s with machine := s.machine.markRead s.span address } := by
  rw [logRead, get_bind_apply, Machine.markRead]
  split
  next => exact keeping_of_ok (Machine.strictMark_of_read h .loaded)
  next => rfl

/-- Microcode is performed as if the machine were told what is in the field. -/
theorem perform_eq (p : Microcode α) (s : Spanned) :
    perform p s = keeping (Machine.perform s.span p) s := by
  induction p generalizing s with
  | done result => rfl
  | read address next ih =>
    cases hread : s.machine.core.board.read address with
    | error e =>
      have hobserve : keeping (Machine.observe (·.board.read address)) s = .error (.board e) s :=
        keeping_of_error (Machine.observe_of_error hread)
      rw [perform, bind_of_error hobserve]
      simp only [keeping, Machine.perform, hread]
    | ok v =>
      have hobserve : keeping (Machine.observe (·.board.read address)) s = .ok v s :=
        keeping_of_ok (Machine.observe_of_ok hread)
      rw [perform, bind_of_ok hobserve, bind_of_ok (logRead_of_read hread)]
      simp only [keeping, Machine.perform, hread]
      exact ih v _
  | write address value next ih => exact ih _
  | inspect next ih => exact ih s.machine.registers s
  | assign registers next ih => exact ih _

def fetch : EStateM ExecutionError Spanned UInt8 := do
  let pc := (← get).machine.registers.pc
  modify fun s => { s with span := some ⟨pc, 1⟩ }
  let opcode ← perform (Microcode.readByte pc)
  keeping (modify (·.fire .execute pc opcode))
  pure opcode

/-- A fetch does not look at what is in the field. -/
theorem fetch_eq (m : Machine) (span : Option Span) :
    fetch ⟨m, span⟩ = keeping Machine.fetch ⟨m, some ⟨m.registers.pc, 1⟩⟩ := by
  rw [fetch, get_bind_apply, modify_bind_apply, Machine.fetch, keeping, get_bind_apply]
  have hperform := perform_eq (Microcode.readByte m.registers.pc) ⟨m, some ⟨m.registers.pc, 1⟩⟩
  dsimp only at hperform ⊢
  cases hread :
      Machine.perform (some ⟨m.registers.pc, 1⟩) (Microcode.readByte m.registers.pc) m with
  | error e m' =>
    rw [keeping_of_error hread] at hperform
    rw [bind_of_error hperform, bind_of_error hread]
  | ok opcode m' =>
    rw [keeping_of_ok hread] at hperform
    rw [bind_of_ok hperform, bind_of_ok hread]
    rfl

def cycle : EStateM ExecutionError Spanned Unit := do
  let pc := (← get).machine.registers.pc
  let opcode ← fetch
  let i ← keeping (Machine.decode opcode)
  modify fun s => { s with span := some ⟨pc, i.size⟩ }
  keeping (Machine.trace i)
  keeping (Machine.strictLogCode i)
  perform i.microcode
  keeping (modify (·.nest i))

/-- The instruction that has been fetched is announced and performed. -/
theorem announced_eq (i : Instruction) (m : Machine) :
    (do keeping (Machine.trace i)
        keeping (Machine.strictLogCode i)
        perform i.microcode
        keeping (modify (·.nest i)) : EStateM ExecutionError Spanned Unit)
      ⟨m, some ⟨m.registers.pc, i.size⟩⟩ =
    keeping (do
      Machine.trace i
      Machine.logCode i
      let pc := (← get).registers.pc
      Machine.perform (some ⟨pc, i.size⟩) i.microcode
      modify (·.nest i)) ⟨m, some ⟨m.registers.pc, i.size⟩⟩ := by
  rw [Machine.strictLogCode_eq]
  cases htrace : Machine.trace i m with
  | error e m₁ => rw [bind_of_error (keeping_of_error htrace), keeping, bind_of_error htrace]
  | ok u m₁ =>
    cases hlog : Machine.logCode i m₁ with
    | error e m₂ =>
      rw [bind_of_ok (keeping_of_ok htrace), bind_of_error (keeping_of_error hlog), keeping,
        bind_of_ok htrace, bind_of_error hlog]
    | ok u m₂ =>
      -- The observers leave the program counter where it was, and with it the span.
      have hpc : m₂.registers.pc = m.registers.pc := by
        rw [Machine.registers, ((Machine.leaves_logCode i).of_ok hlog).core,
          ((Machine.leaves_trace i).of_ok htrace).core, ← Machine.registers]
      rw [bind_of_ok (keeping_of_ok htrace), bind_of_ok (keeping_of_ok hlog), keeping,
        bind_of_ok htrace, bind_of_ok hlog, get_bind_apply, hpc]
      have hperform := perform_eq i.microcode ⟨m₂, some ⟨m.registers.pc, i.size⟩⟩
      dsimp only at hperform
      cases hmicrocode : Machine.perform (some ⟨m.registers.pc, i.size⟩) i.microcode m₂ with
      | error e m₃ =>
        rw [keeping_of_error hmicrocode] at hperform
        rw [bind_of_error hperform, bind_of_error hmicrocode]
      | ok u m₃ =>
        rw [keeping_of_ok hmicrocode] at hperform
        rw [bind_of_ok hperform, bind_of_ok hmicrocode]
        rfl

/-- An instruction does not look at what was in the field in front of it. -/
theorem cycle_eq (m : Machine) (span : Option Span) :
    ∃ left, cycle ⟨m, span⟩ = keeping Machine.cycle ⟨m, left⟩ := by
  rw [cycle, get_bind_apply, Machine.cycle]
  have hfetch := fetch_eq m span
  cases hfetched : Machine.fetch m with
  | error e m₁ =>
    rw [keeping_of_error hfetched] at hfetch
    exact ⟨_, by rw [bind_of_error hfetch, keeping, bind_of_error hfetched]⟩
  | ok opcode m₁ =>
    rw [keeping_of_ok hfetched] at hfetch
    rw [bind_of_ok hfetch]
    have hpc : m₁.registers.pc = m.registers.pc := by
      rw [Machine.registers, (Machine.fetch_eq_ok hfetched).2, ← Machine.registers]
    cases hdecode : Instruction.decode opcode with
    | none =>
      have hdecoded := Machine.decode_of_none hdecode m₁
      exact ⟨_, by rw [bind_of_error (keeping_of_error hdecoded), keeping, bind_of_ok hfetched,
        bind_of_error hdecoded]⟩
    | some i =>
      have hdecoded := Machine.decode_of_some hdecode m₁
      refine ⟨some ⟨m.registers.pc, i.size⟩, ?_⟩
      rw [bind_of_ok (keeping_of_ok hdecoded), modify_bind_apply, keeping, bind_of_ok hfetched,
        bind_of_ok hdecoded, ← hpc]
      exact announced_eq i m₁

/-- Count the tick of an instruction at an address, and see whether it moved the program counter. -/
def conclude (pc : UInt16) : EStateM ExecutionError Machine Unit := do
  modify fun m => { m with ticks := m.ticks + 1 }
  let m ← get
  if m.config.checkStuck && m.registers.pc == pc then
    set (m.note .warn fun _ => "PC stuck at " ++ Text.address pc)
    throw (.stuck pc)

/-- Execute one instruction. The field is emptied before the result is looked at. -/
def step : EStateM ExecutionError Spanned Unit := fun s =>
  match cycle s with
  | .ok () s' => keeping (conclude s.machine.registers.pc) { s' with span := none }
  | .error e s' => .error e { s' with span := none }

/-- A step is that of the machine, and leaves the field empty. -/
theorem step_eq (m : Machine) (span : Option Span) :
    step ⟨m, span⟩ = keeping Machine.step ⟨m, none⟩ := by
  have hstep : Machine.step m = (Machine.cycle >>= fun _ => conclude m.registers.pc) m := rfl
  obtain ⟨left, hcycle⟩ := cycle_eq m span
  rw [step, hcycle]
  unfold keeping
  dsimp only
  rw [hstep]
  cases hm : Machine.cycle m with
  | error e m' => rw [bind_of_error hm]
  | ok u m' => rw [bind_of_ok hm]

/-! ## Operations -/

/-- Run for at most `budget` steps. Where a run ends at a boundary, no instruction has a part in
it. -/
def runFrom : Nat → Nat → EStateM Fault Spanned (Option Outcome)
  | 0, executed => keeping (Machine.runFrom 0 executed)
  | budget + 1, executed => fun s =>
    match s.machine.boundary executed with
    | .stop _ | .fail _ => keeping (Machine.runFrom 0 executed) s
    | .proceed =>
      match step s with
      | .ok () s => runFrom budget (executed + 1) s
      | .error error s => keeping (Machine.fault error) s

def runRoutine (address : UInt16) (budget : Nat) :
    EStateM Fault Spanned (Option Outcome) := fun s =>
  match perform (Microcode.pushWord (s.machine.registers.pc - 1)) s with
  | .error error s => keeping (Machine.fault error) s
  | .ok () ⟨m, span⟩ =>
    let m := { m.setRegisters { m.registers with pc := address } with depth := some 0 }
    match runFrom budget 0 ⟨m, span⟩ with
    | .ok outcome ⟨m, span⟩ => .ok outcome ⟨{ m with depth := none }, span⟩
    | .error error ⟨m, span⟩ => .error error ⟨{ m with depth := none }, span⟩

def interrupt (i : Interrupt) : EStateM ExecutionError Spanned Unit := do
  keeping (modify fun m => m.note .debug fun _ =>
    i.name ++ " from " ++ Text.address m.registers.pc)
  perform i.microcode

def irq : EStateM ExecutionError Spanned Unit := do
  if (← get).machine.registers.status.irqDisable then pure ()
  else interrupt .irq

/-- Switch off and on again. An empty field stays empty. -/
def hardReset : EStateM ExecutionError Spanned Unit := do
  keeping Machine.hardReset
  modify fun s => { s with span := none }

/-- A reset reads its vector without a span. -/
theorem hardReset_eq (m : Machine) :
    hardReset ⟨m, none⟩ = keeping Machine.hardReset ⟨m, none⟩ := by
  cases hm : Machine.hardReset m with
  | error e m' => rw [hardReset, bind_of_error (keeping_of_error hm), keeping_of_error hm]
  | ok u m' =>
    rw [hardReset, bind_of_ok (keeping_of_ok hm), keeping_of_ok hm]
    rfl

def act : Operation → EStateM ExecutionError Spanned Unit
  | .step => step
  | .run budget => Machine.ofFault (runFrom budget 0)
  | .runRoutine address budget => Machine.ofFault (runRoutine address budget)
  | .interrupt i => interrupt i
  | .irq => irq
  | .access p => perform p
  | .look view => keeping (Machine.observe view)

def actAll : List Operation → EStateM ExecutionError Spanned Unit
  | [] => pure ()
  | op :: rest => do
    act op
    actAll rest

/-- A run ends without a span, however it ends, by induction on the budget. -/
theorem runFrom_eq (budget executed : Nat) (m : Machine) :
    runFrom budget executed ⟨m, none⟩ = keeping (Machine.runFrom budget executed) ⟨m, none⟩ := by
  induction budget generalizing executed m with
  | zero => rfl
  | succ budget ih =>
    rw [runFrom]
    cases hboundary : m.boundary executed with
    | stop outcome => simp only [keeping, Machine.runFrom, hboundary]
    | fail error => simp only [keeping, Machine.runFrom, hboundary]
    | proceed =>
      have hstep := step_eq m none
      cases hm : Machine.step m with
      | ok u m' =>
        rw [keeping_of_ok hm] at hstep
        simp only [hboundary, hstep]
        rw [ih]
        exact keeping_congr (Machine.runFrom_succ_of_ok hboundary hm budget).symm
      | error e m' =>
        rw [keeping_of_error hm] at hstep
        simp only [hboundary, hstep]
        exact keeping_congr (Machine.runFrom_succ_of_error hboundary hm budget).symm

theorem runRoutine_eq (address : UInt16) (budget : Nat) (m : Machine) :
    runRoutine address budget ⟨m, none⟩ =
      keeping (Machine.runRoutine address budget) ⟨m, none⟩ := by
  have hpush := perform_eq (Microcode.pushWord (m.registers.pc - 1)) ⟨m, none⟩
  rw [runRoutine, hpush]
  unfold keeping Machine.runRoutine
  dsimp only
  cases Machine.perform none (Microcode.pushWord (m.registers.pc - 1)) m with
  | error e m₁ => rfl
  | ok u m₁ =>
    dsimp only
    rw [runFrom_eq, keeping, Machine.run]
    dsimp only
    cases Machine.runFrom budget 0
      { m₁.setRegisters { m₁.registers with pc := address } with depth := some 0 } <;> rfl

/-- Forgetting the trace of a fault has nothing to do with the span. -/
theorem ofFault_eq {act : EStateM Fault Spanned α} {act' : EStateM Fault Machine α} {s : Spanned}
    (h : act s = keeping act' s) : Machine.ofFault act s = keeping (Machine.ofFault act') s := by
  unfold Machine.ofFault
  rw [h]
  unfold keeping
  dsimp only
  cases act' s.machine <;> rfl

theorem interrupt_eq (i : Interrupt) (m : Machine) :
    interrupt i ⟨m, none⟩ = keeping (Machine.interrupt i) ⟨m, none⟩ := by
  rw [interrupt, Machine.interrupt, keeping_bind, bind_of_ok (keeping_modify _ _),
    bind_of_ok (keeping_modify _ _)]
  exact perform_eq i.microcode _

theorem irq_eq (m : Machine) :
    irq ⟨m, none⟩ = keeping (Machine.irq >>= fun _ => pure ()) ⟨m, none⟩ := by
  rw [irq, get_bind_apply, keeping, Machine.irq, bind_assoc, get_bind_apply]
  split
  next => rfl
  next =>
    have hinterrupt := interrupt_eq .irq m
    rw [hinterrupt, keeping, bind_assoc]
    cases hm : Machine.interrupt .irq m with
    | ok u m' => rw [bind_of_ok hm]; rfl
    | error e m' => rw [bind_of_error hm]

/-- Every operation that begins without a span ends without one. -/
theorem act_eq (op : Operation) (m : Machine) : act op ⟨m, none⟩ = keeping op.act ⟨m, none⟩ := by
  cases op with
  | step => exact step_eq m none
  | run budget => exact ofFault_eq (runFrom_eq budget 0 m)
  | runRoutine address budget => exact ofFault_eq (runRoutine_eq address budget m)
  | interrupt i => exact interrupt_eq i m
  | irq => exact irq_eq m
  | access p => exact perform_eq p ⟨m, none⟩
  | look view => rfl

/-- Operations on a machine with a field are those of the machine without it, and they leave the
field empty. -/
theorem actAll_eq_keeping (ops : List Operation) (m : Machine) :
    actAll ops ⟨m, none⟩ = keeping (Machine.actAll ops) ⟨m, none⟩ := by
  induction ops generalizing m with
  | nil => rfl
  | cons op rest ih =>
    rw [actAll, Machine.actAll, keeping_bind]
    have hact := act_eq op m
    cases hm : op.act m with
    | error e m' =>
      rw [bind_of_error (hact.trans (keeping_of_error hm)), bind_of_error (keeping_of_error hm)]
    | ok u m' =>
      rw [bind_of_ok (hact.trans (keeping_of_ok hm)), bind_of_ok (keeping_of_ok hm)]
      exact ih m'

end Spanned

end Mos6502
