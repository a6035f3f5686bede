import Mos6502.Proofs.Updates

/-!
# What an instruction leaves alone

Each update of a machine is described once: what it does to the fields that it touches, all others
being as they were. From this come two frames. `OnlyLogs` belongs to the observers that render and
record: nothing but history, code/data log and log records differs behind them. `InStep` belongs to
everything inside an instruction: the configuration and the tick count stay, and a halt that was
asked for stays asked for. Each part of a step is put into the smaller frame that it meets.
-/

namespace Mos6502

namespace Journal

theorem hits_note (j : Journal) (level : Level) (text : Unit → String) :
    (j.note level text).hits = j.hits := by
  unfold note
  split <;> rfl

theorem hits_foldl_hit (hits : List Breakpoints.Hit) (j : Journal) :
    (hits.foldl Journal.hit j).hits = j.hits ++ hits.toArray := by
  induction hits generalizing j with
  | nil => simp
  | cons hit rest ih =>
    have hpush : (j.hit hit).hits = j.hits.push hit := by
      rw [Journal.hit, hits_note]
    rw [List.foldl_cons, ih, hpush]
    simp

end Journal

/-- Without breakpoints an access is shown to no one. -/
theorem Breakpoints.fire_of_isEmpty {b : Breakpoints} (h : b.isEmpty = true) (access : Access) :
    b.fire access = { breakpoints := b, hits := [], halt := false } := by
  have hnone := Std.TreeMap.getElem?_of_isEmpty (a := access.address) h
  simp only [Breakpoints.fire, hnone]

namespace Machine

variable {α : Type}

def hits (m : Machine) : Array Breakpoints.Hit := m.journal.hits

/-! ## What each update does -/

/-- The breakpoints decide what an access adds to the hits, and whether a halt is due. -/
theorem fire_eq (m : Machine) (events : Events) (address : UInt16) (value : UInt8) :
    let fired := m.breakpoints.fire { events, address, value, registers := m.core.registers }
    ∃ journal, m.fire events address value = { m with
        breakpoints := fired.breakpoints
        halted := m.halted || fired.halt
        journal := journal } ∧
      journal.hits = m.hits ++ fired.hits.toArray := by
  intro fired
  unfold fire
  split
  next hempty =>
    have hfired : fired = { breakpoints := m.breakpoints, hits := [], halt := false } :=
      Breakpoints.fire_of_isEmpty hempty _
    rw [hfired]
    exact ⟨m.journal, by simp, Array.append_empty.symm⟩
  next =>
    have hhits := Journal.hits_foldl_hit fired.hits m.journal
    dsimp only
    split
    next hasked =>
      rw [hasked, Bool.or_true]
      exact ⟨_, rfl, (Journal.hits_note _ _ _).trans hhits⟩
    next hnot =>
      rw [Bool.eq_false_iff.mpr hnot, Bool.or_false]
      exact ⟨_, rfl, hhits⟩

/-- A write changes the board, and nothing else but the log text. -/
theorem poke_eq (m : Machine) (address : UInt16) (value : UInt8) :
    ∃ journal, m.poke address value = { m with
        core := { m.core with board := m.core.board.write address value }
        journal := journal } ∧
      journal.hits = m.hits := by
  unfold poke
  dsimp only
  split
  next => exact ⟨_, rfl, Journal.hits_note _ _ _⟩
  next => exact ⟨_, rfl, rfl⟩

theorem mark_eq (m : Machine) (address : UInt16) (u : Usage) :
    ∃ log, m.mark address u = { m with log := log } := by
  unfold mark
  split <;> exact ⟨_, rfl⟩

/-- Recording a line changes the history while tracing, and nothing else but the log text. -/
theorem record_eq (m : Machine) (line : String) :
    ∃ journal, m.record line = { m with
        history := if m.config.trace then m.history.push line else m.history
        journal := journal } ∧
      journal.hits = m.hits := by
  refine ⟨m.journal.note .trace fun _ => line, ?_, Journal.hits_note _ _ _⟩
  unfold record
  cases htrace : m.config.trace <;> simp [note, htrace]

/-! ## The two frames -/

/-- Only what observers have written down differs. -/
structure OnlyLogs (m m' : Machine) : Prop where
  core : m'.core = m.core
  config : m'.config = m.config
  ticks : m'.ticks = m.ticks
  halted : m'.halted = m.halted
  depth : m'.depth = m.depth
  breakpoints : m'.breakpoints = m.breakpoints
  hits : m'.hits = m.hits

/-- What holds between any two moments of one instruction. -/
structure InStep (m m' : Machine) : Prop where
  config : m'.config = m.config
  ticks : m'.ticks = m.ticks
  halted : m.halted = true → m'.halted = true

instance : IsPreorder Machine OnlyLogs where
  refl _ := ⟨rfl, rfl, rfl, rfl, rfl, rfl, rfl⟩
  trans _ _ _ h k := ⟨k.core.trans h.core, k.config.trans h.config, k.ticks.trans h.ticks,
    k.halted.trans h.halted, k.depth.trans h.depth, k.breakpoints.trans h.breakpoints,
    k.hits.trans h.hits⟩

instance : IsPreorder Machine InStep where
  refl _ := ⟨rfl, rfl, id⟩
  trans _ _ _ h k := ⟨k.config.trans h.config, k.ticks.trans h.ticks, k.halted ∘ h.halted⟩

theorem OnlyLogs.inStep {m m' : Machine} (h : OnlyLogs m m') : InStep m m' :=
  ⟨h.config, h.ticks, fun hhalted => h.halted.trans hhalted⟩

/-! ## The observers -/

theorem hits_note (m : Machine) (level : Level) (text : Unit → String) :
    (m.note level text).hits = m.hits := m.journal.hits_note level text

theorem onlyLogs_note (m : Machine) (level : Level) (text : Unit → String) :
    OnlyLogs m (m.note level text) :=
  ⟨rfl, rfl, rfl, rfl, rfl, rfl, hits_note m level text⟩

theorem onlyLogs_mark (m : Machine) (address : UInt16) (u : Usage) :
    OnlyLogs m (m.mark address u) := by
  obtain ⟨log, hmark⟩ := m.mark_eq address u
  rw [hmark]
  exact ⟨rfl, rfl, rfl, rfl, rfl, rfl, rfl⟩

theorem onlyLogs_markRead (m : Machine) (span : Option Span) (address : UInt16) :
    OnlyLogs m (m.markRead span address) := by
  unfold markRead
  split
  next => exact onlyLogs_mark m address .loaded
  next => exact refl m

theorem onlyLogs_record (m : Machine) (line : String) : OnlyLogs m (m.record line) := by
  obtain ⟨journal, hrecord, hhits⟩ := m.record_eq line
  rw [hrecord]
  exact ⟨rfl, rfl, rfl, rfl, rfl, rfl, hhits⟩

theorem eachRecord_onlyLogs : EachRecord OnlyLogs where
  markExecuted m address := onlyLogs_mark m address .executed
  record := onlyLogs_record
  visit _ _ _ := ⟨rfl, rfl, rfl, rfl, rfl, rfl, rfl⟩

/-- Looking at the core leaves the machine as it is. -/
theorem leaves_observe (view : Core → Except BoardError α) : Leaves OnlyLogs (observe view) :=
  leaves_look view

theorem leaves_trace (i : Instruction) : Leaves OnlyLogs (trace i) :=
  eachRecord_onlyLogs.leaves_trace i

theorem leaves_markCode (addresses : List UInt16) : Leaves OnlyLogs (markCode addresses) :=
  eachRecord_onlyLogs.leaves_markCode addresses

theorem leaves_logCode (i : Instruction) : Leaves OnlyLogs (logCode i) :=
  eachRecord_onlyLogs.leaves_logCode i

/-! ## The observers one at a time -/

/-- Tracing is done while the history is kept or the log text is wanted. -/
theorem trace_apply (i : Instruction) (m : Machine) :
    trace i m = if m.tracing then
      (observe (·.traceLine m.ticks i) >>= fun line => modify (·.record line)) m
    else .ok () m := by
  change (if m.tracing = true then _ else _ : EStateM ExecutionError Machine Unit) m = _
  split <;> rfl

/-- The code of an instruction is recorded while the log is kept. -/
theorem logCode_apply (i : Instruction) (m : Machine) :
    logCode i m = if m.config.codeDataLog then
      (markCode ((List.range i.size).map fun n => m.registers.pc + UInt16.ofNat n) >>= list i) m
    else .ok () m := by
  change (if m.config.codeDataLog = true then _ else _ : EStateM ExecutionError Machine Unit) m = _
  split <;> rfl

/-- An instruction is listed the first time its opcode is met in the image. -/
theorem list_apply (i : Instruction) (bytes : List UInt8) (m : Machine) :
    list i bytes m =
      match m.board.locate m.registers.pc with
      | .ok ⟨offset, true⟩ =>
        if m.log.isVisited offset then .ok () m
        else (observe (·.listingLine i offset bytes) >>= fun line =>
          modify fun m => { m with log := m.log.visit offset line }) m
      | .ok ⟨_, false⟩ | .error _ => .ok () m := by
  rw [list, get_bind_apply]
  rcases m.board.locate m.registers.pc with e | ⟨offset, _ | _⟩
  · rfl
  · rfl
  · dsimp only
    cases m.log.isVisited offset <;> rfl

theorem observe_of_ok {view : Core → Except BoardError α} {m : Machine} {a : α}
    (h : view m.core = .ok a) : observe view m = .ok a m := by
  simp only [observe, h]

theorem observe_of_error {view : Core → Except BoardError α} {m : Machine} {e : BoardError}
    (h : view m.core = .error e) : observe view m = .error (.board e) m := by
  simp only [observe, h]

/-- Logging code reads the bytes that it marks, and fails where they cannot be read. -/
theorem markCode_spec (addresses : List UInt16) (m : Machine) :
    match addresses.mapM m.core.peekByte with
    | .ok bytes => ∃ m', markCode addresses m = .ok bytes m'
    | .error e => ∃ m', markCode addresses m = .error (.board e) m' := by
  induction addresses generalizing m with
  | nil => exact ⟨m, rfl⟩
  | cons address rest ih =>
    rw [List.mapM_cons]
    cases hv : m.core.peekByte address with
    | error e => exact ⟨m, bind_of_error (observe_of_error hv)⟩
    | ok v =>
      have hmark : markCode (address :: rest) m =
          (markCode rest >>= fun vs => pure (v :: vs)) (m.mark address .executed) := by
        rw [markCode, bind_of_ok (observe_of_ok hv)]
        rfl
      -- A mark does not change what the next address holds.
      have hrest := ih (m.mark address .executed)
      rw [(onlyLogs_mark m address .executed).core] at hrest
      rw [hmark]
      cases hvs : rest.mapM m.core.peekByte with
      | ok vs =>
        rw [hvs] at hrest
        obtain ⟨m', hm'⟩ := hrest
        exact ⟨m', bind_of_ok hm'⟩
      | error e =>
        rw [hvs] at hrest
        obtain ⟨m', hm'⟩ := hrest
        exact ⟨m', bind_of_error hm'⟩

/-! ## The watched bus -/

theorem inStep_fire (m : Machine) (events : Events) (address : UInt16) (value : UInt8) :
    InStep m (m.fire events address value) := by
  obtain ⟨journal, hfire, -⟩ := m.fire_eq events address value
  rw [hfire]
  exact ⟨rfl, rfl, fun hhalted => by rw [hhalted, Bool.true_or]⟩

theorem inStep_poke (m : Machine) (address : UInt16) (value : UInt8) :
    InStep m (m.poke address value) := by
  obtain ⟨journal, hpoke, -⟩ := m.poke_eq address value
  rw [hpoke]
  exact ⟨rfl, rfl, id⟩

theorem eachInside_inStep : EachInside InStep where
  fire := inStep_fire
  markLoaded m address := (onlyLogs_mark m address .loaded).inStep
  markExecuted m address := (onlyLogs_mark m address .executed).inStep
  poke := inStep_poke
  setRegisters _ _ := ⟨rfl, rfl, id⟩
  record m line := (onlyLogs_record m line).inStep
  visit _ _ _ := ⟨rfl, rfl, id⟩
  nest _ _ := ⟨rfl, rfl, id⟩

theorem leaves_perform (span : Option Span) (p : Microcode α) : Leaves InStep (perform span p) :=
  eachInside_inStep.leaves_perform span p

/-! ## The instruction -/

theorem leaves_fetch : Leaves InStep fetch := eachInside_inStep.leaves_fetch

theorem leaves_cycle : Leaves InStep cycle := eachInside_inStep.leaves_cycle

end Machine

end Mos6502
