import Mos6502.Proofs.CartridgeImages
import Mos6502.Proofs.HaltAddress
import Mos6502.Runner.Run

/-!
# The verdict of the runner

With a success address the exit code is zero exactly if the instruction at that address is executed
and is not found to be stuck, whatever the command line that was read so (`exit_code_of_success`).
Every image that can be loaded gives a machine whose only breakpoint watches the address, so its run
ends behind the first instruction there; what remains is to follow the session, which prints and
creates files on the way to the exit code. An instruction that jumps to itself is executed like any
other, but if the program counter is tested the run fails behind it, and then the verdict does not
ask what the breakpoint has been shown.
-/

namespace Mos6502

open Machine (begunFrom lifetime)

namespace Runner

variable {o : Options} {data : Array UInt8} {board : Board}

/-! ## Boards of images power on -/

theorem Options.exists_read_of_load (h : (o.load data).board = .ok board) {address : UInt16}
    (haddress : 0x8000 ≤ address.toNat) : ∃ v, board.read address = .ok v := by
  unfold Options.load at h
  dsimp only at h
  split at h
  · obtain ⟨flat, -, rfl⟩ := except_map_eq_ok.mp (except_mapError_eq_ok.mp h)
    exact ⟨_, rfl⟩
  · exact CartridgeImage.exists_read_of_load (except_mapError_eq_ok.mp h) haddress

/-- Flat memory is built from its own content. -/
theorem Options.load_memory (hflat : o.flat = true) (b : Flat) :
    (o.load b.memory.toArray).board = .ok (.flat b) := by
  have himage : Flat.ofImage b.memory.toArray = .ok b := dif_pos b.memory.size_toArray
  simp only [Options.load, hflat, himage]
  rfl

/-- A machine can be put around every board that is built from an image. -/
theorem Options.exists_machine_of_load (h : (o.load data).board = .ok board) :
    ∃ m, o.machine board = .ok m := by
  obtain ⟨p, hpower, -⟩ := Machine.exists_powerOn (fun _ => exists_read_of_load h) o.config
  rw [Options.machine, hpower]
  cases o.success <;> exact ⟨_, rfl⟩

/-- The machine of a program that passes at an address, in front of the first instruction. -/
structure Poised (o : Options) (board : Board) (address : UInt16) (m : Machine) : Prop where
  board : m.board = board
  start : o.flat = true → m.registers.pc = o.pc.getD 0x0400
  config : m.config = o.config
  halted : m.halted = false
  depth : m.depth = none
  guards : m.breakpoints.Guards "success" address
  hits : m.hits = #[]

/-- The machine of a session waits for the success address. -/
theorem Options.poised_machine {m : Machine} {address : UInt16}
    (hsuccess : o.success = some address) (h : o.machine board = .ok m) :
    Poised o board address m := by
  obtain ⟨p, hpower, h⟩ := except_bind_eq_ok.mp h
  obtain ⟨pc, -, hpower⟩ := except_bind_eq_ok.mp hpower
  cases hpower
  simp only [hsuccess] at h
  cases h
  have hguards := Breakpoints.guards_register "success" address
  cases hflat : o.flat with
  | true => exact ⟨rfl, fun _ => rfl, rfl, rfl, rfl, hguards, Machine.hits_note _ _ _⟩
  | false => exact ⟨rfl, by simp [hflat], rfl, rfl, rfl, hguards, Machine.hits_note _ _ _⟩

/-! ## Sessions -/

/-- The surroundings let these files be created, one after the other. -/
def Surroundings.Takes (around : Surroundings) : Creations → List (String × List UInt8) → Prop
  | _, [] => True
  | created, (path, content) :: rest =>
    around.creatable created path content = .ok () ∧
      around.Takes (created.push (path, content)) rest

namespace Session

variable {α β : Type} {around : Surroundings}

/-- Sessions are held one after the other, with the transcript handed on. -/
theorem hold_seq (s : Session α) (f : α → Session β) (t : Transcript) :
    (s >>= f).hold around t = (f (s.hold around t).1).hold around (s.hold around t).2 :=
  hold_bind around s f t

/-- Printing creates no file. -/
theorem files_forM {γ : Type} (line : γ → Session Unit)
    (hline : ∀ x t, ((line x).hold around t).2.files = t.files) (xs : List γ) (t : Transcript) :
    ((xs.forM line).hold around t).2.files = t.files := by
  induction xs generalizing t with
  | nil => rfl
  | cons x rest ih =>
    change ((line x >>= fun _ => rest.forM line).hold around t).2.files = t.files
    rw [hold_seq]
    exact (ih _).trans (hline x t)

theorem files_remarkAll (around : Surroundings) (records : Array Record) (t : Transcript) :
    ((remarkAll records).hold around t).2.files = t.files :=
  files_forM _ (fun _ _ => rfl) _ t

theorem createAll_of_takes {files : List (String × List UInt8)} {t : Transcript}
    (h : around.Takes t.files files) : ((createAll files).hold around t).1 = .ok () := by
  induction files generalizing t with
  | nil => rfl
  | cons file rest ih =>
    obtain ⟨path, content⟩ := file
    obtain ⟨hcreate, hrest⟩ := h
    have hfile : (createFile path content).hold around t =
        (.ok (), { t with files := t.files.push (path, content) }) := by
      simp only [createFile, hold, hcreate]
    rw [createAll, hold_seq, hfile]
    exact ih hrest

theorem hold_fail (line : String) (t : Transcript) : ((fail line).hold around t).1 = 1 := rfl

/-- The exit code is zero if the run has stopped and has done what the options ask for. -/
theorem conclude_eq_zero_iff (o : Options) (e : Execution) (t : Transcript) :
    ((conclude o e).hold around t).1 = 0 ↔
      ∃ outcome, e.result = .ok (some outcome) ∧ passed o e.machine outcome = true := by
  obtain ⟨fault | ⟨_ | outcome⟩, m⟩ := e
  · simp [conclude, hold_seq, hold_fail]
  · simp [conclude, hold_fail]
  · simp only [conclude, hold_seq]
    cases hpassed : passed o m outcome with
    | true => simp [hpassed]; rfl
    | false => simp [hpassed, hold_fail]

/-- With its files created, a run exits with 0 exactly if it stopped and passed. -/
theorem runBoard_eq_zero_iff {m : Machine} (hmachine : o.machine board = .ok m) {t : Transcript}
    (htakes : around.Takes t.files (logFiles o (execute m).machine)) :
    ((runBoard o board).hold around t).1 = 0 ↔
      ∃ outcome, (execute m).result = .ok (some outcome) ∧
        passed o (execute m).machine outcome = true := by
  rw [← files_remarkAll around (execute m).machine.journal.records] at htakes
  rw [runBoard, hmachine]
  dsimp only
  rw [hold_seq, hold_seq, createAll_of_takes htakes]
  exact conclude_eq_zero_iff o (execute m) _

/-- The exit code of a program that is run, if its files can be written. -/
theorem start_eq_zero_iff {reader : List String → Except UsageError Options}
    {words : List String} (hread : reader words = .ok o) (hhelp : o.help = false)
    (hlist : o.listOpcodes = false) {path : String}
    (himage : o.image = some path) (around : Surroundings)
    (hcontent : around.content #[] path = .ok data) (hload : (o.load data).board = .ok board)
    {m : Machine} (hmachine : o.machine board = .ok m)
    (htakes : around.Takes #[] (logFiles o (execute m).machine)) :
    ((start reader words).hold around {}).1 = 0 ↔
      ∃ outcome, (execute m).result = .ok (some outcome) ∧
        passed o (execute m).machine outcome = true := by
  have hstart : start reader words = runImage o path := by
    simp [start, hread, follow, hhelp, hlist, himage]
  have hfile : (readFile path).hold around {} = (.ok data, {}) := by
    simp only [readFile, hold, hcontent]
  rw [hstart, runImage, hold_seq, hfile]
  dsimp only
  rw [hold_seq, hload]
  dsimp only
  rw [hold_seq]
  refine runBoard_eq_zero_iff hmachine ?_
  change around.Takes ((remarkAll (o.load data).records).hold around {}).2.files _
  rwa [files_remarkAll]

end Session

/-! ## The verdict -/

theorem machine_execute (m : Machine) (budget : Nat) :
    (execute m budget).machine = finalState (Machine.run budget m) := by
  unfold execute
  cases Machine.run budget m <;> rfl

/-- With a success address the verdict is whether the run has stopped with the breakpoint having
been shown something. -/
theorem passed_iff {address : UInt16} (hsuccess : o.success = some address) (m : Machine) :
    (∃ outcome, (execute m).result = .ok (some outcome) ∧
        passed o (execute m).machine outcome = true) ↔
      ∃ outcome m', Machine.run lifetime m = .ok (some outcome) m' ∧ m'.hits ≠ #[] := by
  unfold execute
  cases hrun : Machine.run lifetime m with
  | error fault m' => simp
  | ok outcome m' => simp [passed, hsuccess, Machine.hits]

/-- The program passes exactly if the instruction at the success address is executed: it is fetched
there, the breakpoint is shown its execution, and it runs to completion, leaving the program counter
somewhere else if that is asked for. This instruction is the last one of the run, which leaves
registers and board as they are behind it. -/
theorem exit_code_of_success {reader : List String → Except UsageError Options}
    {words : List String} (hread : reader words = .ok o)
    {address : UInt16} (hsuccess : o.success = some address) (hhelp : o.help = false)
    (hlist : o.listOpcodes = false) {path : String} (himage : o.image = some path)
    (around : Surroundings) (hcontent : around.content #[] path = .ok data)
    (hload : (o.load data).board = .ok board) :
    ∃ m, o.machine board = .ok m ∧
      (around.Takes #[] (logFiles o (execute m).machine) →
        (((Session.start reader words).hold around {}).1 = 0 ↔
          ∃ mk ∈ begunFrom lifetime 0 m, ∃ mc, mk.CompletesAt "success" address mc ∧
            ¬ (o.checkStuck = true ∧ mc.registers.pc = address))) ∧
      ∀ mk ∈ begunFrom lifetime 0 m, mk.registers.pc = address →
        (begunFrom lifetime 0 m).getLast? = some mk ∧
          (execute m).machine.core = (finalState (Machine.step mk)).core := by
  obtain ⟨m, hmachine⟩ := Options.exists_machine_of_load hload
  have hpoised := Options.poised_machine hsuccess hmachine
  have hrun := Machine.guardedRun_runFrom hpoised.guards hpoised.depth lifetime 0
  rw [hpoised.hits, ← Machine.run] at hrun
  refine ⟨m, hmachine, fun htakes => ?_, fun mk hmem hhere => ?_⟩
  · have hstuck : ∀ mk ∈ begunFrom lifetime 0 m, mk.config.checkStuck = o.checkStuck := by
      intro mk hmem
      rw [Machine.config_of_begun _ _ _ mk hmem, hpoised.config, Options.config]
    rw [Session.start_eq_zero_iff hread hhelp hlist himage around hcontent hload hmachine htakes,
      passed_iff hsuccess, hrun.shown_iff]
    refine exists_congr fun mk => and_congr_right fun hmem => ?_
    rw [hstuck mk hmem]
  · rw [machine_execute]
    exact hrun.last hmem hhere

/-! ## A jump to itself -/

/-- Memory in which every byte is the opcode of a jump, so that the jump at $4C4C goes to $4C4C. -/
def jumps : Flat := ⟨Vector.replicate flatSize 0x4C⟩

theorem read_jumps (address : UInt16) : jumps.read address = 0x4C := by
  simp [jumps, Flat.read, Vector.get]

theorem word_jumps (address : UInt16) : jumps.word address = 0x4C4C := by
  rw [Flat.word, read_jumps, read_jumps]
  decide

/-- A jump to itself ends where it began. -/
theorem cycle_jumps {c : Core} (hboard : c.board = .flat jumps) (hpc : c.registers.pc = 0x4C4C) :
    Core.cycle c = .ok () c := by
  obtain ⟨r, b⟩ := c
  subst hboard
  have hread : Board.read (.flat jumps) r.pc = .ok 0x4C := congrArg Except.ok (read_jumps _)
  have hdecode : Instruction.decode 0x4C = some (.jmp .absolute) := by decide
  have hjump : (Instruction.jmp .absolute).microcode.execute ⟨r, .flat jumps⟩ =
      .ok () ⟨{ r with pc := jumps.word (r.pc + 1) }, .flat jumps⟩ :=
    Microcode.execute_bind_of_ok (execute_resolve_flat .absolute r jumps)
  rw [word_jumps, ← hpc] at hjump
  simp only [Core.cycle, hread, hdecode, Core.perform, hjump]

/-- Run that memory from $4C4C, where the program passes. -/
def jumpOptions (checkStuck : Bool) : Options where
  image := some "jumps"
  flat := true
  pc := some 0x4C4C
  success := some 0x4C4C
  checkStuck := checkStuck

/-- Surroundings in which every file holds that memory, and any file can be created. -/
def jumpSurroundings : Surroundings where
  content _ _ := .ok jumps.memory.toArray
  creatable _ _ _ := .ok ()

/-- The jump is executed as the first instruction. -/
theorem completesAt_jumps {checkStuck : Bool} {m : Machine}
    (h : (jumpOptions checkStuck).machine (.flat jumps) = .ok m) :
    m.boundary 0 = .proceed ∧
      ∃ mc, m.CompletesAt "success" 0x4C4C mc ∧ mc.registers.pc = 0x4C4C := by
  have hpoised := Options.poised_machine rfl h
  have hpc : m.registers.pc = 0x4C4C := hpoised.start rfl
  have hproceed : m.boundary 0 = .proceed := by
    simp [Machine.boundary, hpoised.depth, hpoised.halted, hpoised.config, Options.config,
      jumpOptions]
  have hcore := Machine.unwatched_cycle m
  rw [cycle_jumps hpoised.board hpc] at hcore
  cases hcycle : Machine.cycle m with
  | error e mc => rw [hcycle] at hcore; cases hcore
  | ok u mc =>
    rw [hcycle] at hcore
    have hsame : mc.core = m.core := (EStateM.Result.ok.inj hcore).2
    have hnoticed := Machine.noticed_cycle hpoised.guards hpc hcycle
    refine ⟨hproceed, mc, ⟨hpc, hnoticed.hit, hcycle⟩, ?_⟩
    rw [Machine.registers, hsame]
    exact hpc

theorem mem_begun_of_proceed {m : Machine} (hproceed : m.boundary 0 = .proceed) :
    m ∈ begunFrom lifetime 0 m := by
  rw [lifetime, begunFrom]
  simp [hproceed]

/-- The program passes at the jump. -/
theorem exit_code_at_jump :
    ((Session.start Options.read ["jumps", "--flat", "--pc", "4C4C", "--success", "4C4C"]).hold
      jumpSurroundings {}).1 = 0 := by
  have hread : Options.read ["jumps", "--flat", "--pc", "4C4C", "--success", "4C4C"] =
      .ok (jumpOptions false) := by decide +kernel
  obtain ⟨m, hmachine, hverdict, -⟩ := exit_code_of_success hread rfl rfl rfl rfl
    jumpSurroundings rfl (Options.load_memory rfl jumps)
  obtain ⟨hproceed, mc, hcompletes, -⟩ := completesAt_jumps hmachine
  refine (hverdict trivial).mpr ⟨m, mem_begun_of_proceed hproceed, mc, hcompletes, ?_⟩
  simp [jumpOptions]

/-- If the program counter is tested, the same jump is executed and the program does not pass. -/
theorem exit_code_at_stuck_jump :
    ∃ m, (jumpOptions true).machine (.flat jumps) = .ok m ∧
      jumpSurroundings.Takes #[] (logFiles (jumpOptions true) (execute m).machine) ∧
      (∃ mk ∈ begunFrom lifetime 0 m, ∃ mc, mk.CompletesAt "success" 0x4C4C mc) ∧
      ((Session.start Options.read
        ["jumps", "--flat", "--pc", "4C4C", "--success", "4C4C", "--check-stuck"]).hold
          jumpSurroundings {}).1 ≠ 0 := by
  have hread : Options.read
      ["jumps", "--flat", "--pc", "4C4C", "--success", "4C4C", "--check-stuck"] =
      .ok (jumpOptions true) := by decide +kernel
  obtain ⟨m, hmachine⟩ := Options.exists_machine_of_load
    (Options.load_memory (o := jumpOptions true) rfl jumps)
  obtain ⟨hproceed, mc, hcompletes, hpc⟩ := completesAt_jumps hmachine
  refine ⟨m, hmachine, trivial, ⟨m, mem_begun_of_proceed hproceed, mc, hcompletes⟩, ?_⟩
  rw [Ne, Session.start_eq_zero_iff hread rfl rfl rfl jumpSurroundings rfl
    (Options.load_memory rfl jumps) hmachine trivial, passed_iff rfl]
  rintro ⟨outcome, m', hrun, -⟩
  have hstuck : ¬ ∃ m', Machine.step m = .ok () m' := by
    rw [Machine.exists_step_iff hcompletes.completed, hcompletes.fetched,
      (Options.poised_machine rfl hmachine).config]
    simp [Options.config, jumpOptions, hpc]
  cases hstep : Machine.step m with
  | ok u m'' => exact hstuck ⟨m'', hstep⟩
  | error e mf =>
    obtain ⟨journal, hfault, -⟩ := Machine.fault_apply (α := Option Outcome) e mf
    have hfails := Machine.runFrom_succ_of_error hproceed hstep (lifetime - 1)
    rw [hfault] at hfails
    cases hrun.symm.trans hfails

end Runner

end Mos6502
