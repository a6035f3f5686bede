import Mos6502.Proofs.FailedSteps
import Mos6502.Proofs.Restore
import Mos6502.Proofs.RunLoop

/-!
# When steps, interrupts and runs fail

On a board without bank switching every access succeeds, so a step fails only by the program: the
byte at the program counter encodes no instruction, or the program counter is stuck. Where banks are
switched, an address of the ROM window can be mapped past the image. Then the first such address
that the step or the interrupt reads is reported, and nothing else is (`fault_conditions`).
-/

namespace Mos6502

variable {α : Type} {err : ExecutionError}

/-! ## The first address past the image -/

/-- The error tells of the first address in a list that the bank registers map past the image. -/
structure Mmc1.Reports (b : Mmc1) (order : List UInt16) (address : UInt16) (err : ExecutionError) :
    Prop where
  error : err = .board (.offsetOutOfRange address (b.romOffset address) b.prg.size b.banks)
  points : err.address? = some address
  rom : 0x8000 ≤ address.toNat
  past : b.prg.size ≤ b.romOffset address
  first : ∃ before after, order = before ++ address :: after ∧ ∀ a ∈ before, ¬ b.PastImage a

namespace Mmc1

variable {b : Mmc1} {order : List UInt16} {address : UInt16} {e : BoardError}

/-- A board with banks reads at the addresses within its image. -/
theorem exists_read_iff : (∃ v, (Board.mmc1 b).read address = .ok v) ↔ ¬ b.PastImage address := by
  constructor
  · rintro ⟨v, hread⟩ hpast
    cases hread.symm.trans (Board.read_eq_error_iff.mpr ⟨b, rfl, hpast, rfl⟩)
  · intro hinside
    cases hread : (Board.mmc1 b).read address with
    | ok v => exact ⟨v, rfl⟩
    | error e =>
      obtain ⟨_, ⟨⟩, hpast, -⟩ := Board.read_eq_error_iff.mp hread
      exact absurd hpast hinside

/-- The first address that cannot be read is the first past the image. -/
theorem firstUnreadable_iff :
    (Board.mmc1 b).FirstUnreadable order address e ↔ b.Reports order address (.board e) := by
  constructor
  · intro h
    obtain ⟨before, after, horder, hbefore, hmissing⟩ := h.exists_eq_append
    obtain ⟨_, ⟨⟩, ⟨hrom, hpast⟩, rfl⟩ := Board.read_eq_error_iff.mp hmissing
    exact ⟨rfl, rfl, hrom, hpast, before, after, horder,
      fun a ha => exists_read_iff.mp (hbefore a ha)⟩
  · rintro ⟨herror, -, hrom, hpast, before, after, rfl, hbefore⟩
    cases herror
    induction before with
    | nil => exact .here (Board.read_eq_error_iff.mpr ⟨b, rfl, ⟨hrom, hpast⟩, rfl⟩)
    | cons a rest ih =>
      obtain ⟨v, hread⟩ := exists_read_iff.mpr (hbefore a List.mem_cons_self)
      exact .later hread (ih fun a' ha' => hbefore a' (List.mem_cons_of_mem a ha'))

end Mmc1

namespace Board

variable {b : Board} {order : List UInt16} {address : UInt16} {e : BoardError}

/-- A board without banks can be read everywhere. -/
theorem not_firstUnreadable (h : b.kind ≠ .mmc1) : ¬ b.FirstUnreadable order address e := by
  intro hfirst
  obtain ⟨before, after, -, -, hmissing⟩ := hfirst.exists_eq_append
  obtain ⟨mmc1, rfl, -⟩ := read_eq_error_iff.mp hmissing
  exact h rfl

/-- Only a board with bank switching has addresses that cannot be read. -/
theorem exists_firstUnreadable_iff :
    (∃ e address, err = .board e ∧ b.FirstUnreadable order address e) ↔
      ∃ mmc1 address, b = .mmc1 mmc1 ∧ mmc1.Reports order address err := by
  constructor
  · rintro ⟨e, address, rfl, hfirst⟩
    cases b with
    | nrom b => exact absurd hfirst (not_firstUnreadable nofun)
    | flat b => exact absurd hfirst (not_firstUnreadable nofun)
    | mmc1 b => exact ⟨b, address, rfl, Mmc1.firstUnreadable_iff.mp hfirst⟩
  · rintro ⟨mmc1, address, rfl, hreports⟩
    obtain rfl := hreports.error
    exact ⟨_, address, rfl, Mmc1.firstUnreadable_iff.mpr hreports⟩

theorem SameCartridge.kind_eq {b' : Board} (h : b.SameCartridge b') : b'.kind = b.kind := by
  cases b <;> cases b' <;> first | rfl | exact h.elim

/-- Clearing memory does not touch the ROM window. -/
theorem read_clearRam (b : Board) (h : 0x8000 ≤ address.toNat) :
    b.clearRam.read address = b.read address := by
  cases b with
  | flat b => rfl
  | nrom b =>
    simp only [clearRam, Nrom.clearRam, read, Nrom.read, Region.of_eq_cartRom h]
    rfl
  | mmc1 b =>
    simp only [clearRam, Mmc1.clearRam, read, Mmc1.read_of_rom _ h]
    rfl

end Board

/-! ## Steps -/

namespace Machine

/-- Why a step can fail on any board: the byte at the program counter encodes no instruction, or the
instruction leaves the program counter where it is while that is tested for. -/
inductive OwnFault (m : Machine) : ExecutionError → Prop where
  | unimplemented {opcode : UInt8} (hread : m.board.read m.registers.pc = .ok opcode)
      (hdecode : Instruction.decode opcode = none) :
      OwnFault m (.unimplementedOpcode m.registers.pc opcode)
  | stuck {moved : Machine} (hcheck : m.config.checkStuck = true)
      (hstep : step m.unchecked = .ok () moved) (hpc : moved.registers.pc = m.registers.pc) :
      OwnFault m (.stuck m.registers.pc)

variable {m m' : Machine}

/-- A step fails by the program, or with the first byte that it reads past the image. -/
theorem exists_step_error_iff :
    (∃ m', step m = .error err m') ↔
      m.OwnFault err ∨ ∃ b address, m.board = .mmc1 b ∧ b.Reports m.core.readOrder address err := by
  rw [← Board.exists_firstUnreadable_iff]
  constructor
  · rintro ⟨m', hstep⟩
    by_cases hstuck : ∃ address, err = .stuck address
    · obtain ⟨address, rfl⟩ := hstuck
      obtain ⟨hcheck, rfl, moved, hmoved, hpc, -⟩ := step_eq_stuck_iff.mp hstep
      exact .inl (.stuck hcheck hmoved hpc)
    · have hcycle := cycle_of_step_error hstep fun address h => hstuck ⟨address, h⟩
      obtain ⟨-, ⟨hread, hdecode⟩ | ⟨hfirst⟩⟩ := of_cycle_error hcycle
      · exact .inl (.unimplemented hread hdecode)
      · exact .inr ⟨_, _, rfl, hfirst⟩
  · rintro ((⟨hread, hdecode⟩ | ⟨hcheck, hmoved, hpc⟩) | ⟨e, address, rfl, hfirst⟩)
    · obtain ⟨m', hcycle⟩ := exists_cycle_error_iff.mpr (.unimplemented hread hdecode)
      exact ⟨m', step_of_cycle_error hcycle⟩
    · exact ⟨_, step_eq_stuck_iff.mpr ⟨hcheck, rfl, _, hmoved, hpc, rfl⟩⟩
    · obtain ⟨m', hcycle⟩ := exists_cycle_error_iff.mpr (.unreadable hfirst)
      exact ⟨m', step_of_cycle_error hcycle⟩

/-! ## Interrupts and resets -/

/-- An interrupt fails only in reading its vector. -/
theorem exists_interrupt_error_iff (i : Interrupt) :
    (∃ m', interrupt i m = .error err m') ↔
      ∃ b address, m.board = .mmc1 b ∧ b.Reports (wordAddresses i.vector) address err := by
  rw [← Board.exists_firstUnreadable_iff, exists_error_iff (unwatched_interrupt i m)]
  simp only [Core.perform_eq_error_iff, i.execute_eq_error_iff]
  constructor
  · rintro ⟨c', e, herr, -, address, hfirst⟩
    exact ⟨e, address, herr, hfirst⟩
  · rintro ⟨e, address, herr, hfirst⟩
    exact ⟨_, e, herr, rfl, address, hfirst⟩

/-- A masked request cannot fail. -/
theorem exists_irq_error_iff :
    (∃ m', irq m = .error err m') ↔
      m.registers.status.irqDisable = false ∧ ∃ m', interrupt .irq m = .error err m' := by
  rw [irq_apply]
  cases hdisabled : m.registers.status.irqDisable with
  | true => simp
  | false =>
    cases hinterrupt : interrupt .irq m with
    | ok u m' => simp [bind_of_ok hinterrupt, Pure.pure, EStateM.pure]
    | error e m' => simp [bind_of_error hinterrupt]

theorem exists_hardReset_error_iff :
    (∃ m', hardReset m = .error err m') ↔
      ∃ b address, m.board = .mmc1 b ∧
        b.Reports (wordAddresses Interrupt.reset.vector) address err := by
  let start : Machine := { m with core := ⟨.powerOn, m.core.board.clearRam⟩ }
  have hvector : ∀ e, start.core.peekWord Interrupt.reset.vector = .error e ↔
      ∃ address, m.board.FirstUnreadable (wordAddresses Interrupt.reset.vector) address e := by
    intro e
    rw [Core.peekWord_eq_error_iff]
    refine exists_congr fun address => Board.FirstUnreadable.congr fun a ha => ?_
    exact m.board.read_clearRam (Interrupt.reset.le_of_mem_vector a ha)
  rw [← Board.exists_firstUnreadable_iff]
  simp only [exists_and_left, ← hvector]
  cases hpeek : start.core.peekWord Interrupt.reset.vector with
  | ok pc =>
    have hreset : ∃ m', hardReset m = .ok () m' :=
      ⟨_, (modify_bind_apply _ _ m).trans (bind_of_ok (observe_of_ok (m := start) hpeek))⟩
    obtain ⟨m', hreset⟩ := hreset
    simp [hreset]
  | error e =>
    have hreset : hardReset m = .error (.board e) start :=
      (modify_bind_apply _ _ m).trans (bind_of_error (observe_of_error (m := start) hpeek))
    simp [hreset, eq_comm]

/-! ## Runs -/

theorem sameCartridge_steps (k : Nat) {mk : Machine} (h : steps k m = .ok () mk) :
    m.board.SameCartridge mk.board := by
  induction k generalizing mk with
  | zero =>
    cases h
    exact refl (r := Board.SameCartridge) m.board
  | succ k ih =>
    obtain ⟨u, mj, hsteps, hstep⟩ := bind_eq_ok.mp h
    have hcore := core_step Core.sameCartridge_kept mj
    rw [hstep] at hcore
    exact IsTrans.trans (r := Board.SameCartridge) _ _ _ (ih hsteps) hcore

/-- A run fails at the instruction limit, or as the step does that is due when it fails. -/
theorem step_error_of_run_error {budget : Nat} {fault : Fault}
    (h : run budget m = .error fault m') :
    (∃ count, fault.error = .instructionLimit count) ∨
      ∃ k mk, Course m k mk ∧ ∃ mf, step mk = .error fault.error mf := by
  have hends := run_ends m budget
  rw [h] at hends
  obtain ⟨k, mk, ⟨-, hfaulted⟩ | ⟨-, mf, hfailed⟩⟩ := hends
  · have hcondition := hfaulted.condition
    generalize hresult : Except.error fault.error = result at hcondition
    cases hcondition with
    | limitFault => exact .inl ⟨k, Except.error.inj hresult⟩
    | unreadable _ _ _ _ hnext =>
      refine .inr ⟨k, mk, hfaulted.course, ?_⟩
      rw [Except.error.inj hresult]
      obtain ⟨mf, hcycle⟩ := exists_cycle_error_iff.mpr (.unreadable (.here hnext))
      exact ⟨mf, step_of_cycle_error hcycle⟩
    | returned | halted | limitReached | stopped => cases hresult
  · exact .inr ⟨k, mk, hfailed.course, mf, hfailed.step_eq⟩

/-! ## Accesses that cannot fail -/

theorem exists_perform_ok {span : Option Span} {p : Microcode α}
    (h : ∃ a c', p.execute m.core = .ok a c') : ∃ a m', perform span p m = .ok a m' := by
  obtain ⟨a, c', hexecute⟩ := h
  obtain ⟨m', hperform, -⟩ := perform_of_execute span hexecute
  exact ⟨a, m', hperform⟩

theorem exists_ok_of_not_error {act : EStateM ExecutionError Machine α}
    (h : ∀ err, ¬ ∃ m', act m = .error err m') : ∃ a m', act m = .ok a m' := by
  cases hact : act m with
  | ok a m' => exact ⟨a, m', rfl⟩
  | error err m' => exact absurd ⟨m', hact⟩ (h err)

/-- What no board refuses: accesses to the stack, and reads below the ROM window. -/
structure ReachesRam (m : Machine) : Prop where
  pull : ∃ v m', perform none Microcode.pull m = .ok v m'
  pullWord : ∃ v m', perform none Microcode.pullWord m = .ok v m'
  push : ∀ v, ∃ m', perform none (Microcode.push v) m = .ok () m'
  stackText : ∃ text, m.core.stackText = .ok text
  read : ∀ address < 0x8000, ∃ v m', perform none (Microcode.readByte address) m = .ok v m'

/-- The stack page and the addresses below the ROM window are always there. -/
theorem reachesRam (m : Machine) : m.ReachesRam where
  pull := exists_perform_ok (Microcode.infallible_pull m.core)
  pullWord := exists_perform_ok (Microcode.infallible_pullWord m.core)
  push v := by
    obtain ⟨⟨⟩, m', hpush⟩ : ∃ u m', perform none (Microcode.push v) m = .ok u m' :=
      exists_perform_ok (Microcode.infallible_push v m.core)
    exact ⟨m', hpush⟩
  stackText := m.core.exists_stackText
  read address h := by
    obtain ⟨v, hread⟩ := m.core.board.exists_read_of_lt h
    exact exists_perform_ok ⟨v, m.core, Microcode.execute_readByte_ok hread⟩

/-! ## The two kinds of board -/

/-- Only the program makes steps and runs fail; interrupts, resets and looks at memory always
succeed. -/
structure FailsByProgram (m : Machine) : Prop where
  step : ∀ err, (∃ m', Machine.step m = .error err m') ↔ m.OwnFault err
  run : ∀ budget fault m', Machine.run budget m = .error fault m' →
    (∃ count, fault.error = .instructionLimit count) ∨
      ∃ k mk, Course m k mk ∧ mk.OwnFault fault.error
  interrupt : ∀ i, ∃ m', Machine.interrupt i m = .ok () m'
  irq : ∃ taken m', Machine.irq m = .ok taken m'
  hardReset : ∃ m', Machine.hardReset m = .ok () m'
  peekByte : ∀ address, ∃ v, m.core.peekByte address = .ok v
  peekWord : ∀ address, ∃ v, m.core.peekWord address = .ok v

theorem not_reports (h : m.board.kind ≠ .mmc1) {order : List UInt16} :
    ¬ ∃ b address, m.board = .mmc1 b ∧ b.Reports order address err := by
  rintro ⟨b, address, hboard, -⟩
  rw [hboard] at h
  exact h rfl

/-- Without banks a step fails by what the program does and nothing else. -/
theorem failsByProgram (h : m.board.kind ≠ .mmc1) : m.FailsByProgram where
  step err := by
    rw [exists_step_error_iff]
    exact or_iff_left (not_reports h)
  run budget fault m' hrun := by
    refine (step_error_of_run_error hrun).imp_right ?_
    rintro ⟨k, mk, hcourse, hstep⟩
    -- The board that the run has come to is of the same kind.
    have hkind : mk.board.kind ≠ .mmc1 := (sameCartridge_steps k hcourse.steps_eq).kind_eq ▸ h
    exact ⟨k, mk, hcourse, (exists_step_error_iff.mp hstep).resolve_right (not_reports hkind)⟩
  interrupt i := by
    obtain ⟨⟨⟩, m', hinterrupt⟩ := exists_ok_of_not_error fun err =>
      (exists_interrupt_error_iff i).not.mpr (not_reports h)
    exact ⟨m', hinterrupt⟩
  irq := exists_ok_of_not_error fun err herror =>
    not_reports h ((exists_interrupt_error_iff .irq).mp (exists_irq_error_iff.mp herror).2)
  hardReset := by
    obtain ⟨⟨⟩, m', hreset⟩ := exists_ok_of_not_error fun err =>
      exists_hardReset_error_iff.not.mpr (not_reports h)
    exact ⟨m', hreset⟩
  peekByte address := by
    cases hpeek : m.core.peekByte address with
    | ok v => exact ⟨v, rfl⟩
    | error e =>
      have hfirst : m.board.FirstUnreadable [address] address e := .here hpeek
      exact absurd hfirst (Board.not_firstUnreadable h)
  peekWord address := by
    cases hpeek : m.core.peekWord address with
    | ok v => exact ⟨v, rfl⟩
    | error e =>
      obtain ⟨missing, hfirst⟩ := Core.peekWord_eq_error_iff.mp hpeek
      exact absurd hfirst (Board.not_firstUnreadable h)

/-- Besides that, the bank registers make everything fail that reads past the image. -/
structure FailsByBanks (m : Machine) (b : Mmc1) : Prop where
  step : ∀ err, (∃ m', Machine.step m = .error err m') ↔
    m.OwnFault err ∨ ∃ address, b.Reports m.core.readOrder address err
  run : ∀ budget fault m', Machine.run budget m = .error fault m' →
    (∃ count, fault.error = .instructionLimit count) ∨
      ∃ k mk bk, Course m k mk ∧ mk.board = .mmc1 bk ∧ bk.prg = b.prg ∧
        (mk.OwnFault fault.error ∨ ∃ address, bk.Reports mk.core.readOrder address fault.error)
  interrupt : ∀ i err, (∃ m', Machine.interrupt i m = .error err m') ↔
    ∃ address, b.Reports (wordAddresses i.vector) address err
  irq : ∀ err, (∃ m', Machine.irq m = .error err m') ↔
    m.registers.status.irqDisable = false ∧
      ∃ address, b.Reports (wordAddresses Interrupt.irq.vector) address err
  hardReset : ∀ err, (∃ m', Machine.hardReset m = .error err m') ↔
    ∃ address, b.Reports (wordAddresses Interrupt.reset.vector) address err

theorem reports_of_board {b : Mmc1} (h : m.board = .mmc1 b) {order : List UInt16} :
    (∃ b' address, m.board = .mmc1 b' ∧ b'.Reports order address err) ↔
      ∃ address, b.Reports order address err := by
  rw [h]
  simp

/-- With banks it may also fail by what the banks do not show. -/
theorem failsByBanks {b : Mmc1} (h : m.board = .mmc1 b) : m.FailsByBanks b where
  step err := by rw [exists_step_error_iff, reports_of_board h]
  run budget fault m' hrun := by
    refine (step_error_of_run_error hrun).imp_right ?_
    rintro ⟨k, mk, hcourse, hstep⟩
    have hsame := sameCartridge_steps k hcourse.steps_eq
    rw [h] at hsame
    cases hboard : mk.board with
    | mmc1 bk =>
      rw [hboard] at hsame
      rw [exists_step_error_iff, reports_of_board hboard] at hstep
      exact ⟨k, mk, bk, hcourse, hboard, hsame, hstep⟩
    | nrom | flat => rw [hboard] at hsame; exact hsame.elim
  interrupt i err := by rw [exists_interrupt_error_iff, reports_of_board h]
  irq err := by rw [exists_irq_error_iff, exists_interrupt_error_iff, reports_of_board h]
  hardReset err := by rw [exists_hardReset_error_iff, reports_of_board h]

/-- On boards without bank switching a step fails exactly if the byte at the program counter encodes
no instruction or the program counter is stuck, and interrupts, resets, pulls and looks at memory
never fail. With bank switching there is one more failure: an address of the ROM window that is
mapped past the image, and of these the first that is read. The stack and the RAM can be reached on
every board. -/
theorem fault_conditions (m : Machine) :
    m.ReachesRam ∧ (m.board.kind ≠ .mmc1 → m.FailsByProgram) ∧
      ∀ b, m.board = .mmc1 b → m.FailsByBanks b :=
  ⟨m.reachesRam, failsByProgram, fun _ => failsByBanks⟩

/-- A board with `JMP ($BFFF)` in its work RAM, where the bank behind `$BFFF` is missing. -/
def halfPointer : Mmc1 := .missingBank (((WorkRam.zeros.write 0 0x6C).write 1 0xFF).write 2 0xBF)

def straddling : Machine where
  core := ⟨.powerOn, .mmc1 halfPointer⟩
  config := {}
  history := .ofCapacity 0

/-- The low byte of the pointer can be read, and the high byte is reported. -/
theorem fault_of_half_pointer :
    ∃ m', step straddling =
      .error (.board (.offsetOutOfRange 0xC000 0x4000 0x4000 halfPointer.banks)) m' := by
  have hreports : halfPointer.Reports straddling.core.readOrder 0xC000
      (.board (.offsetOutOfRange 0xC000 0x4000 0x4000 halfPointer.banks)) :=
    { error := by
        have hoffset : halfPointer.romOffset 0xC000 = 0x4000 := by decide +kernel
        have hsize : halfPointer.prg.size = 0x4000 := Mmc1.size_missingBank _
        rw [hoffset, hsize]
      points := rfl
      rom := by decide
      past := (Mmc1.pastImage_missingBank.mpr (by decide)).2
      first := by
        refine ⟨[0, 1, 2, 0xBFFF], [], by decide +kernel, fun a ha => ?_⟩
        rw [halfPointer, Mmc1.pastImage_missingBank, Nat.not_le]
        have hbelow : ([0, 1, 2, 0xBFFF] : List UInt16).all (·.toNat < 0xC000) = true := by decide
        exact of_decide_eq_true (List.all_eq_true.mp hbelow a ha) }
  exact (((fault_conditions straddling).2.2 halfPointer rfl).step _).mpr (.inr ⟨0xC000, hreports⟩)

end Machine

end Mos6502
