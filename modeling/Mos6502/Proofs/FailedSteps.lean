import Mos6502.Proofs.ReadOrder

/-!
# What a step that fails leaves behind

An instruction fails before it has any effect, so registers and board are as they were in front of
it. `BRK` alone is different: it fails on its vector, with the stack written and interrupts
disabled. A step that is found to be stuck has not failed at all: its instruction took place, tick
included, and the machine is the one that the step leaves if nobody looks for a program counter that
does not move (`step_eq_stuck_iff`).
-/

namespace Mos6502

variable {ε α β : Type}

namespace Machine

/-! ## Without the test for a stuck program counter -/

/-- The machine with the test for a stuck program counter switched off. -/
def unchecked (m : Machine) : Machine := { m with config := { m.config with checkStuck := false } }

def uncheckedResult : EStateM.Result ε Machine α → EStateM.Result ε Machine α
  | .ok a m => .ok a m.unchecked
  | .error e m => .error e m.unchecked

/-- The action does not depend on the test, and leaves it switched as it is. -/
def Unconcerned (act : EStateM ε Machine α) : Prop :=
  ∀ m : Machine, act m.unchecked = uncheckedResult (act m)

namespace Unconcerned

theorem pure (a : α) : Unconcerned (pure a : EStateM ε Machine α) := fun _ => rfl

theorem throw (e : ε) : Unconcerned (throw e : EStateM ε Machine α) := fun _ => rfl

theorem modify {f : Machine → Machine} (h : ∀ m : Machine, f m.unchecked = (f m).unchecked) :
    Unconcerned (modify f : EStateM ε Machine PUnit) :=
  fun m => congrArg (EStateM.Result.ok _) (h m)

/-- An action may look at the machine as long as it does not look at the option. -/
theorem get_bind {f : Machine → EStateM ε Machine α} (hlook : ∀ m : Machine, f m.unchecked = f m)
    (hf : ∀ m, Unconcerned (f m)) : Unconcerned (get >>= f) := by
  intro m
  rw [get_bind_apply, get_bind_apply, hlook m]
  exact hf m m

theorem bind {act : EStateM ε Machine α} {f : α → EStateM ε Machine β} (hact : Unconcerned act)
    (hf : ∀ a, Unconcerned (f a)) : Unconcerned (act >>= f) := by
  intro m
  have hfirst := hact m
  cases h : act m with
  | ok a m' =>
    rw [h] at hfirst
    rw [bind_of_ok hfirst, bind_of_ok h]
    exact hf a m'
  | error e m' =>
    rw [h] at hfirst
    rw [bind_of_error hfirst, bind_of_error h]
    rfl

end Unconcerned

/-- What is shown to the breakpoints does not depend on the option. -/
theorem fire_unchecked (m : Machine) (events : Events) (address : UInt16) (value : UInt8) :
    m.unchecked.fire events address value = (m.fire events address value).unchecked := by
  simp only [fire, apply_ite unchecked]
  rfl

theorem poke_unchecked (m : Machine) (address : UInt16) (value : UInt8) :
    m.unchecked.poke address value = (m.poke address value).unchecked := by
  simp only [poke, unchecked]
  split <;> rfl

theorem mark_unchecked (m : Machine) (address : UInt16) (u : Usage) :
    m.unchecked.mark address u = (m.mark address u).unchecked := by
  simp only [mark, unchecked]
  split <;> rfl

theorem markRead_unchecked (m : Machine) (span : Option Span) (address : UInt16) :
    m.unchecked.markRead span address = (m.markRead span address).unchecked := by
  simp only [markRead, apply_ite unchecked, mark_unchecked]
  rfl

theorem record_unchecked (m : Machine) (line : String) :
    m.unchecked.record line = (m.record line).unchecked := by
  simp only [record, apply_ite unchecked]
  rfl

theorem unconcerned_observe (view : Core → Except BoardError α) : Unconcerned (observe view) := by
  intro m
  simp only [observe, unchecked]
  split <;> rfl

theorem unconcerned_perform (span : Option Span) (p : Microcode α) :
    Unconcerned (perform span p) := by
  induction p with
  | done result => exact .pure result
  | read address next ih =>
    intro m
    have hboard : m.unchecked.core = m.core := rfl
    simp only [perform, markRead_unchecked, fire_unchecked, hboard]
    split
    next v hread => exact ih v _
    next => rfl
  | write address value next ih =>
    intro m
    simp only [perform, poke_unchecked, fire_unchecked]
    exact ih _
  | inspect next ih => exact fun m => ih m.core.registers m
  | assign registers next ih => exact fun m => ih (m.setRegisters registers)

theorem unconcerned_fetch : Unconcerned fetch := by
  refine .get_bind (fun _ => rfl) fun m => .bind (unconcerned_perform _ _) fun opcode => ?_
  exact .bind (.modify fun m => fire_unchecked m .execute _ opcode) fun _ => .pure _

theorem unconcerned_decode (opcode : UInt8) : Unconcerned (decode opcode) := by
  unfold decode
  split
  next => exact .pure _
  next => exact .get_bind (fun _ => rfl) fun m => .throw _

theorem unconcerned_trace (i : Instruction) : Unconcerned (trace i) := by
  refine .get_bind (fun _ => rfl) fun m => ?_
  split
  · refine .get_bind (fun _ => rfl) fun _ => .bind (unconcerned_observe _) fun line => ?_
    exact .modify fun m => record_unchecked m line
  · exact .pure _

theorem unconcerned_markCode (addresses : List UInt16) : Unconcerned (markCode addresses) := by
  induction addresses with
  | nil => exact .pure _
  | cons address rest ih =>
    refine .bind (unconcerned_observe _) fun v => .bind ?_ fun _ => .bind ih fun _ => .pure _
    exact .modify fun m => mark_unchecked m address .executed

theorem unconcerned_list (i : Instruction) (bytes : List UInt8) : Unconcerned (list i bytes) := by
  refine .get_bind (fun _ => rfl) fun m => ?_
  split
  next offset hoffset =>
    split
    · exact .bind (unconcerned_observe _) fun line => .modify fun _ => rfl
    · exact .pure _
  next => exact .pure _
  next => exact .pure _

theorem unconcerned_logCode (i : Instruction) : Unconcerned (logCode i) := by
  refine .get_bind (fun _ => rfl) fun m => ?_
  split
  · refine .get_bind (fun _ => rfl) fun _ => ?_
    exact .bind (unconcerned_markCode _) fun bytes => unconcerned_list i bytes
  · exact .pure _

/-- A cycle does not look for a stuck program counter. -/
theorem unconcerned_cycle : Unconcerned cycle := by
  refine .bind unconcerned_fetch fun opcode => .bind (unconcerned_decode opcode) fun i => ?_
  refine .bind (unconcerned_trace i) fun _ => .bind (unconcerned_logCode i) fun _ => ?_
  refine .get_bind (fun _ => rfl) fun m => .bind (unconcerned_perform _ _) fun _ => ?_
  exact .modify fun _ => rfl

/-! ## Failures -/

variable {m m' : Machine} {err : ExecutionError}

/-- What registers and board see of an action tells whether it fails. -/
theorem exists_error_iff {act : EStateM ExecutionError Machine α}
    {bare : EStateM.Result ExecutionError Core α} (h : unwatched (act m) = bare) :
    (∃ m', act m = .error err m') ↔ ∃ c', bare = .error err c' := by
  rw [← h]
  cases act m <;> simp [unwatched]

theorem of_cycle_error (h : cycle m = .error err m') :
    m'.core = m.core.failed ∧ m.core.Fails err := by
  have hcore := unwatched_cycle m
  rw [h] at hcore
  exact Core.cycle_eq_error_iff.mp hcore.symm

/-- A cycle fails on a machine where it fails on the bare core. -/
theorem exists_cycle_error_iff : (∃ m', cycle m = .error err m') ↔ m.core.Fails err := by
  rw [exists_error_iff (unwatched_cycle m)]
  simp only [Core.cycle_eq_error_iff]
  exact ⟨fun ⟨_, _, h⟩ => h, fun h => ⟨_, rfl, h⟩⟩

/-- The check for a stuck program comes after the cycle, and is not reached by a failure. -/
theorem step_of_cycle_error (h : cycle m = .error err m') : step m = .error err m' := by
  rw [step_apply, h]

def noteStuck (m : Machine) (address : UInt16) : Machine :=
  m.note .warn fun _ => "PC stuck at " ++ Text.address address

/-- A step is stuck if the same step without the test leaves the program counter where it was, and
it has done what that step does. -/
theorem step_eq_stuck_iff {address : UInt16} :
    step m = .error (.stuck address) m' ↔
      m.config.checkStuck = true ∧ address = m.registers.pc ∧
        ∃ moved, step m.unchecked = .ok () moved ∧ moved.registers.pc = address ∧
          m' = { moved with config := m.config }.noteStuck address := by
  rw [step_apply, step_apply, unconcerned_cycle m]
  cases hcycle : cycle m with
  | error e m₁ =>
    -- Inside the cycle there is no such failure.
    have hnot : e ≠ .stuck address := by
      rintro rfl
      exact cycle_ne_stuck hcycle
    simp [uncheckedResult, hnot]
  | ok u m₁ =>
    have hconfig := (leaves_cycle.of_ok hcycle).config
    dsimp only [uncheckedResult]
    constructor
    · intro h
      split at h
      next hstuck =>
        cases h
        rw [Bool.and_eq_true, beq_iff_eq, hconfig] at hstuck
        refine ⟨hstuck.1, rfl, _, rfl, hstuck.2, ?_⟩
        rw [← hconfig]
        rfl
      next => cases h
    · rintro ⟨hcheck, rfl, moved, hmoved, hpc, rfl⟩
      cases hmoved
      have hstuck : (m₁.config.checkStuck && m₁.registers.pc == m.registers.pc) = true := by
        rw [Bool.and_eq_true, beq_iff_eq, hconfig]
        exact ⟨hcheck, hpc⟩
      rw [if_pos hstuck, ← hconfig]
      rfl

/-- A step that does not get stuck fails inside its cycle. -/
theorem cycle_of_step_error (h : step m = .error err m')
    (hstuck : ∀ address, err ≠ .stuck address) : cycle m = .error err m' := by
  rcases step_eq_error h with hcycle | ⟨_, -, rfl, -⟩
  · exact hcycle
  · exact absurd rfl (hstuck _)

end Machine

namespace Core

variable {c : Core}

/-- What `BRK` leaves, spelled out. -/
theorem broken_eq (c : Core) :
    c.broken =
      ⟨{ c.registers with
          sp := c.registers.sp - 3
          status := c.registers.status.set .irqDisable true },
        ((c.board.write (stackSlot c.registers.sp) ((c.registers.pc + 2) >>> 8).toUInt8).write
          (stackSlot (c.registers.sp - 1)) (c.registers.pc + 2).toUInt8).write
          (stackSlot (c.registers.sp - 2)) c.registers.status.pushedBySoftware⟩ := by
  have htwo : c.registers.sp - 1 - 1 = c.registers.sp - 2 := by grind
  have hthree : c.registers.sp - 1 - 1 - 1 = c.registers.sp - 3 := by grind
  rw [← htwo, ← hthree]
  rfl

/-- Not even `BRK` touches the registers that it does not need for its entry. -/
theorem registers_failed (c : Core) :
    c.failed.registers.pc = c.registers.pc ∧ c.failed.registers.a = c.registers.a ∧
      c.failed.registers.x = c.registers.x ∧ c.failed.registers.y = c.registers.y := by
  unfold failed
  split <;> exact ⟨rfl, rfl, rfl, rfl⟩

/-- `BRK` fails if its vector cannot be read. -/
theorem fails_of_peekWord {e : BoardError} (hbrk : Instruction.brk.FetchedFrom c)
    (hvector : c.peekWord Interrupt.irq.vector = .error e) : c.Fails (.board e) :=
  hbrk.fails_iff.mpr ⟨e, rfl, peekWord_eq_error_iff.mp hvector⟩

end Core

namespace Machine

/-- A step that fails with anything but a stuck program counter leaves PC, A, X, Y and the tick
count alone, and, unless it executes `BRK`, all other registers and the board as well. A `BRK` whose
vector cannot be read has pushed return address and status and disabled interrupts. A step that is
stuck leaves the machine, ticks included, that it leaves without the test. -/
theorem state_of_failing_step (m : Machine) :
    (∀ err m', step m = .error err m' → (∀ address, err ≠ .stuck address) →
      m'.registers.pc = m.registers.pc ∧ m'.registers.a = m.registers.a ∧
        m'.registers.x = m.registers.x ∧ m'.registers.y = m.registers.y ∧ m'.ticks = m.ticks ∧
        (¬ Instruction.brk.FetchedFrom m.core → m'.core = m.core)) ∧
    (∀ e, Instruction.brk.FetchedFrom m.core → m.core.peekWord Interrupt.irq.vector = .error e →
      ∃ m', step m = .error (.board e) m' ∧ m'.ticks = m.ticks ∧
        m'.registers = { m.registers with
          sp := m.registers.sp - 3
          status := m.registers.status.set .irqDisable true } ∧
        m'.board = ((m.board.write (stackSlot m.registers.sp)
          ((m.registers.pc + 2) >>> 8).toUInt8).write
          (stackSlot (m.registers.sp - 1)) (m.registers.pc + 2).toUInt8).write
          (stackSlot (m.registers.sp - 2)) m.registers.status.pushedBySoftware) ∧
    (∀ address m', step m = .error (.stuck address) m' →
      address = m.registers.pc ∧ m'.registers.pc = address ∧
        ∃ moved, step m.unchecked = .ok () moved ∧
          m' = { moved with config := m.config }.noteStuck address) := by
  refine ⟨fun err m' hstep hstuck => ?_, fun e hbrk hvector => ?_, fun address m' hstep => ?_⟩
  · have hcycle := cycle_of_step_error hstep hstuck
    obtain ⟨hcore, -⟩ := of_cycle_error hcycle
    obtain ⟨hpc, ha, hx, hy⟩ := m.core.registers_failed
    rw [← hcore] at hpc ha hx hy
    refine ⟨hpc, ha, hx, hy, (leaves_cycle.of_error hcycle).ticks, fun hbrk => ?_⟩
    rw [hcore, Core.failed_of_not_brk hbrk]
  · obtain ⟨m', hcycle⟩ := exists_cycle_error_iff.mpr (Core.fails_of_peekWord hbrk hvector)
    obtain ⟨hcore, -⟩ := of_cycle_error hcycle
    rw [hbrk.failed_eq, if_pos rfl, Core.broken_eq] at hcore
    refine ⟨m', step_of_cycle_error hcycle, (leaves_cycle.of_error hcycle).ticks, ?_, ?_⟩
    · exact congrArg Core.registers hcore
    · exact congrArg Core.board hcore
  · obtain ⟨-, haddress, moved, hmoved, hpc, hfinal⟩ := step_eq_stuck_iff.mp hstep
    exact ⟨haddress, hfinal ▸ hpc, moved, hmoved, hfinal⟩

end Machine

/-! ## A vector that is not there -/

/-- A board of one bank, with a second one selected for the upper window. -/
def Mmc1.missingBank (ram : WorkRam) : Mmc1 where
  prg := Array.replicate bankSize 0
  banks := { BankConfig.powerOn false with prgMode := 2, prgBank := 1 }
  ram := ram
  cartRam := .zeros
  size_pos := by rw [Array.size_replicate]; decide
  size_mod := by rw [Array.size_replicate]; decide

theorem Mmc1.size_missingBank (ram : WorkRam) : (missingBank ram).prg.size = bankSize :=
  Array.size_replicate

/-- The upper window shows the second bank of an image that has one. -/
theorem Mmc1.pastImage_missingBank {ram : WorkRam} {address : UInt16} :
    (missingBank ram).PastImage address ↔ 0xC000 ≤ address.toNat := by
  have hoffset : (missingBank ram).romOffset address =
      if address.toNat - 0x8000 < bankSize then address.toNat - 0x8000
      else bankSize + (address.toNat - 0x8000 - bankSize) := by
    simp [romOffset, missingBank]
  rw [PastImage, size_missingBank, hoffset]
  unfold bankSize
  split <;> omega

namespace Machine

/-- A machine in front of a `BRK` in its work RAM, with no interrupt vector in sight. -/
def vectorless : Machine where
  core := ⟨{ Registers.powerOn with status := {} }, .mmc1 (.missingBank .zeros)⟩
  config := {}
  history := .ofCapacity 0

/-- The `BRK` fails with its frame on the stack. -/
theorem state_of_failing_brk :
    ∃ m', step vectorless = .error (.board ((Mmc1.missingBank .zeros).outOfRange 0xFFFE)) m' ∧
      m'.ticks = 0 ∧ m'.registers = { vectorless.registers with
        sp := 0xFA
        status := Status.only .irqDisable } ∧
      m'.board = ((vectorless.board.write 0x01FD 0x00).write 0x01FC 0x02).write 0x01FB 0x30 := by
  have hread : vectorless.board.read 0xFFFE =
      .error ((Mmc1.missingBank .zeros).outOfRange 0xFFFE) :=
    Board.read_eq_error_iff.mpr ⟨_, rfl, Mmc1.pastImage_missingBank.mpr (by decide), rfl⟩
  have hbrk : Instruction.brk.FetchedFrom vectorless.core := ⟨0, by decide +kernel, rfl⟩
  have hvector : vectorless.core.peekWord Interrupt.irq.vector =
      .error ((Mmc1.missingBank .zeros).outOfRange 0xFFFE) :=
    Core.peekWord_eq_error_iff.mpr ⟨0xFFFE, .here hread⟩
  exact (state_of_failing_step vectorless).2.1 _ hbrk hvector

end Machine

end Mos6502
