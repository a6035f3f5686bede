import Mos6502.Proofs.ReadOrder
import Mos6502.Proofs.Routines

/-!
# The framing bits live on the stack only

Bits 4 and 5 of a status byte tell who pushed it. From power-on they are clear in the status
register: flags and arithmetic never set them, and what is pulled from the stack loses them. So the
bits of a pushed status say nothing about the status register and all about the push: software sets
both, an interrupt sets bit 5 alone (`framing_bits_stay_off`).
-/

namespace Mos6502

variable {α β : Type}

/-! ## Status bytes -/

namespace Status

def Unframed (s : Status) : Prop := s.breakBit = false ∧ s.unused = false

/-- Software pushes both framing bits. -/
theorem pushedBySoftware_eq (s : Status) : s.pushedBySoftware = s.toByte ||| 0x30 := by
  have hall : ∀ b, (ofByte b).pushedBySoftware = (ofByte b).toByte ||| 0x30 :=
    Byte.forall_of_values (by decide +kernel)
  simpa using hall s.toByte

/-- Interrupts push the upper framing bit only. -/
theorem pushedByInterrupt_eq (s : Status) : s.pushedByInterrupt = s.toByte ||| 0x20 := by
  have hall : ∀ b, (ofByte b).pushedByInterrupt = (ofByte b).toByte ||| 0x20 :=
    Byte.forall_of_values (by decide +kernel)
  simpa using hall s.toByte

/-- The bits as the byte has them. -/
theorem unframed_iff (s : Status) : s.Unframed ↔ s.toByte &&& 0x30 = 0 := by
  have hall : ∀ b, ((ofByte b).breakBit = false ∧ (ofByte b).unused = false) ↔
      (ofByte b).toByte &&& 0x30 = 0 :=
    Byte.forall_of_values (by decide +kernel)
  simpa [Unframed] using hall s.toByte

end Status

/-! ## What instructions do to the framing bits -/

def SparesFraming (c c' : Core) : Prop :=
  c.registers.status.Unframed → c'.registers.status.Unframed

instance : IsPreorder Core SparesFraming where
  refl _ := id
  trans _ _ _ h k := k ∘ h

namespace Microcode

theorem framing_modifyRegisters {f : Registers → Registers}
    (h : ∀ r : Registers, r.status.Unframed → (f r).status.Unframed) :
    Leaves SparesFraming (modifyRegisters f).execute := fun c => h c.registers

theorem framing_writeByte (address : UInt16) (v : UInt8) :
    Leaves SparesFraming (writeByte address v).execute := fun _ => id

theorem framing_push (v : UInt8) : Leaves SparesFraming (push v).execute := fun _ => id

theorem framing_pushWord (v : UInt16) : Leaves SparesFraming (pushWord v).execute := fun _ => id

theorem framing_pull : Leaves SparesFraming pull.execute := by
  intro c
  rw [execute_pull]
  exact id

theorem framing_pullWord : Leaves SparesFraming pullWord.execute := by
  intro c
  rw [execute_pullWord]
  exact id

end Microcode

theorem ReadOp.unframed_apply (op : ReadOp) (v : UInt8) {r : Registers} (h : r.status.Unframed) :
    (op.apply v r).status.Unframed := by
  cases op <;> exact h

theorem ModifyOp.unframed_apply (op : ModifyOp) (v : UInt8) {s : Status} (h : s.Unframed) :
    (op.apply v s).2.Unframed := by
  cases op <;> exact h

theorem RegisterOp.unframed_apply (op : RegisterOp) {r : Registers} (h : r.status.Unframed) :
    (op.apply r).status.Unframed := by
  cases op <;> exact h

/-- The framing bits are dropped as a status byte is pulled. -/
theorem Status.unframed_ofPulled (v : UInt8) : (ofPulled v).Unframed := ⟨rfl, rfl⟩

open Microcode

/-- Pulling the status byte is the one stack operation that touches it. -/
theorem StackOp.framing_microcode (op : StackOp) : Leaves SparesFraming op.microcode.execute := by
  cases op with
  | pha | php => exact leaves_execute_bind (fun _ => id) fun r => framing_push _
  | pla => exact leaves_execute_bind framing_pull fun v => framing_modifyRegisters fun r h => h
  | plp =>
    refine leaves_execute_bind framing_pull fun v => framing_modifyRegisters fun r _ => ?_
    exact Status.unframed_ofPulled v

/-- No instruction sets a framing bit, case by case. -/
theorem Instruction.framing_microcode (i : Instruction) :
    Leaves SparesFraming i.microcode.execute := by
  have hresolve : ∀ mode : AddressingMode, Leaves SparesFraming mode.resolve.execute :=
    fun mode => (readsOnly_resolve mode).leaves
  cases i with
  | read op mode =>
    refine leaves_execute_bind (hresolve mode) fun address => ?_
    refine leaves_execute_bind (readsOnly_readByte address).leaves fun v => ?_
    exact framing_modifyRegisters fun r => op.unframed_apply v
  | store op mode =>
    refine leaves_execute_bind (hresolve mode) fun address => ?_
    refine leaves_execute_bind (fun _ => id) fun r => ?_
    exact leaves_execute_bind (framing_writeByte _ _) fun _ => framing_modifyRegisters fun _ => id
  | modify op mode =>
    cases mode with
    | accumulator => exact framing_modifyRegisters fun r => op.unframed_apply r.a
    | _ =>
      refine leaves_execute_bind (hresolve _) fun address => ?_
      refine leaves_execute_bind (readsOnly_readByte address).leaves fun v => ?_
      exact fun c => op.unframed_apply v
  | internal op => exact framing_modifyRegisters fun r => op.unframed_apply
  | stack op =>
    exact leaves_execute_bind op.framing_microcode fun _ => framing_modifyRegisters fun _ => id
  | branch op =>
    refine leaves_execute_bind (hresolve .relative) fun target => ?_
    refine framing_modifyRegisters fun r h => ?_
    split <;> exact h
  | jmp mode =>
    exact leaves_execute_bind (hresolve mode) fun _ => framing_modifyRegisters fun _ => id
  | jsr =>
    refine leaves_execute_bind (hresolve .absolute) fun target => ?_
    refine leaves_execute_bind (fun _ => id) fun r => ?_
    exact leaves_execute_bind (framing_pushWord _) fun _ => framing_modifyRegisters fun _ => id
  | rts => exact leaves_execute_bind framing_pullWord fun _ => framing_modifyRegisters fun _ => id
  | rti =>
    refine leaves_execute_bind framing_pull fun v => ?_
    refine leaves_execute_bind ?_ fun _ => ?_
    · exact framing_modifyRegisters fun r _ => Status.unframed_ofPulled v
    · exact leaves_execute_bind framing_pullWord fun _ => framing_modifyRegisters fun _ => id
  | brk =>
    refine leaves_execute_bind (fun _ => id) fun r => ?_
    refine leaves_execute_bind (framing_pushWord _) fun _ => ?_
    refine leaves_execute_bind (framing_push _) fun _ => ?_
    refine leaves_execute_bind (framing_modifyRegisters fun r h => h) fun _ => ?_
    refine leaves_execute_bind (readsOnly_readWord _).leaves fun target => ?_
    exact framing_modifyRegisters fun _ => id

theorem Interrupt.framing_microcode (i : Interrupt) : Leaves SparesFraming i.microcode.execute := by
  refine leaves_execute_bind (fun _ => id) fun r => ?_
  refine leaves_execute_bind (framing_pushWord _) fun _ => ?_
  refine leaves_execute_bind (framing_push _) fun _ => ?_
  refine leaves_execute_bind (readsOnly_readWord _).leaves fun target => ?_
  exact framing_modifyRegisters fun _ => id

theorem sparesFraming_kept : KeptByMicrocode SparesFraming :=
  ⟨Instruction.framing_microcode, Interrupt.framing_microcode⟩

/-! ## What is pushed -/

/-- Following a vector changes the program counter at most. -/
theorem Microcode.finalState_follow (i : Interrupt) (c : Core) :
    ∃ pc, finalState ((follow i).execute c) =
      { c with registers := { c.registers with pc := pc } } := by
  have hread := (readsOnly_readWord i.vector).execute c
  cases h : (readWord i.vector).execute c with
  | ok target c' =>
    rw [h] at hread
    cases hread
    exact ⟨target, congrArg finalState (execute_bind_of_ok h)⟩
  | error e c' =>
    rw [h] at hread
    cases hread
    exact ⟨c'.registers.pc, congrArg finalState (execute_bind_of_error h)⟩

theorem Core.finalState_perform (p : Microcode α) (c : Core) :
    finalState (perform p c) = finalState (p.execute c) := by
  unfold perform
  cases p.execute c <;> rfl

/-- A step does to registers and board what its instruction does, also where it fails. -/
theorem Instruction.FetchedFrom.core_step {i : Instruction} {m : Machine}
    (h : i.FetchedFrom m.core) :
    (finalState (Machine.step m)).core = finalState (i.microcode.execute m.core) := by
  obtain ⟨opcode, hread, hdecode⟩ := h
  have hcycle : m.core.cycle = Core.perform i.microcode m.core := by
    simp only [Core.cycle, hread, hdecode]
  rw [← finalState_unwatched, Machine.unwatched_step, Core.finalState_step, hcycle,
    Core.finalState_perform]

/-- `BRK` pushes its frame whether or not there is a vector. -/
theorem Core.pushes_brk (c : Core) :
    Pushes (c.registers.status.pushedBySoftware :: wordFrame (c.registers.pc + 2)) c
      (finalState (Instruction.brk.microcode.execute c)) := by
  have hfollow : Instruction.brk.microcode.execute c = (follow .irq).execute c.broken := rfl
  obtain ⟨pc, hfinal⟩ := finalState_follow .irq c.broken
  rw [hfollow, hfinal]
  exact ((c.pushes_word _).trans (pushes_pushed _ _)).congr rfl rfl

/-- An interrupt pushes three bytes, the status last. -/
theorem Core.pushes_interrupt (i : Interrupt) (c : Core) :
    Pushes (c.registers.status.pushedByInterrupt :: wordFrame c.registers.pc) c
      (finalState (i.microcode.execute c)) := by
  have hfollow : i.microcode.execute c = (follow i).execute c.interrupted := rfl
  obtain ⟨pc, hfinal⟩ := finalState_follow i c.interrupted
  rw [hfollow, hfinal]
  exact ((c.pushes_word _).trans (pushes_pushed _ _)).congr rfl rfl

namespace Machine

/-- The framing bits are clear in the status register and have in every byte that is pushed next the
values that tell who pushes it. -/
structure FramesPushes (m : Machine) : Prop where
  live : m.registers.status.toByte &&& 0x30 = 0
  php : (Instruction.stack .php).FetchedFrom m.core →
    Pushes [m.registers.status.toByte ||| 0x30] m.core (finalState (step m)).core
  brk : Instruction.brk.FetchedFrom m.core →
    Pushes ((m.registers.status.toByte ||| 0x30) :: wordFrame (m.registers.pc + 2)) m.core
      (finalState (step m)).core
  interrupt : ∀ i, Pushes ((m.registers.status.toByte ||| 0x20) :: wordFrame m.registers.pc) m.core
    (finalState (Machine.interrupt i m)).core
  irq : m.registers.status.irqDisable = false →
    Pushes ((m.registers.status.toByte ||| 0x20) :: wordFrame m.registers.pc) m.core
      (finalState (Machine.irq m)).core
  bit4 : (m.registers.status.toByte ||| 0x20) &&& 0x10 = 0

theorem framesPushes {m : Machine} (h : m.registers.status.Unframed) : m.FramesPushes := by
  have hinterrupt : ∀ i, Pushes ((m.registers.status.toByte ||| 0x20) :: wordFrame m.registers.pc)
      m.core (finalState (Machine.interrupt i m)).core := by
    intro i
    rw [← finalState_unwatched, unwatched_interrupt, Core.finalState_perform,
      ← Status.pushedByInterrupt_eq]
    exact m.core.pushes_interrupt i
  have hbit4 : ∀ b : UInt8, b &&& 0x30 = 0 → (b ||| 0x20) &&& 0x10 = 0 :=
    Byte.forall_of_values (by decide +kernel)
  have hlive := (Status.unframed_iff _).mp h
  refine ⟨hlive, fun hphp => ?_, fun hbrk => ?_, hinterrupt, fun henabled => ?_, ?_⟩
  · rw [hphp.core_step, ← Status.pushedBySoftware_eq]
    exact (m.core.pushes_pushed _).congr rfl rfl
  · rw [hbrk.core_step, ← Status.pushedBySoftware_eq]
    exact m.core.pushes_brk
  · rw [irq_apply, henabled, if_neg Bool.false_ne_true, finalState_bind_pure]
    exact hinterrupt .irq
  · exact hbit4 _ hlive

/-! ## From power-on -/

def Unframed (m : Machine) : Prop := m.registers.status.Unframed

variable {m m' : Machine}

theorem Idle.unframed (h : Idle m m') (hm : m.Unframed) : m'.Unframed := by
  rw [Unframed, registers, h.core]
  exact hm

/-- A step keeps the framing bits off, also where it fails. -/
theorem unframed_step (hm : m.Unframed) : (finalState (step m)).Unframed :=
  core_step sparesFraming_kept m hm

/-- No step of a run sees the framing bits, and they are clear when it ends. -/
theorem unframed_runFrom (budget executed : Nat) (hm : m.Unframed) :
    (∀ mk ∈ begunFrom budget executed m, mk.Unframed) ∧
      (finalState (runFrom budget executed m)).Unframed := by
  revert hm
  refine runFrom_induct (motive := fun begun m r =>
    m.Unframed → (∀ mk ∈ begun, mk.Unframed) ∧ (finalState r).Unframed) ?_ ?_ ?_ budget executed m
  · intro m r hidle hm
    exact ⟨fun mk hmk => (List.not_mem_nil hmk).elim, hidle.unframed hm⟩
  · intro m m' begun r hstep ih hm
    have hnext := unframed_step hm
    rw [hstep] at hnext
    exact ⟨List.forall_mem_cons.mpr ⟨hm, (ih hnext).1⟩, (ih hnext).2⟩
  · intro m m' e fault m'' hstep hidle hm
    have hnext := unframed_step hm
    rw [hstep] at hnext
    exact ⟨List.forall_mem_singleton.mpr hm, hidle.unframed hnext⟩

theorem unframed_enter (address : UInt16) (hm : m.Unframed) : (m.enter address).Unframed :=
  core_perform (framing_pushWord (m.registers.pc - 1)) none m hm

/-- A hard reset starts from fresh registers, whatever they were before. -/
theorem unframed_hardReset (m : Machine) : (finalState (hardReset m)).Unframed := by
  rw [hardReset, modify_bind_apply]
  cases hpc : Core.peekWord ⟨.powerOn, m.core.board.clearRam⟩ Interrupt.reset.vector with
  | ok pc => rw [bind_of_ok (observe_of_ok hpc)]; exact ⟨rfl, rfl⟩
  | error e => rw [bind_of_error (observe_of_error hpc)]; exact ⟨rfl, rfl⟩

theorem unframed_irq (hm : m.Unframed) : (finalState (irq m)).Unframed :=
  core_act sparesFraming_kept .irq m hm

/-- The registers are not part of the state of a board. -/
theorem registers_restoreBoard (s : Snapshot) (m : Machine) :
    (finalState (restoreBoard s m)).registers = m.registers := by
  unfold restoreBoard
  split <;> rfl

/-- The microcode of an operation does not put framing bits into the status register. Only for
accesses outside of instructions this is not known from the start. -/
def Operation.SparesFraming : Operation → Prop
  | access p => Leaves Mos6502.SparesFraming p.execute
  | step | run _ | runRoutine .. | interrupt _ | irq | look _ => True

/-- Every operation that spares the framing bits keeps them off. -/
theorem unframed_act (op : Operation) (hop : op.SparesFraming) (hm : m.Unframed) :
    (finalState (op.act m)).Unframed := by
  cases op with
  | step => exact unframed_step hm
  | run budget =>
    rw [Operation.act, finalState_ofFault]
    exact (unframed_runFrom budget 0 hm).2
  | runRoutine address budget =>
    rw [Operation.act, finalState_ofFault]
    exact (idle_runRoutine address budget m).unframed
      (unframed_runFrom budget 0 (unframed_enter address hm)).2
  | interrupt i => exact core_interrupt sparesFraming_kept i m hm
  | irq =>
    rw [Operation.act, finalState_bind_pure]
    exact unframed_irq hm
  | access p => exact core_perform hop none m hm
  | look view =>
    rw [Operation.act, finalState_observe]
    exact hm

theorem unframed_disturbance (d : Disturbance) (hm : m.Unframed) : (d.apply m).Unframed := by
  cases d with
  | call c => exact core_act sparesFraming_kept c m hm
  | interrupt i => exact core_interrupt sparesFraming_kept i m hm
  | write address value => exact core_perform (framing_writeByte address value) none m hm
  | poke address value =>
    rw [Unframed, Disturbance.apply, registers, core_poke]
    exact hm
  | clearRam => exact hm
  | hardReset => exact unframed_hardReset m
  | restore s =>
    rw [Unframed, Disturbance.apply, registers_restoreBoard]
    exact hm
  | configure config => exact hm

namespace Interaction

/-- The surroundings do not put framing bits into the status register themselves. -/
def SparesFraming : Interaction → Prop
  | operation op => op.SparesFraming
  | setRegisters r => r.status.Unframed
  | disturbance _ | changeBoard _ | register .. | changeBreakpoints _ | halt | clearHalt
  | clearLog => True

/-- The machines in front of the instructions that an interaction executes. -/
def begun (m : Machine) : Interaction → List Machine
  | operation .step | disturbance (.call .step) => [m]
  | operation (.run budget) => begunFrom budget 0 m
  | operation (.runRoutine address budget) => begunFrom budget 0 (m.enter address)
  | _ => []

theorem unframed_begun (i : Interaction) (hm : m.Unframed) : ∀ mk ∈ i.begun m, mk.Unframed := by
  unfold begun
  split
  next => exact List.forall_mem_singleton.mpr hm
  next => exact List.forall_mem_singleton.mpr hm
  next budget => exact (unframed_runFrom budget 0 hm).1
  next address budget => exact (unframed_runFrom budget 0 (unframed_enter address hm)).1
  next => exact fun mk hmk => (List.not_mem_nil hmk).elim

theorem unframed_apply (i : Interaction) (hi : i.SparesFraming) (hm : m.Unframed) :
    (i.apply m).Unframed := by
  cases i with
  | operation op => exact unframed_act op hi hm
  | disturbance d => exact unframed_disturbance d hm
  | setRegisters r => exact hi
  | changeBoard | register | changeBreakpoints | halt | clearHalt | clearLog => exact hm

/-- By induction on the interactions, with the framing bits off as the invariant. -/
theorem unframed_foldl (is : List Interaction) (his : ∀ i ∈ is, i.SparesFraming)
    (hm : m.Unframed) : (is.foldl apply m).Unframed := by
  induction is generalizing m with
  | nil => exact hm
  | cons i rest ih =>
    obtain ⟨hi, hrest⟩ := List.forall_mem_cons.mp his
    exact ih hrest (i.unframed_apply hi hm)

end Interaction

theorem unframed_powerOn {board : Board} {config : Config} {p : Machine}
    (h : powerOn board config = .ok p) : p.Unframed := by
  obtain ⟨pc, -, hrest⟩ := except_bind_eq_ok.mp h
  cases hrest
  exact ⟨rfl, rfl⟩

/-- From power-on, whatever is executed, pulled, interrupted or reset and however it ends, the
framing bits are clear in the status register whenever an instruction or an interrupt is due, inside
of runs as well. So `PHP` and `BRK` push the status with both bits set, and interrupts push it with
bit 5 set and bit 4 clear. -/
theorem framing_bits_stay_off {board : Board} {config : Config} {p : Machine}
    (h : powerOn board config = .ok p) (is : List Interaction)
    (hspares : ∀ i ∈ is, i.SparesFraming) :
    (is.foldl Interaction.apply p).FramesPushes ∧
      ∀ i : Interaction, ∀ m ∈ i.begun (is.foldl Interaction.apply p), m.FramesPushes := by
  have hreached := Interaction.unframed_foldl is hspares (unframed_powerOn h)
  exact ⟨framesPushes hreached, fun i m hm => framesPushes (i.unframed_begun hreached m hm)⟩

end Machine

def Nrom.zeros : Nrom := ⟨Array.replicate 0x4000 0, .zeros, none, .inl Array.size_replicate⟩

theorem Nrom.read_zeros {address : UInt16} (h : 0x8000 ≤ address.toNat) :
    zeros.read address = 0 := by
  simp [read, Region.of_eq_cartRom h, zeros]

namespace Machine

/-- `PLP` at the first address pulls a byte with all bits set. -/
theorem framing_bits_stay_off_plp :
    ∃ p, powerOn (.nrom .zeros) {} = .ok p ∧
      let m := [Interaction.disturbance (.poke 0 0x28), .disturbance (.poke 0x01FE 0xFF),
        .operation .step].foldl Interaction.apply p
      m.registers.status.toByte = 0xCF ∧ m.FramesPushes := by
  have hvector : Core.peekWord ⟨.powerOn, .nrom .zeros⟩ Interrupt.reset.vector = .ok 0 := by
    have hlow : (Board.nrom .zeros).read Interrupt.reset.vector = .ok 0 :=
      congrArg Except.ok (Nrom.read_zeros (by decide))
    have hhigh : (Board.nrom .zeros).read (Interrupt.reset.vector + 1) = .ok 0 :=
      congrArg Except.ok (Nrom.read_zeros (by decide))
    rw [Core.peekWord, Microcode.peek, Microcode.execute_readWord_ok hlow hhigh]
    rfl
  have hpower : powerOn (.nrom .zeros) {} = .ok _ := except_bind_eq_ok.mpr ⟨0, hvector, rfl⟩
  refine ⟨_, hpower, by decide +kernel, ?_⟩
  refine (framing_bits_stay_off hpower _ ?_).1
  simp [Interaction.SparesFraming, Operation.SparesFraming]

end Machine

end Mos6502
