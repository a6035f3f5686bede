import Mos6502.Machine.Step
import Mos6502.Proofs.Effects

/-!
# Step by single updates

Everything that a step does to a machine is one of a few updates: an access reaches the board and is
shown to the breakpoints, registers are replaced, the observers write something down, a counter goes
up. A preorder that holds across each single update (`EachUpdate`) holds across a whole step,
however the step ends, and across any number of steps; so what an instruction keeps is shown update
by update.
-/

namespace Mos6502.Machine

variable {α : Type} {R : Machine → Machine → Prop}

/-- The relation holds across everything that microcode does, the observers of its accesses
included. -/
structure EachTransfer (R : Machine → Machine → Prop) : Prop where
  read : ∀ m span address value, R m ((m.markRead span address).fire .read address value)
  write : ∀ m address value, R m ((m.poke address value).fire .write address value)
  assign : ∀ m r, R m (m.setRegisters r)

/-- The relation holds across every update that an access to the bus or to the registers makes. -/
structure EachAccess (R : Machine → Machine → Prop) : Prop where
  fire : ∀ m events address value, R m (m.fire events address value)
  markLoaded : ∀ m address, R m (m.mark address .loaded)
  poke : ∀ m address value, R m (m.poke address value)
  setRegisters : ∀ m r, R m (m.setRegisters r)

/-- The relation holds across every update that is made outside of instructions: by accesses, and by
notes about them. -/
structure EachOutside (R : Machine → Machine → Prop) : Prop extends EachAccess R where
  note : ∀ m level text, R m (m.note level text)

/-- The relation holds across every update that logging an instruction as code makes. -/
structure EachListing (R : Machine → Machine → Prop) : Prop where
  markExecuted : ∀ m address, R m (m.mark address .executed)
  visit : ∀ m offset line, R m { m with log := m.log.visit offset line }

/-- The relation holds across every update that an observer of an instruction makes. -/
structure EachRecord (R : Machine → Machine → Prop) : Prop where
  markExecuted : ∀ m address, R m (m.mark address .executed)
  record : ∀ m line, R m (m.record line)
  visit : ∀ m offset line, R m { m with log := m.log.visit offset line }

/-- The relation holds across every update inside an instruction. -/
structure EachInside (R : Machine → Machine → Prop) : Prop extends EachAccess R, EachRecord R where
  nest : ∀ m i, R m (m.nest i)

/-- The relation holds across every update that a step makes. -/
structure EachUpdate (R : Machine → Machine → Prop) : Prop extends EachInside R where
  tick : ∀ m, R m { m with ticks := m.ticks + 1 }
  note : ∀ m level text, R m (m.note level text)

theorem EachRecord.eachListing (h : EachRecord R) : EachListing R := ⟨h.markExecuted, h.visit⟩

theorem EachUpdate.eachOutside (h : EachUpdate R) : EachOutside R := ⟨h.toEachAccess, h.note⟩

variable [IsPreorder Machine R]

/-- What each transfer keeps is kept by all microcode, by induction on it. -/
theorem EachTransfer.leaves_perform (h : EachTransfer R) (span : Option Span) (p : Microcode α) :
    Leaves R (perform span p) := by
  induction p with
  | done result => exact .pure result
  | read address next ih =>
    intro m
    rw [perform]
    dsimp only
    split
    next v hread => exact IsTrans.trans _ _ _ (h.read m span address v) (ih v _)
    next => exact refl m
  | write address value next ih =>
    exact fun m => IsTrans.trans _ _ _ (h.write m address value) (ih _)
  | inspect next ih => exact fun m => ih m.core.registers m
  | assign registers next ih => exact fun m => IsTrans.trans _ _ _ (h.assign m registers) (ih _)

namespace EachAccess

/-- A read is marked at most once. -/
theorem markRead (h : EachAccess R) (m : Machine) (span : Option Span) (address : UInt16) :
    R m (m.markRead span address) := by
  unfold Machine.markRead
  split
  next => exact h.markLoaded m address
  next => exact refl m

theorem eachTransfer (h : EachAccess R) : EachTransfer R where
  read m span address value :=
    IsTrans.trans _ _ _ (h.markRead m span address) (h.fire _ .read address value)
  write m address value :=
    IsTrans.trans _ _ _ (h.poke m address value) (h.fire _ .write address value)
  assign := h.setRegisters

theorem leaves_perform (h : EachAccess R) (span : Option Span) (p : Microcode α) :
    Leaves R (perform span p) := h.eachTransfer.leaves_perform span p

theorem leaves_fetch (h : EachAccess R) : Leaves R fetch := by
  refine .get_bind fun m => .bind (h.leaves_perform _ _) fun opcode => .bind ?_ fun _ => .pure _
  exact .modify fun m => h.fire m .execute _ opcode

end EachAccess

namespace EachOutside

/-- Interrupts are microcode and log text. -/
theorem leaves_interrupt (h : EachOutside R) (i : Interrupt) : Leaves R (interrupt i) :=
  .bind (.modify fun m => h.note m _ _) fun _ => h.leaves_perform none _

theorem leaves_irq (h : EachOutside R) : Leaves R irq := by
  refine .get_bind fun m => ?_
  split
  · exact .pure _
  · exact .bind (h.leaves_interrupt .irq) fun _ => .pure _

end EachOutside

theorem finalState_observe (view : Core → Except BoardError α) (m : Machine) :
    finalState (observe view m) = m := by
  unfold observe
  split <;> rfl

/-- Looking keeps everything. -/
theorem leaves_look (view : Core → Except BoardError α) : Leaves R (observe view) := by
  intro m
  rw [finalState_observe]
  exact refl m

namespace EachListing

theorem leaves_markCode (h : EachListing R) (addresses : List UInt16) :
    Leaves R (markCode addresses) := by
  induction addresses with
  | nil => exact .pure _
  | cons address rest ih =>
    refine .bind (leaves_look _) fun v => .bind ?_ fun _ => .bind ih fun _ => .pure _
    exact .modify fun m => h.markExecuted m address

/-- An instruction is listed by at most one line. -/
theorem leaves_list (h : EachListing R) (i : Instruction) (bytes : List UInt8) :
    Leaves R (list i bytes) := by
  refine .get_bind fun m => ?_
  split
  next offset hoffset =>
    split
    · refine .bind (leaves_look _) fun line => ?_
      exact .modify fun m => h.visit m offset line
    · exact .pure _
  next => exact .pure _
  next => exact .pure _

theorem leaves_logCode (h : EachListing R) (i : Instruction) : Leaves R (logCode i) := by
  refine .get_bind fun m => ?_
  split
  · exact .get_bind fun _ => .bind (h.leaves_markCode _) fun bytes => h.leaves_list i bytes
  · exact .pure _

end EachListing

namespace EachRecord

theorem leaves_trace (h : EachRecord R) (i : Instruction) : Leaves R (trace i) := by
  refine .get_bind fun m => ?_
  split
  · refine .get_bind fun _ => .bind (leaves_look _) fun line => ?_
    exact .modify fun m => h.record m line
  · exact .pure _

theorem leaves_markCode (h : EachRecord R) (addresses : List UInt16) :
    Leaves R (markCode addresses) := h.eachListing.leaves_markCode addresses

theorem leaves_logCode (h : EachRecord R) (i : Instruction) : Leaves R (logCode i) :=
  h.eachListing.leaves_logCode i

end EachRecord

theorem leaves_decode_look (opcode : UInt8) : Leaves R (decode opcode) := by
  unfold decode
  split
  next => exact .pure _
  next => exact .get_bind fun m => .throw _

/-- A cycle consists of its updates, so what each of them keeps it keeps as well. -/
theorem EachInside.leaves_cycle (h : EachInside R) : Leaves R cycle := by
  refine .bind h.leaves_fetch fun opcode => .bind (leaves_decode_look opcode) fun i => ?_
  refine .bind (h.leaves_trace i) fun _ => .bind (h.leaves_logCode i) fun _ => ?_
  refine .get_bind fun m => .bind (h.leaves_perform _ _) fun _ => ?_
  exact .modify fun m => h.nest m i

/-- A step keeps what each of its updates keeps. -/
theorem EachUpdate.leaves_step (h : EachUpdate R) : Leaves R step := by
  refine .get_bind fun start => .bind h.leaves_cycle fun _ => .bind (.modify h.tick) fun _ => ?_
  intro m
  rw [get_bind_apply]
  split
  · exact h.note m _ _
  · exact refl m

end Mos6502.Machine
