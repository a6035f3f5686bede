import Mos6502.Proofs.Unwatched

/-!
# Calls

What the surroundings ask of a processor between two instructions: to execute the next one, or to
take an interrupt. `unwatched_act` says that the answer to a call and what it does to registers and
board depend on nothing but registers and board, so two machines that share these give the same
replies to any sequence of calls (`replies_of_core_eq`), failed ones included.
-/

namespace Mos6502

variable {ε α β : Type}

theorem finalState_unwatched (r : EStateM.Result ε Machine α) :
    finalState (unwatched r) = (finalState r).core := by
  cases r <;> rfl

theorem unwatched_bind_pure {act : EStateM ε Machine α} {bare : EStateM ε Core α} {m : Machine}
    (h : unwatched (act m) = bare m.core) (b : β) :
    unwatched ((act >>= fun _ => pure b) m) = (bare >>= fun _ => pure b) m.core := by
  cases hact : act m with
  | ok a m' =>
    rw [hact] at h
    rw [bind_of_ok hact, bind_of_ok h.symm]
    rfl
  | error e m' =>
    rw [hact] at h
    rw [bind_of_error hact, bind_of_error h.symm]
    rfl

/-! ## What microcode keeps -/

/-- The relation between two states of processor and board holds across all microcode that a machine
performs by itself. -/
structure KeptByMicrocode (R : Core → Core → Prop) : Prop where
  instruction : ∀ i : Instruction, Leaves R i.microcode.execute
  interrupt : ∀ i : Interrupt, Leaves R i.microcode.execute

namespace Core

/-- A relation that the interpreter keeps is kept by a machine without onlookers. -/
theorem leaves_perform {R : Core → Core → Prop} {p : Microcode α} (h : Leaves R p.execute) :
    Leaves R (perform p) := by
  intro c
  have hexecute := h c
  unfold perform
  cases hp : p.execute c <;> rwa [hp] at hexecute

/-- The test for a stuck program counter comes when everything is done. -/
theorem finalState_step (checkStuck : Bool) (c : Core) :
    finalState (step checkStuck c) = finalState (cycle c) := by
  unfold step
  cases cycle c with
  | error e c' => rfl
  | ok u c' =>
    dsimp only
    split <;> rfl

end Core

namespace KeptByMicrocode

variable {R : Core → Core → Prop} [IsPreorder Core R]

theorem leaves_cycle (h : KeptByMicrocode R) : Leaves R Core.cycle := by
  intro c
  unfold Core.cycle
  split
  next => exact refl c
  next =>
    split
    next => exact refl c
    next i hdecode => exact Core.leaves_perform (h.instruction i) c

theorem leaves_step (h : KeptByMicrocode R) (checkStuck : Bool) :
    Leaves R (Core.step checkStuck) := by
  intro c
  rw [Core.finalState_step]
  exact h.leaves_cycle c

end KeptByMicrocode

namespace Machine

/-- Something that the surroundings ask of a processor. -/
inductive Call where
  | step
  | nmi
  | reset
  /-- An interrupt that the program can disable. -/
  | irq

namespace Call

/-- Make a call. The answer says whether it was taken; only a disabled interrupt is not. -/
def act : Call → EStateM ExecutionError Machine Bool
  | step => Machine.step >>= fun _ => pure true
  | nmi => interrupt .nmi >>= fun _ => pure true
  | reset => interrupt .reset >>= fun _ => pure true
  | irq => Machine.irq

/-- The same call to a processor that nobody watches. -/
def onCore (checkStuck : Bool) : Call → EStateM ExecutionError Core Bool
  | step => Core.step checkStuck >>= fun _ => pure true
  | nmi => Core.perform Interrupt.nmi.microcode >>= fun _ => pure true
  | reset => Core.perform Interrupt.reset.microcode >>= fun _ => pure true
  | irq => fun c =>
    if c.registers.status.irqDisable then .ok false c
    else (Core.perform Interrupt.irq.microcode >>= fun _ => pure true) c

end Call

theorem unwatched_interrupt (i : Interrupt) (m : Machine) :
    unwatched (interrupt i m) = Core.perform i.microcode m.core :=
  unwatched_perform none i.microcode _

/-- A masked request is refused before anything else is done. -/
theorem irq_apply (m : Machine) :
    irq m = if m.registers.status.irqDisable then .ok false m
      else (interrupt .irq >>= fun _ => pure true) m := by
  rw [irq, get_bind_apply]
  split <;> rfl

/-- A call does to registers and board what it does when nobody watches. -/
theorem unwatched_act (c : Call) (m : Machine) :
    unwatched (c.act m) = c.onCore m.config.checkStuck m.core := by
  cases c with
  | step => exact unwatched_bind_pure (unwatched_step m) true
  | nmi => exact unwatched_bind_pure (unwatched_interrupt .nmi m) true
  | reset => exact unwatched_bind_pure (unwatched_interrupt .reset m) true
  | irq =>
    rw [Call.act, irq_apply, apply_ite unwatched, Call.onCore, registers]
    refine ite_congr rfl (fun _ => rfl) fun _ => ?_
    exact unwatched_bind_pure (unwatched_interrupt .irq m) true

/-! ## What a call leaves alone -/

section Kept

variable {R : Core → Core → Prop}

theorem core_interrupt (h : KeptByMicrocode R) (i : Interrupt) (m : Machine) :
    R m.core (finalState (interrupt i m)).core := by
  rw [← finalState_unwatched, unwatched_interrupt]
  exact Core.leaves_perform (h.interrupt i) m.core

theorem core_perform {p : Microcode α} (h : Leaves R p.execute) (span : Option Span) (m : Machine) :
    R m.core (finalState (perform span p m)).core := by
  rw [← finalState_unwatched, unwatched_perform]
  exact Core.leaves_perform h m.core

variable [IsPreorder Core R]

theorem Call.leaves_onCore (h : KeptByMicrocode R) (checkStuck : Bool) (c : Call) :
    Leaves R (c.onCore checkStuck) := by
  have hinterrupt := fun i => Core.leaves_perform (h.interrupt i)
  cases c with
  | step => exact .bind (h.leaves_step checkStuck) fun _ => .pure _
  | nmi => exact .bind (hinterrupt _) fun _ => .pure _
  | reset => exact .bind (hinterrupt _) fun _ => .pure _
  | irq =>
    intro c
    rw [Call.onCore]
    dsimp only
    split
    next => exact refl c
    next => exact Leaves.bind (hinterrupt _) (fun _ => .pure _) c

/-- What the interpreter keeps, the machine keeps at its core over any call. -/
theorem core_act (h : KeptByMicrocode R) (c : Call) (m : Machine) :
    R m.core (finalState (c.act m)).core := by
  rw [← finalState_unwatched, unwatched_act]
  exact c.leaves_onCore h _ m.core

theorem core_step (h : KeptByMicrocode R) (m : Machine) : R m.core (finalState (step m)).core := by
  rw [← finalState_unwatched, unwatched_step]
  exact h.leaves_step _ m.core

end Kept

theorem config_step (m : Machine) : (finalState (step m)).config = m.config := by
  rw [step_apply]
  cases hcycle : cycle m with
  | error e m' => exact (leaves_cycle.of_error hcycle).config
  | ok u m' =>
    have hconfig := (leaves_cycle.of_ok hcycle).config
    dsimp only
    split <;> exact hconfig

theorem config_interrupt (i : Interrupt) (m : Machine) :
    (finalState (interrupt i m)).config = m.config :=
  (leaves_perform none i.microcode _).config

/-- No call changes what the machine was told to record. -/
theorem config_act (c : Call) (m : Machine) : (finalState (c.act m)).config = m.config := by
  cases c with
  | step => rw [Call.act, finalState_bind_pure, config_step]
  | nmi => rw [Call.act, finalState_bind_pure, config_interrupt]
  | reset => rw [Call.act, finalState_bind_pure, config_interrupt]
  | irq =>
    rw [Call.act, irq_apply]
    split
    next => rfl
    next => rw [finalState_bind_pure, config_interrupt]

/-! ## Sequences of calls -/

/-- The replies to a sequence of calls, each with the machine behind it. A call that fails does not
end the sequence. -/
def replies : List Call → Machine → List (EStateM.Result ExecutionError Machine Bool)
  | [], _ => []
  | c :: rest, m => c.act m :: replies rest (finalState (c.act m))

/-- Machines with the same registers and the same board reply alike. -/
theorem replies_of_core_eq (calls : List Call) {m₁ m₂ : Machine} (hcore : m₁.core = m₂.core)
    (hstuck : m₁.config.checkStuck = m₂.config.checkStuck) :
    (replies calls m₁).map unwatched = (replies calls m₂).map unwatched := by
  induction calls generalizing m₁ m₂ with
  | nil => rfl
  | cons c rest ih =>
    have hreply : unwatched (c.act m₁) = unwatched (c.act m₂) := by
      rw [unwatched_act, unwatched_act, hcore, hstuck]
    simp only [replies, List.map_cons, hreply]
    congr 1
    refine ih ?_ ?_
    · rw [← finalState_unwatched, ← finalState_unwatched, hreply]
    · rw [config_act, config_act, hstuck]

end Machine

end Mos6502
