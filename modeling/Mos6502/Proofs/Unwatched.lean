import Mos6502.Proofs.Frame
import Mos6502.Proofs.Rendering

/-!
# The step without its observers

`Core.step` is the step of a processor that nobody watches: fetch, decode, execute, and at most the
test for a program counter that did not move. `unwatched_step` says that this is all that registers
and board ever see of `Machine.step`, failures included. The observers are met on the way: a trace
line or a code log that fails does so where the instruction fails (`Foresees`).
-/

namespace Mos6502

variable {α β : Type}

namespace Core

def perform (p : Microcode α) : EStateM ExecutionError Core α := fun c =>
  match p.execute c with
  | .ok a c' => .ok a c'
  | .error e c' => .error (.board e) c'

def cycle : EStateM ExecutionError Core Unit := fun c =>
  match c.board.read c.registers.pc with
  | .error e => .error (.board e) c
  | .ok opcode =>
    match Instruction.decode opcode with
    | none => .error (.unimplementedOpcode c.registers.pc opcode) c
    | some i => perform i.microcode c

/-- One instruction, with the test for a stuck program counter if it is asked for. -/
def step (checkStuck : Bool) : EStateM ExecutionError Core Unit := fun c =>
  match cycle c with
  | .error e c' => .error e c'
  | .ok _ c' =>
    if checkStuck && c'.registers.pc == c.registers.pc then .error (.stuck c.registers.pc) c'
    else .ok () c'

end Core

/-- How an action of a machine ends for registers and board. -/
def unwatched {ε : Type} : EStateM.Result ε Machine α → EStateM.Result ε Core α
  | .ok a m => .ok a m.core
  | .error e m => .error e m.core

namespace Machine

/-! ## The watched bus -/

@[simp]
theorem core_fire (m : Machine) (events : Events) (address : UInt16) (value : UInt8) :
    (m.fire events address value).core = m.core := by
  obtain ⟨journal, hfire, -⟩ := m.fire_eq events address value
  rw [hfire]

@[simp]
theorem core_poke (m : Machine) (address : UInt16) (value : UInt8) :
    (m.poke address value).core = { m.core with board := m.core.board.write address value } := by
  obtain ⟨journal, hpoke, -⟩ := m.poke_eq address value
  rw [hpoke]

/-- Performing microcode in full view does to registers and board what executing it does. -/
theorem unwatched_perform (span : Option Span) (p : Microcode α) (m : Machine) :
    unwatched (perform span p m) = Core.perform p m.core := by
  induction p generalizing m with
  | done result => rfl
  | read address next ih =>
    simp only [perform, Core.perform, Microcode.execute]
    cases hread : m.core.board.read address with
    | ok v =>
      have hcore : ((m.markRead span address).fire .read address v).core = m.core := by
        rw [core_fire, (onlyLogs_markRead m span address).core]
      have hrest := ih v ((m.markRead span address).fire .read address v)
      rw [hcore] at hrest
      exact hrest
    | error e => rfl
  | write address value next ih =>
    have hrest := ih ((m.poke address value).fire .write address value)
    rw [core_fire, core_poke] at hrest
    exact hrest
  | inspect next ih => exact ih m.core.registers m
  | assign registers next ih => exact ih (m.setRegisters registers)

/-- What was performed on the machine was executed on its core. -/
theorem execute_of_perform {span : Option Span} {p : Microcode α} {m m' : Machine} {a : α}
    (h : perform span p m = .ok a m') : p.execute m.core = .ok a m'.core := by
  have hunwatched := unwatched_perform span p m
  rw [h] at hunwatched
  unfold Core.perform at hunwatched
  split at hunwatched
  next hexecute => cases hunwatched; exact hexecute
  next => cases hunwatched

/-- What succeeds on the bare processor succeeds in full view, and comes to the same. -/
theorem perform_of_execute (span : Option Span) {p : Microcode α} {m : Machine} {c : Core} {a : α}
    (h : p.execute m.core = .ok a c) : ∃ m', perform span p m = .ok a m' ∧ m'.core = c := by
  have hunwatched := unwatched_perform span p m
  rw [Core.perform, h] at hunwatched
  cases hperform : perform span p m with
  | ok b m' =>
    rw [hperform] at hunwatched
    cases hunwatched
    exact ⟨m', rfl, rfl⟩
  | error e m' => rw [hperform] at hunwatched; cases hunwatched

/-! ## The observers -/

/-- An observer of an instruction that can fail only by announcing the instruction's own failure. -/
def Foresees (i : Instruction) (act : EStateM ExecutionError Machine α) : Prop :=
  ∀ m m' err, i.FetchedFrom m.core → act m = .error err m' →
    ∃ e, err = .board e ∧ i.microcode.execute m.core = .error e m.core

/-- Tracing fails where the instruction would: both read the same bytes. -/
theorem foresees_trace (i : Instruction) : Foresees i (trace i) := by
  intro m m' err hfetched herror
  rw [trace_apply] at herror
  split at herror
  next =>
    cases hline : m.core.traceLine m.ticks i with
    | ok line => rw [bind_of_ok (observe_of_ok hline)] at herror; cases herror
    | error e =>
      rw [bind_of_error (observe_of_error hline)] at herror
      cases herror
      exact ⟨e, rfl, hfetched.execute_of_traceLine_error hline⟩
  next => cases herror

/-- A listing fails with an error of the board, in rendering its line. -/
theorem list_eq_error {i : Instruction} {bytes : List UInt8} {m m' : Machine}
    {err : ExecutionError} (h : list i bytes m = .error err m') :
    ∃ e offset, err = .board e ∧ m.core.listingLine i offset bytes = .error e := by
  rw [list_apply] at h
  split at h
  next offset hoffset =>
    split at h
    next => cases h
    next =>
      cases hline : m.core.listingLine i offset bytes with
      | ok line => rw [bind_of_ok (observe_of_ok hline)] at h; cases h
      | error e =>
        rw [bind_of_error (observe_of_error hline)] at h
        cases h
        exact ⟨e, offset, rfl, hline⟩
  next => cases h
  next => cases h

/-- Recording code fails where the instruction would. -/
theorem foresees_logCode (i : Instruction) : Foresees i (logCode i) := by
  intro m m' err hfetched herror
  have hread : ((List.range i.size).map fun n => m.registers.pc + UInt16.ofNat n).mapM
      m.core.peekByte = m.core.instructionBytes i.size := List.mapM_map
  have hmark := markCode_spec ((List.range i.size).map fun n => m.registers.pc + UInt16.ofNat n) m
  rw [hread] at hmark
  rw [logCode_apply] at herror
  split at herror
  next =>
    cases hbytes : m.core.instructionBytes i.size with
    | error e =>
      rw [hbytes] at hmark
      obtain ⟨m₁, hm₁⟩ := hmark
      rw [bind_of_error hm₁] at herror
      cases herror
      exact ⟨e, rfl, hfetched.execute_of_byte_error hbytes⟩
    | ok bytes =>
      rw [hbytes] at hmark
      obtain ⟨m₁, hm₁⟩ := hmark
      rw [bind_of_ok hm₁] at herror
      obtain ⟨e, offset, rfl, hline⟩ := list_eq_error herror
      rw [((leaves_markCode _).of_ok hm₁).core] at hline
      exact ⟨e, rfl, Instruction.execute_of_listingLine_error hbytes hline⟩
  next => cases herror

/-! ## The step -/

/-- A fetch reads the opcode and changes nothing that a program can see. -/
theorem fetch_spec (m : Machine) :
    match m.core.board.read m.registers.pc with
    | .ok opcode => ∃ m', fetch m = .ok opcode m' ∧ m'.core = m.core
    | .error e => fetch m = .error (.board e) m := by
  cases hread : m.core.board.read m.registers.pc with
  | error e =>
    have hperform : perform (some ⟨m.registers.pc, 1⟩) (Microcode.readByte m.registers.pc) m =
        .error (.board e) m := by
      simp only [Microcode.readByte, perform, hread]
    rw [fetch, get_bind_apply, bind_of_error hperform]
  | ok opcode =>
    have hperform : perform (some ⟨m.registers.pc, 1⟩) (Microcode.readByte m.registers.pc) m =
        .ok opcode ((m.markRead (some ⟨m.registers.pc, 1⟩) m.registers.pc).fire .read
          m.registers.pc opcode) := by
      simp only [Microcode.readByte, perform, hread]
    refine ⟨_, by rw [fetch, get_bind_apply, bind_of_ok hperform]; rfl, ?_⟩
    rw [core_fire, core_fire, (onlyLogs_markRead _ _ _).core]

theorem fetch_eq_ok {m m' : Machine} {opcode : UInt8} (h : fetch m = .ok opcode m') :
    m.core.board.read m.registers.pc = .ok opcode ∧ m'.core = m.core := by
  have hspec := fetch_spec m
  cases hread : m.core.board.read m.registers.pc with
  | error e =>
    simp only [hread] at hspec
    cases h.symm.trans hspec
  | ok v =>
    simp only [hread] at hspec
    obtain ⟨m₁, hfetch, hcore⟩ := hspec
    cases h.symm.trans hfetch
    exact ⟨rfl, hcore⟩

theorem decode_of_some {opcode : UInt8} {i : Instruction} (h : Instruction.decode opcode = some i)
    (m : Machine) : decode opcode m = .ok i m := by
  simp only [decode, h]
  rfl

/-- An opcode without an instruction is reported with its address. -/
theorem decode_of_none {opcode : UInt8} (h : Instruction.decode opcode = none) (m : Machine) :
    decode opcode m = .error (.unimplementedOpcode m.registers.pc opcode) m := by
  simp only [decode, h]
  rfl

/-- Observers in front of an action that fails as they foresee leave no trace in the result. -/
theorem Foresees.unwatched_bind {i : Instruction} {act : EStateM ExecutionError Machine Unit}
    (h : Foresees i act) (hlogs : Leaves OnlyLogs act)
    {rest : Unit → EStateM ExecutionError Machine Unit} {m : Machine}
    (hfetched : i.FetchedFrom m.core)
    (hrest : ∀ m', m'.core = m.core → unwatched (rest () m') = Core.perform i.microcode m.core) :
    unwatched ((act >>= rest) m) = Core.perform i.microcode m.core := by
  cases hact : act m with
  | ok u m₁ =>
    rw [bind_of_ok hact]
    exact hrest m₁ (hlogs.of_ok hact).core
  | error err m₁ =>
    obtain ⟨e, rfl, hfails⟩ := h m m₁ err hfetched hact
    rw [bind_of_error hact, unwatched, (hlogs.of_error hact).core, Core.perform, hfails]

/-- Registers and board see a cycle as if nobody watched. -/
theorem unwatched_cycle (m : Machine) : unwatched (cycle m) = Core.cycle m.core := by
  have hfetch := fetch_spec m
  unfold cycle Core.cycle
  cases hread : m.core.board.read m.core.registers.pc with
  | error e =>
    simp only [registers, hread] at hfetch
    rw [bind_of_error hfetch]
    rfl
  | ok opcode =>
    simp only [registers, hread] at hfetch
    obtain ⟨m₁, hm₁, hcore⟩ := hfetch
    rw [bind_of_ok hm₁]
    dsimp only
    cases hdecode : Instruction.decode opcode with
    | none =>
      rw [bind_of_error (decode_of_none hdecode m₁)]
      simp only [unwatched, registers, hcore]
    | some i =>
      rw [bind_of_ok (decode_of_some hdecode m₁)]
      dsimp only
      have hfetched : ∀ m' : Machine, m'.core = m.core → i.FetchedFrom m'.core := by
        rintro m' hm'
        rw [hm']
        exact ⟨opcode, hread, hdecode⟩
      rw [← hcore]
      -- An observer that fails does so with the error that the instruction meets later.
      refine (foresees_trace i).unwatched_bind (leaves_trace i) (hfetched m₁ hcore) fun m₂ hm₂ => ?_
      rw [← hm₂]
      refine (foresees_logCode i).unwatched_bind (leaves_logCode i)
        (hfetched m₂ (hm₂.trans hcore)) fun m₃ hm₃ => ?_
      rw [← hm₃, ← unwatched_perform (some ⟨m₃.registers.pc, i.size⟩)]
      rw [get_bind_apply]
      cases hperform : perform (some ⟨m₃.registers.pc, i.size⟩) i.microcode m₃ with
      | ok u m₄ => rw [bind_of_ok hperform]; rfl
      | error e m₄ => rw [bind_of_error hperform]

/-- A step is a cycle, a tick, and the check for a stuck program behind both. -/
theorem step_apply (m : Machine) :
    step m =
      match cycle m with
      | .error e m' => .error e m'
      | .ok _ m' =>
        if m'.config.checkStuck && m'.registers.pc == m.registers.pc then
          .error (.stuck m.registers.pc) ({ m' with ticks := m'.ticks + 1 }.note .warn fun _ =>
            "PC stuck at " ++ Text.address m.registers.pc)
        else .ok () { m' with ticks := m'.ticks + 1 } := by
  rw [step, get_bind_apply]
  cases hcycle : cycle m with
  | error e m' => rw [bind_of_error hcycle]
  | ok u m' =>
    rw [bind_of_ok hcycle, modify_bind_apply, get_bind_apply]
    change (if (m'.config.checkStuck && m'.registers.pc == m.registers.pc) = true then _ else _ :
      EStateM ExecutionError Machine Unit) _ = if _ then _ else _
    split <;> rfl

/-- Registers and board see a step as if nobody watched. -/
theorem unwatched_step (m : Machine) :
    unwatched (step m) = Core.step m.config.checkStuck m.core := by
  have hcycle := unwatched_cycle m
  rw [step_apply, Core.step, ← hcycle]
  cases h : cycle m with
  | error e m' => rfl
  | ok u m' =>
    change unwatched (if _ then _ else _) = if _ then _ else _
    rw [apply_ite unwatched, (leaves_cycle.of_ok h).config]
    rfl

/-! ## Successful and failed steps -/

/-- A cycle succeeds exactly if each of its parts does. -/
theorem cycle_eq_ok_iff {m m' : Machine} :
    cycle m = .ok () m' ↔ ∃ opcode m₁ i m₂ m₃ m₄, fetch m = .ok opcode m₁ ∧
      Instruction.decode opcode = some i ∧ trace i m₁ = .ok () m₂ ∧ logCode i m₂ = .ok () m₃ ∧
        perform (some ⟨m₃.registers.pc, i.size⟩) i.microcode m₃ = .ok () m₄ ∧ m' = m₄.nest i := by
  constructor
  · intro h
    obtain ⟨opcode, m₁, hfetch, h⟩ := bind_eq_ok.mp h
    obtain ⟨i, m₁', hdecode, h⟩ := bind_eq_ok.mp h
    obtain ⟨_, m₂, htrace, h⟩ := bind_eq_ok.mp h
    obtain ⟨_, m₃, hlog, h⟩ := bind_eq_ok.mp h
    rw [get_bind_apply] at h
    obtain ⟨_, m₄, hperform, hnest⟩ := bind_eq_ok.mp h
    cases hinstruction : Instruction.decode opcode with
    | none => rw [decode_of_none hinstruction] at hdecode; cases hdecode
    | some j =>
      rw [decode_of_some hinstruction] at hdecode
      cases hdecode
      cases hnest
      exact ⟨opcode, m₁, i, m₂, m₃, m₄, hfetch, hinstruction, htrace, hlog, hperform, rfl⟩
  · rintro ⟨opcode, m₁, i, m₂, m₃, m₄, hfetch, hdecode, htrace, hlog, hperform, rfl⟩
    rw [cycle, bind_of_ok hfetch, bind_of_ok (decode_of_some hdecode m₁), bind_of_ok htrace,
      bind_of_ok hlog, get_bind_apply, bind_of_ok hperform]
    rfl

/-- A cycle that succeeds fetches, lets the observers write, and performs. -/
theorem cycle_eq_ok {m m' : Machine} (h : cycle m = .ok () m') :
    ∃ opcode i m₁ m₂ m₃, fetch m = .ok opcode m₁ ∧ Instruction.decode opcode = some i ∧
      OnlyLogs m₁ m₂ ∧ perform (some ⟨m₂.registers.pc, i.size⟩) i.microcode m₂ = .ok () m₃ ∧
      m' = m₃.nest i := by
  obtain ⟨opcode, m₁, i, mtrace, m₂, m₃, hfetch, hdecode, htrace, hlog, hperform, hnest⟩ :=
    cycle_eq_ok_iff.mp h
  have hlogs : OnlyLogs m₁ m₂ :=
    IsTrans.trans _ _ _ ((leaves_trace i).of_ok htrace) ((leaves_logCode i).of_ok hlog)
  exact ⟨opcode, i, m₁, m₂, m₃, hfetch, hdecode, hlogs, hperform, hnest⟩

/-- A step that succeeds is a cycle and a tick. -/
theorem step_eq_ok {m m' : Machine} (h : step m = .ok () m') :
    ∃ m₁, cycle m = .ok () m₁ ∧ m' = { m₁ with ticks := m₁.ticks + 1 } := by
  rw [step_apply] at h
  cases hcycle : cycle m with
  | error e m₁ => rw [hcycle] at h; cases h
  | ok u m₁ =>
    simp only [hcycle] at h
    split at h
    next => cases h
    next =>
      cases h
      exact ⟨m₁, rfl, rfl⟩

/-- A step that succeeds executes the instruction that lies at the program counter. -/
theorem execute_of_step_ok {m m' : Machine} (h : step m = .ok () m') :
    ∃ i : Instruction, i.FetchedFrom m.core ∧ i.microcode.execute m.core = .ok () m'.core := by
  obtain ⟨m₁, hcycle, rfl⟩ := step_eq_ok h
  obtain ⟨opcode, i, f, l, p, hfetch, hdecode, hlogs, hperform, rfl⟩ := cycle_eq_ok hcycle
  obtain ⟨hread, hcore⟩ := fetch_eq_ok hfetch
  have hexecute := execute_of_perform hperform
  rw [hlogs.core, hcore] at hexecute
  exact ⟨i, ⟨opcode, hread, hdecode⟩, hexecute⟩

/-- A step fails inside the cycle, or behind it because the program counter did not move. -/
theorem step_eq_error {m m' : Machine} {e : ExecutionError} (h : step m = .error e m') :
    cycle m = .error e m' ∨ ∃ m₁, cycle m = .ok () m₁ ∧ e = .stuck m.registers.pc ∧
      OnlyLogs { m₁ with ticks := m₁.ticks + 1 } m' := by
  rw [step_apply] at h
  cases hcycle : cycle m with
  | error e' m₁ =>
    rw [hcycle] at h
    exact .inl h
  | ok u m₁ =>
    simp only [hcycle] at h
    split at h
    next =>
      cases h
      exact .inr ⟨m₁, rfl, rfl, onlyLogs_note _ _ _⟩
    next => cases h

/-- Inside the cycle only the board and an unknown opcode make an instruction fail. -/
theorem cycle_ne_stuck {m m' : Machine} {address : UInt16} :
    cycle m ≠ .error (.stuck address) m' := by
  intro h
  have hcycle := unwatched_cycle m
  rw [h] at hcycle
  simp only [unwatched, Core.cycle, Core.perform] at hcycle
  split at hcycle
  next => cases hcycle
  next =>
    split at hcycle
    next => cases hcycle
    next => split at hcycle <;> cases hcycle

/-- The instructions that have been counted when a step fails. -/
def ticksOfFailure : ExecutionError → Nat
  | .stuck _ => 1
  | .unimplementedOpcode .. | .instructionLimit _ | .board _ => 0

theorem ticks_of_step_ok {m m' : Machine} (h : step m = .ok () m') : m'.ticks = m.ticks + 1 := by
  obtain ⟨m₁, hcycle, rfl⟩ := step_eq_ok h
  rw [(leaves_cycle.of_ok hcycle).ticks]

/-- A failing step counts as a tick only if the program was stuck. -/
theorem ticks_of_step_error {m m' : Machine} {e : ExecutionError} (h : step m = .error e m') :
    m'.ticks = m.ticks + ticksOfFailure e := by
  rcases step_eq_error h with hcycle | ⟨m₁, hcycle, rfl, hlogs⟩
  · rw [(leaves_cycle.of_error hcycle).ticks]
    cases e with
    | stuck address => exact absurd hcycle cycle_ne_stuck
    | unimplementedOpcode address opcode => rfl
    | instructionLimit count => rfl
    | board error => rfl
  · rw [hlogs.ticks, (leaves_cycle.of_ok hcycle).ticks]
    rfl

theorem config_of_step_ok {m m' : Machine} (h : step m = .ok () m') : m'.config = m.config := by
  obtain ⟨m₁, hcycle, rfl⟩ := step_eq_ok h
  exact (leaves_cycle.of_ok hcycle).config

end Machine

end Mos6502
