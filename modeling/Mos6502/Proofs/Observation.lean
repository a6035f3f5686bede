import Mos6502.Proofs.RunLoop

/-!
# Observation does not change execution

Two machines with the same registers and the same board execute alike, whatever watches them. If
they agree in everything but what they record, they also agree in what the breakpoints are shown
and in when a run stops: they are twins (`Twins`), a successful step takes twins to twins, and so
does a run that stops.
-/

namespace Mos6502

open Breakpoints (Hit)

variable {α : Type}

namespace Machine

/-- The machine without its records, and without the settings that say what is recorded. -/
def unrecorded (m : Machine) : Machine :=
  { m with
    config := { m.config with trace := false, historyLength := 0, codeDataLog := false }
    history := .ofCapacity 0
    log := .empty
    journal := {} }

/-- Machines that differ at most in their history, their logs, and the settings that say what is
recorded. -/
def Twins (m₁ m₂ : Machine) : Prop := m₁.unrecorded = m₂.unrecorded

/-- Both machines have shown their breakpoints the same accesses since `h₁` and `h₂`. -/
def ShownAlike (h₁ h₂ : Array Hit) (m₁ m₂ : Machine) : Prop :=
  ∃ new, m₁.hits = h₁ ++ new ∧ m₂.hits = h₂ ++ new

/-- Twins all the way since their breakpoints had been shown `h₁` and `h₂`. -/
structure Abreast (h₁ h₂ : Array Hit) (m₁ m₂ : Machine) : Prop where
  twins : Twins m₁ m₂
  shownAlike : ShownAlike h₁ h₂ m₁ m₂

theorem OnlyLogs.twins {m m' : Machine} (h : OnlyLogs m m') : Twins m' m := by
  unfold Twins unrecorded
  rw [h.core, h.config, h.ticks, h.halted, h.depth, h.breakpoints]

namespace Twins

variable {m₁ m₂ : Machine}

/-- Twins look alike to whatever does not look at records. -/
theorem congr {β : Type} (h : Twins m₁ m₂) (f : Machine → β) (hf : ∀ m, f m.unrecorded = f m) :
    f m₁ = f m₂ := by
  rw [← hf m₁, ← hf m₂, show m₁.unrecorded = m₂.unrecorded from h]

theorem core (h : Twins m₁ m₂) : m₁.core = m₂.core := h.congr Machine.core fun _ => rfl

theorem checkStuck (h : Twins m₁ m₂) : m₁.config.checkStuck = m₂.config.checkStuck :=
  h.congr (fun m => m.config.checkStuck) fun _ => rfl

theorem ticks (h : Twins m₁ m₂) : m₁.ticks = m₂.ticks := h.congr Machine.ticks fun _ => rfl

theorem breakpoints (h : Twins m₁ m₂) : m₁.breakpoints = m₂.breakpoints :=
  h.congr Machine.breakpoints fun _ => rfl

/-- Twins decide alike at the boundaries between their steps. -/
theorem boundary (h : Twins m₁ m₂) (executed : Nat) :
    m₁.boundary executed = m₂.boundary executed :=
  h.congr (fun m => m.boundary executed) fun _ => rfl

theorem abreast (h : Twins m₁ m₂) : Abreast m₁.hits m₂.hits m₁ m₂ :=
  ⟨h, #[], by simp, by simp⟩

end Twins

/-! ## What keeps machines abreast -/

namespace Abreast

variable {h₁ h₂ : Array Hit} {m₁ m₂ m₁' m₂' : Machine}

theorem core (h : Abreast h₁ h₂ m₁ m₂) : m₁.core = m₂.core := h.twins.core

/-- Each of two machines may log what it likes. -/
theorem of_onlyLogs (h : Abreast h₁ h₂ m₁ m₂) (hleft : OnlyLogs m₁ m₁')
    (hright : OnlyLogs m₂ m₂') : Abreast h₁ h₂ m₁' m₂' where
  twins := hleft.twins.trans (h.twins.trans hright.twins.symm)
  shownAlike := by
    rw [ShownAlike, hleft.hits, hright.hits]
    exact h.shownAlike

theorem note (h : Abreast h₁ h₂ m₁ m₂) (level : Level) (text₁ text₂ : Unit → String) :
    Abreast h₁ h₂ (m₁.note level text₁) (m₂.note level text₂) :=
  h.of_onlyLogs (onlyLogs_note m₁ level text₁) (onlyLogs_note m₂ level text₂)

/-- An update that has nothing to do with records keeps machines abreast. -/
theorem map (h : Abreast h₁ h₂ m₁ m₂) (f : Machine → Machine)
    (hf : ∀ m, (f m).unrecorded = f m.unrecorded) (hhits : ∀ m, (f m).hits = m.hits) :
    Abreast h₁ h₂ (f m₁) (f m₂) where
  twins := (hf m₁).trans ((congrArg f h.twins).trans (hf m₂).symm)
  shownAlike := by
    rw [ShownAlike, hhits, hhits]
    exact h.shownAlike

theorem halt (h : Abreast h₁ h₂ m₁ m₂) : Abreast h₁ h₂ m₁.halt m₂.halt :=
  h.map Machine.halt (fun _ => rfl) fun _ => rfl

theorem mapCore (h : Abreast h₁ h₂ m₁ m₂) (f : Core → Core) :
    Abreast h₁ h₂ { m₁ with core := f m₁.core } { m₂ with core := f m₂.core } :=
  h.map (fun m => { m with core := f m.core }) (fun _ => rfl) fun _ => rfl

/-- Breakpoints that are alike are shown the same access and answer alike. -/
theorem fire (h : Abreast h₁ h₂ m₁ m₂) (events : Events) (address : UInt16) (value : UInt8) :
    Abreast h₁ h₂ (m₁.fire events address value) (m₂.fire events address value) := by
  obtain ⟨new, hnew₁, hnew₂⟩ := h.shownAlike
  have hregisters : m₂.core.registers = m₁.core.registers := by rw [h.core]
  unfold Machine.fire
  rw [← h.twins.breakpoints, hregisters]
  split
  next => exact h
  next =>
    dsimp only
    rcases m₁.breakpoints.fire { events, address, value, registers := m₁.core.registers }
      with ⟨breakpoints, hits, asked⟩
    have hfired : Abreast h₁ h₂
        { m₁ with breakpoints := breakpoints, journal := hits.foldl Journal.hit m₁.journal }
        { m₂ with breakpoints := breakpoints, journal := hits.foldl Journal.hit m₂.journal } := by
      refine ⟨?_, new ++ hits.toArray, ?_, ?_⟩
      · exact (h.map (fun m => { m with breakpoints := breakpoints }) (fun _ => rfl)
          fun _ => rfl).twins
      · rw [← Array.append_assoc, ← hnew₁]
        exact Journal.hits_foldl_hit hits m₁.journal
      · rw [← Array.append_assoc, ← hnew₂]
        exact Journal.hits_foldl_hit hits m₂.journal
    split
    next => exact (hfired.note .debug _ _).halt
    next => exact hfired

theorem setRegisters (h : Abreast h₁ h₂ m₁ m₂) (r : Registers) :
    Abreast h₁ h₂ (m₁.setRegisters r) (m₂.setRegisters r) :=
  h.mapCore fun c => { c with registers := r }

theorem poke (h : Abreast h₁ h₂ m₁ m₂) (address : UInt16) (value : UInt8) :
    Abreast h₁ h₂ (m₁.poke address value) (m₂.poke address value) := by
  unfold Machine.poke
  rw [← h.core]
  split
  next => exact (h.note .trace _ _).mapCore fun c => { c with board := c.board.write address value }
  next => exact h.mapCore fun c => { c with board := c.board.write address value }

theorem markRead (h : Abreast h₁ h₂ m₁ m₂) (span₁ span₂ : Option Span) (address : UInt16) :
    Abreast h₁ h₂ (m₁.markRead span₁ address) (m₂.markRead span₂ address) :=
  h.of_onlyLogs (onlyLogs_markRead m₁ span₁ address) (onlyLogs_markRead m₂ span₂ address)

/-- Microcode that succeeds on one machine does so on the other. -/
theorem perform (h : Abreast h₁ h₂ m₁ m₂) (span : Option Span) (p : Microcode α) {a : α}
    (hok : Machine.perform span p m₁ = .ok a m₁') :
    ∃ m₂', Machine.perform span p m₂ = .ok a m₂' ∧ Abreast h₁ h₂ m₁' m₂' := by
  induction p generalizing m₁ m₂ with
  | done result =>
    cases hok
    exact ⟨m₂, rfl, h⟩
  | read address next ih =>
    simp only [Machine.perform, ← h.core] at hok ⊢
    cases hread : m₁.core.board.read address with
    | ok v =>
      rw [hread] at hok
      exact ih v ((h.markRead span span address).fire .read address v) hok
    | error e => rw [hread] at hok; cases hok
  | write address value next ih => exact ih ((h.poke address value).fire .write address value) hok
  | inspect next ih =>
    simp only [Machine.perform, ← h.core] at hok ⊢
    exact ih m₁.core.registers h hok
  | assign registers next ih => exact ih (h.setRegisters registers) hok

theorem fetch (h : Abreast h₁ h₂ m₁ m₂) {opcode : UInt8}
    (hok : Machine.fetch m₁ = .ok opcode m₁') :
    ∃ m₂', Machine.fetch m₂ = .ok opcode m₂' ∧ Abreast h₁ h₂ m₁' m₂' := by
  simp only [Machine.fetch, get_bind_apply, registers, ← h.core] at hok ⊢
  obtain ⟨v, mread, hperform, hrest⟩ := bind_eq_ok.mp hok
  obtain ⟨mread', hperform', habreast⟩ := h.perform _ _ hperform
  cases hrest
  exact ⟨_, bind_of_ok hperform', habreast.fire .execute _ _⟩

theorem nest (h : Abreast h₁ h₂ m₁ m₂) (i : Instruction) :
    Abreast h₁ h₂ (m₁.nest i) (m₂.nest i) :=
  h.map (fun m => m.nest i) (fun _ => rfl) fun _ => rfl

theorem tick (h : Abreast h₁ h₂ m₁ m₂) :
    Abreast h₁ h₂ { m₁ with ticks := m₁.ticks + 1 } { m₂ with ticks := m₂.ticks + 1 } :=
  h.map (fun m => { m with ticks := m.ticks + 1 }) (fun _ => rfl) fun _ => rfl

/-- Two cycles that both succeed keep the machines abreast, whatever their observers wrote. -/
theorem cycle (h : Abreast h₁ h₂ m₁ m₂) (hok₁ : Machine.cycle m₁ = .ok () m₁')
    (hok₂ : Machine.cycle m₂ = .ok () m₂') : Abreast h₁ h₂ m₁' m₂' := by
  obtain ⟨opcode, i, mf₁, ml₁, mp₁, hfetch₁, hdecode₁, hlogs₁, hperform₁, rfl⟩ := cycle_eq_ok hok₁
  obtain ⟨opcode', i', mf₂, ml₂, mp₂, hfetch₂, hdecode₂, hlogs₂, hperform₂, rfl⟩ :=
    cycle_eq_ok hok₂
  obtain ⟨mf, hfetch, hfetched⟩ := h.fetch hfetch₁
  cases hfetch.symm.trans hfetch₂
  cases hdecode₁.symm.trans hdecode₂
  have hlogged := hfetched.of_onlyLogs hlogs₁ hlogs₂
  have hspan : ml₂.registers.pc = ml₁.registers.pc := by rw [registers, registers, hlogged.core]
  rw [hspan] at hperform₂
  obtain ⟨mp, hperform, hperformed⟩ := hlogged.perform _ _ hperform₁
  cases hperform.symm.trans hperform₂
  exact hperformed.nest i

/-- Seen from the core the two steps are one. -/
theorem unwatched_step (h : Abreast h₁ h₂ m₁ m₂) :
    unwatched (Machine.step m₁) = unwatched (Machine.step m₂) := by
  rw [Machine.unwatched_step, Machine.unwatched_step, h.core, h.twins.checkStuck]

/-- A step that succeeds on one of two machines succeeds on the other, and keeps them abreast. -/
theorem step (h : Abreast h₁ h₂ m₁ m₂) (hok : Machine.step m₁ = .ok () m₁') :
    ∃ m₂', Machine.step m₂ = .ok () m₂' ∧ Abreast h₁ h₂ m₁' m₂' := by
  have hsame := h.unwatched_step
  cases hok₂ : Machine.step m₂ with
  | error e m₂' =>
    rw [hok, hok₂] at hsame
    cases hsame
  | ok u m₂' =>
    obtain ⟨mc₁, hcycle₁, rfl⟩ := step_eq_ok hok
    obtain ⟨mc₂, hcycle₂, rfl⟩ := step_eq_ok hok₂
    exact ⟨_, rfl, (h.cycle hcycle₁ hcycle₂).tick⟩

/-- A step that fails on one of two machines fails on the other. -/
theorem step_error (h : Abreast h₁ h₂ m₁ m₂) {e : ExecutionError}
    (herror : Machine.step m₁ = .error e m₁') :
    ∃ m₂', Machine.step m₂ = .error e m₂' ∧ m₁'.core = m₂'.core := by
  have hsame := h.unwatched_step
  cases hstep₂ : Machine.step m₂ with
  | ok u m₂' =>
    rw [herror, hstep₂] at hsame
    cases hsame
  | error e' m₂' =>
    rw [herror, hstep₂] at hsame
    injection hsame with herr hcore
    exact ⟨m₂', by rw [herr], hcore⟩

end Abreast

/-! ## Runs -/

/-- Two runs end alike: both stop, for the same reason, and the machines have stayed abreast, or
both fail with the same error, with the same registers and board and after as many ticks. -/
def EndAlike (h₁ h₂ : Array Hit) :
    EStateM.Result Fault Machine (Option Outcome) →
      EStateM.Result Fault Machine (Option Outcome) → Prop
  | .ok outcome₁ m₁, .ok outcome₂ m₂ => outcome₁ = outcome₂ ∧ Abreast h₁ h₂ m₁ m₂
  | .error fault₁ m₁, .error fault₂ m₂ =>
    fault₁.error = fault₂.error ∧ m₁.core = m₂.core ∧ m₁.ticks = m₂.ticks
  | .ok _ _, .error _ _ | .error _ _, .ok _ _ => False

theorem Abreast.settle {h₁ h₂ : Array Hit} {m₁ m₂ : Machine} (h : Abreast h₁ h₂ m₁ m₂)
    (outcome : Outcome) : Abreast h₁ h₂ (m₁.settle outcome) (m₂.settle outcome) := by
  cases outcome with
  | returned => exact h.map (fun m => { m with depth := none }) (fun _ => rfl) fun _ => rfl
  | halted => exact h.map clearHalt (fun _ => rfl) fun _ => rfl
  | limitReached | stopped => exact h

/-- A fault is the same whatever was recorded on the way. -/
theorem endAlike_fault {h₁ h₂ : Array Hit} {m₁ m₂ : Machine} {error : ExecutionError}
    (hcore : m₁.core = m₂.core) (hticks : m₁.ticks = m₂.ticks) :
    EndAlike h₁ h₂ (fault error m₁) (fault error m₂) := by
  obtain ⟨journal₁, hfault₁, -⟩ := fault_apply (α := Option Outcome) error m₁
  obtain ⟨journal₂, hfault₂, -⟩ := fault_apply (α := Option Outcome) error m₂
  rw [hfault₁, hfault₂]
  exact ⟨rfl, hcore, hticks⟩

/-- A run that ends at its first boundary does so for both machines. -/
theorem Abreast.runFrom_of_ne_proceed {h₁ h₂ : Array Hit} {m₁ m₂ : Machine}
    (h : Abreast h₁ h₂ m₁ m₂) (budget : Nat) {executed : Nat}
    (hends : m₁.boundary executed ≠ .proceed) :
    EndAlike h₁ h₂ (Machine.runFrom budget executed m₁) (Machine.runFrom budget executed m₂) := by
  cases hb₁ : m₁.boundary executed with
  | proceed => exact absurd hb₁ hends
  | stop outcome =>
    obtain ⟨text₁, hrun₁⟩ := runFrom_of_stop hb₁ budget
    obtain ⟨text₂, hrun₂⟩ := runFrom_of_stop ((h.twins.boundary executed).symm.trans hb₁) budget
    rw [hrun₁, hrun₂]
    exact ⟨rfl, (h.settle outcome).note .info text₁ text₂⟩
  | fail error =>
    rw [runFrom_of_fail hb₁, runFrom_of_fail ((h.twins.boundary executed).symm.trans hb₁)]
    exact endAlike_fault h.core h.twins.ticks

/-- Runs of machines that are abreast end alike. The induction is on the budget; that the machines
are abreast at the boundary is the invariant. -/
theorem Abreast.runFrom {h₁ h₂ : Array Hit} {m₁ m₂ : Machine} (h : Abreast h₁ h₂ m₁ m₂)
    (budget executed : Nat) :
    EndAlike h₁ h₂ (Machine.runFrom budget executed m₁) (Machine.runFrom budget executed m₂) := by
  induction budget generalizing m₁ m₂ executed with
  | zero =>
    by_cases hb₁ : m₁.boundary executed = .proceed
    · have hb₂ := (h.twins.boundary executed).symm.trans hb₁
      rw [runFrom_zero_of_proceed hb₁, runFrom_zero_of_proceed hb₂]
      exact ⟨rfl, h⟩
    · exact h.runFrom_of_ne_proceed 0 hb₁
  | succ budget ih =>
    by_cases hb₁ : m₁.boundary executed = .proceed
    · have hb₂ := (h.twins.boundary executed).symm.trans hb₁
      cases hstep₁ : Machine.step m₁ with
      | ok u m₁' =>
        obtain ⟨m₂', hstep₂, habreast⟩ := h.step hstep₁
        rw [runFrom_succ_of_ok hb₁ hstep₁, runFrom_succ_of_ok hb₂ hstep₂]
        exact ih habreast (executed + 1)
      | error e m₁' =>
        obtain ⟨m₂', hstep₂, hcore⟩ := h.step_error hstep₁
        rw [runFrom_succ_of_error hb₁ hstep₁, runFrom_succ_of_error hb₂ hstep₂]
        refine endAlike_fault hcore ?_
        rw [ticks_of_step_error hstep₁, ticks_of_step_error hstep₂, h.twins.ticks]
    · exact h.runFrom_of_ne_proceed _ hb₁

/-- Registers and board go the same way whatever watches them: a step gives the same result and
leaves them alike. Machines that differ only in what they record also agree, step by step and over
a whole run, in what the breakpoints are shown, in the halt flag, and in when and why the run
ends. -/
theorem step_and_run_of_core_eq (m₁ m₂ : Machine) (hcore : m₁.core = m₂.core)
    (hstuck : m₁.config.checkStuck = m₂.config.checkStuck) :
    unwatched (step m₁) = unwatched (step m₂) ∧
    (Twins m₁ m₂ →
      (∀ m₁', step m₁ = .ok () m₁' →
        ∃ m₂', step m₂ = .ok () m₂' ∧ Twins m₁' m₂' ∧ ShownAlike m₁.hits m₂.hits m₁' m₂') ∧
      ∀ budget, EndAlike m₁.hits m₂.hits (run budget m₁) (run budget m₂)) := by
  refine ⟨?_, fun htwins => ⟨fun m₁' hok => ?_, fun budget => ?_⟩⟩
  · rw [unwatched_step, unwatched_step, hcore, hstuck]
  · obtain ⟨m₂', hok₂, habreast⟩ := htwins.abreast.step hok
    exact ⟨m₂', hok₂, habreast.twins, habreast.shownAlike⟩
  · exact htwins.abreast.runFrom budget 0

/-- Zeroed memory with a limit of three instructions and with nothing that records. -/
def bare : Machine where
  core := ⟨.powerOn, .flat ⟨Vector.replicate flatSize 0⟩⟩
  config := { limit := some 3 }
  history := .ofCapacity 0

/-- The same program under a trace, a code/data log and a journal. -/
def recorded : Machine where
  core := bare.core
  config := { limit := some 3, trace := true, historyLength := 5, codeDataLog := true }
  history := .ofCapacity 5
  journal := { level := some .trace }

theorem step_and_run_bare_recorded :
    unwatched (step bare) = unwatched (step recorded) ∧
    (∀ m₁', step bare = .ok () m₁' →
      ∃ m₂', step recorded = .ok () m₂' ∧ Twins m₁' m₂' ∧
        ShownAlike bare.hits recorded.hits m₁' m₂') ∧
    ∀ budget, EndAlike bare.hits recorded.hits (run budget bare) (run budget recorded) := by
  have htwins : Twins bare recorded := rfl
  obtain ⟨hstep, hrun⟩ := step_and_run_of_core_eq bare recorded rfl rfl
  exact ⟨hstep, hrun htwins⟩

end Machine

end Mos6502
