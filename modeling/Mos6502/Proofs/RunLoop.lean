import Mos6502.Machine.Run
import Mos6502.Proofs.Unwatched

/-!
# Where a run ends

`StopsAt` lists the stop conditions, each with the conditions that are tested before it and do not
hold. A `Course` is a number of steps that all succeed and pass no boundary at which a condition
holds. `run_ends` says that a run is a course followed by the first condition that holds, by the
step that fails, or by the end of the budget.
-/

namespace Mos6502.Machine

/-! ## Stop conditions -/

/-- The routine has executed more returns than calls. -/
def HasReturned (m : Machine) : Prop := ∃ depth, m.depth = some depth ∧ depth < 0

def AtLimit (m : Machine) (executed : Nat) : Prop :=
  ∃ limit, m.config.limit = some limit ∧ limit ≤ executed

/-- The stop condition that decides at the boundary behind `executed` steps, and what it leads to:
the error of a fault, or an outcome. -/
inductive StopsAt (m : Machine) (executed : Nat) : Except ExecutionError Outcome → Prop where
  | returned (hreturned : m.HasReturned) : StopsAt m executed (.ok .returned)
  | halted (hinside : ¬ m.HasReturned) (hhalted : m.halted = true) :
      StopsAt m executed (.ok .halted)
  | limitReached (hinside : ¬ m.HasReturned) (hgoing : m.halted = false)
      (hlimit : m.AtLimit executed) (hmode : m.config.limitIsError = false) :
      StopsAt m executed (.ok .limitReached)
  | limitFault (hinside : ¬ m.HasReturned) (hgoing : m.halted = false)
      (hlimit : m.AtLimit executed) (hmode : m.config.limitIsError = true) :
      StopsAt m executed (.error (.instructionLimit executed))
  | stopped (hinside : ¬ m.HasReturned) (hgoing : m.halted = false)
      (hbelow : ¬ m.AtLimit executed) {opcode : UInt8} (hopcode : m.config.stopOpcode = some opcode)
      (hnext : m.core.peekByte m.registers.pc = .ok opcode) : StopsAt m executed (.ok .stopped)
  | unreadable (hinside : ¬ m.HasReturned) (hgoing : m.halted = false)
      (hbelow : ¬ m.AtLimit executed) {opcode : UInt8} (hopcode : m.config.stopOpcode = some opcode)
      {e : BoardError} (hnext : m.core.peekByte m.registers.pc = .error e) :
      StopsAt m executed (.error (.board e))

/-- No stop condition holds at the boundary behind `executed` steps. -/
def Proceeds (m : Machine) (executed : Nat) : Prop := ∀ result, ¬ StopsAt m executed result

theorem any_depth_iff (m : Machine) : m.depth.any (· < 0) = true ↔ m.HasReturned := by
  simp [HasReturned, Option.any_eq_true]

theorem any_limit_iff (m : Machine) (executed : Nat) :
    m.config.limit.any (· ≤ executed) = true ↔ m.AtLimit executed := by
  simp [AtLimit, Option.any_eq_true]

/-- A run proceeds where all conditions fail to hold. -/
theorem proceeds_of {m : Machine} {executed : Nat} (hinside : ¬ m.HasReturned)
    (hgoing : m.halted = false) (hbelow : ¬ m.AtLimit executed)
    (hother : ∀ opcode, m.config.stopOpcode = some opcode →
      ∃ v, m.core.peekByte m.registers.pc = .ok v ∧ v ≠ opcode) : m.Proceeds executed := by
  intro result hstop
  cases hstop with
  | returned hreturned => exact hinside hreturned
  | halted _ hhalted => exact Bool.false_ne_true (hgoing.symm.trans hhalted)
  | limitReached _ _ hlimit => exact hbelow hlimit
  | limitFault _ _ hlimit => exact hbelow hlimit
  | stopped _ _ _ hopcode hnext =>
    obtain ⟨v, hv, hne⟩ := hother _ hopcode
    exact hne (Except.ok.inj (hv.symm.trans hnext))
  | unreadable _ _ _ hopcode hnext =>
    obtain ⟨v, hv, -⟩ := hother _ hopcode
    cases hv.symm.trans hnext

/-- The test at a boundary finds the condition that decides there. -/
theorem boundary_spec (m : Machine) (executed : Nat) :
    match m.boundary executed with
    | .proceed => m.Proceeds executed
    | .stop outcome => StopsAt m executed (.ok outcome)
    | .fail error => StopsAt m executed (.error error) := by
  unfold boundary
  by_cases hreturned : m.HasReturned
  · rw [if_pos ((any_depth_iff m).mpr hreturned)]
    exact .returned hreturned
  rw [if_neg (mt (any_depth_iff m).mp hreturned)]
  cases hhalted : m.halted with
  | true => exact .halted hreturned hhalted
  | false =>
    rw [if_neg Bool.false_ne_true]
    by_cases hlimit : m.AtLimit executed
    · rw [if_pos ((any_limit_iff m executed).mpr hlimit)]
      cases hmode : m.config.limitIsError with
      | true => exact .limitFault hreturned hhalted hlimit hmode
      | false => exact .limitReached hreturned hhalted hlimit hmode
    rw [if_neg (mt (any_limit_iff m executed).mp hlimit)]
    cases hopcode : m.config.stopOpcode with
    | none =>
      refine proceeds_of hreturned hhalted hlimit fun opcode hsome => ?_
      rw [hopcode] at hsome
      cases hsome
    | some opcode =>
      cases hnext : m.core.peekByte m.registers.pc with
      | error e => exact .unreadable hreturned hhalted hlimit hopcode hnext
      | ok v =>
        dsimp only
        by_cases hv : v = opcode
        · rw [if_pos hv]
          exact .stopped hreturned hhalted hlimit hopcode (hv ▸ hnext)
        · -- The last test has failed as well.
          rw [if_neg hv]
          refine proceeds_of hreturned hhalted hlimit fun opcode' hsome => ⟨v, hnext, ?_⟩
          rw [hopcode] at hsome
          cases hsome
          exact hv

theorem Proceeds.not_halted {m : Machine} {executed : Nat} (h : m.Proceeds executed) :
    m.halted = false := by
  by_cases hreturned : m.HasReturned
  · exact absurd (.returned hreturned) (h _)
  · exact Bool.eq_false_iff.mpr fun hhalted => h _ (.halted hreturned hhalted)

theorem Proceeds.not_atLimit {m : Machine} {executed : Nat} (h : m.Proceeds executed) :
    ¬ m.AtLimit executed := by
  intro hlimit
  by_cases hreturned : m.HasReturned
  · exact h _ (.returned hreturned)
  · cases hmode : m.config.limitIsError with
    | true => exact h _ (.limitFault hreturned h.not_halted hlimit hmode)
    | false => exact h _ (.limitReached hreturned h.not_halted hlimit hmode)

/-- A stop condition other than the return of the routine. -/
def StopsOtherwise (m : Machine) (executed : Nat) : Prop :=
  m.halted = true ∨ m.AtLimit executed ∨ ∃ opcode, m.config.stopOpcode = some opcode ∧
    ∀ v, m.core.peekByte m.registers.pc = .ok v → v = opcode

/-- Two kinds of condition can stop a run: a return, and any of the others. -/
theorem proceeds_iff {m : Machine} {executed : Nat} :
    m.Proceeds executed ↔ ¬ m.HasReturned ∧ ¬ m.StopsOtherwise executed := by
  constructor
  · intro h
    have hinside : ¬ m.HasReturned := fun hreturned => h _ (.returned hreturned)
    refine ⟨hinside, ?_⟩
    rintro (hhalted | hlimit | ⟨opcode, hopcode, hnext⟩)
    · exact h _ (.halted hinside hhalted)
    · exact h.not_atLimit hlimit
    · cases hpeek : m.core.peekByte m.registers.pc with
      | ok v =>
        cases hnext v hpeek
        exact h _ (.stopped hinside h.not_halted h.not_atLimit hopcode hpeek)
      | error e => exact h _ (.unreadable hinside h.not_halted h.not_atLimit hopcode hpeek)
  · rintro ⟨hinside, hnone⟩
    simp only [StopsOtherwise, not_or, not_exists, not_and, not_forall] at hnone
    obtain ⟨hgoing, hbelow, hother⟩ := hnone
    refine proceeds_of hinside (Bool.eq_false_iff.mpr hgoing) hbelow fun opcode hopcode => ?_
    obtain ⟨v, hv, hne⟩ := hother opcode hopcode
    exact ⟨v, hv, hne⟩

/-! ## Courses -/

def steps : Nat → EStateM ExecutionError Machine Unit
  | 0 => pure ()
  | k + 1 => do
    steps k
    step

theorem steps_of_le {m mk : Machine} {j k : Nat} (hle : j ≤ k) (h : steps k m = .ok () mk) :
    ∃ mj, steps j m = .ok () mj := by
  induction k generalizing mk with
  | zero =>
    cases Nat.le_zero.mp hle
    exact ⟨mk, h⟩
  | succ k ih =>
    rcases Nat.le_succ_iff.mp hle with hlt | rfl
    · obtain ⟨u, ml, hsteps, -⟩ := bind_eq_ok.mp h
      exact ih hlt hsteps
    · exact ⟨mk, h⟩

/-- Any number of steps keeps what each update of a step keeps. -/
theorem EachUpdate.leaves_steps {R : Machine → Machine → Prop} [IsPreorder Machine R]
    (h : EachUpdate R) (k : Nat) : Leaves R (steps k) := by
  induction k with
  | zero => exact .pure ()
  | succ k ih => exact .bind ih fun _ => h.leaves_step

/-- The first `k` steps succeed and lead to `mk`, and no stop condition holds in front of any of
them. -/
structure Course (m : Machine) (k : Nat) (mk : Machine) : Prop where
  steps_eq : steps k m = .ok () mk
  proceeds : ∀ j < k, ∃ mj, steps j m = .ok () mj ∧ mj.Proceeds j

theorem Course.start (m : Machine) : Course m 0 m :=
  ⟨rfl, fun j hj => absurd hj (Nat.not_lt_zero j)⟩

/-- A course goes on by a step if no stop condition holds in front of it. -/
theorem Course.extend {m mk mk' : Machine} {k : Nat} (h : Course m k mk) (hproceed : mk.Proceeds k)
    (hstep : step mk = .ok () mk') : Course m (k + 1) mk' where
  steps_eq := (bind_of_ok h.steps_eq).trans hstep
  proceeds := by
    intro j hj
    rcases Nat.lt_succ_iff_lt_or_eq.mp hj with hlt | rfl
    · exact h.proceeds j hlt
    · exact ⟨mk, h.steps_eq, hproceed⟩

/-- Every step counts one tick and keeps the configuration. -/
theorem ticks_and_config_of_steps {m : Machine} (k : Nat) {mk : Machine}
    (h : steps k m = .ok () mk) : mk.ticks = m.ticks + k ∧ mk.config = m.config := by
  induction k generalizing mk with
  | zero =>
    cases h
    exact ⟨rfl, rfl⟩
  | succ k ih =>
    obtain ⟨u, mj, hsteps, hstep⟩ := bind_eq_ok.mp h
    obtain ⟨hticks, hconfig⟩ := ih hsteps
    rw [ticks_of_step_ok hstep, hticks, config_of_step_ok hstep, hconfig]
    exact ⟨rfl, rfl⟩

/-- Each step of a course is a tick. -/
theorem Course.ticks {m mk : Machine} {k : Nat} (h : Course m k mk) : mk.ticks = m.ticks + k :=
  (ticks_and_config_of_steps k h.steps_eq).1

theorem Course.config {m mk : Machine} {k : Nat} (h : Course m k mk) : mk.config = m.config :=
  (ticks_and_config_of_steps k h.steps_eq).2

/-- A course ends at the limit at the latest. -/
theorem Course.le_limit {m mk : Machine} {k limit : Nat} (h : Course m k mk)
    (hlimit : m.config.limit = some limit) : k ≤ limit := by
  by_contra hbeyond
  obtain ⟨mj, hsteps, hproceeds⟩ := h.proceeds limit (Nat.lt_of_not_le hbeyond)
  refine hproceeds.not_atLimit ⟨limit, ?_, Nat.le_refl limit⟩
  rw [(ticks_and_config_of_steps limit hsteps).2, hlimit]

/-! ## Ends of runs -/

/-- A run from `m` to `m'` that stopped: `k` steps led to `mk`, where the first stop condition
holds. -/
structure StoppedBehind (m : Machine) (outcome : Outcome) (m' : Machine) (k : Nat) (mk : Machine) :
    Prop where
  course : Course m k mk
  condition : StopsAt mk k (.ok outcome)
  final : m' = { mk with
    halted := mk.halted && outcome ≠ .halted
    depth := if outcome = .returned then none else mk.depth
    journal := m'.journal }
  hits : m'.hits = mk.hits
  ticks : m'.ticks = m.ticks + k
  awake : ∀ j < k, ∀ mj, steps j m = .ok () mj → mj.halted = false
  halted : outcome ≠ .halted → m'.halted = mk.halted
  limit : ∀ limit, m.config.limit = some limit → k ≤ limit

/-- A run from `m` to `m'` that failed between two instructions: `k` steps led to `mk`, where the
first stop condition that holds is a fault. -/
structure FaultedBehind (m : Machine) (fault : Fault) (m' : Machine) (k : Nat) (mk : Machine) :
    Prop where
  course : Course m k mk
  condition : StopsAt mk k (.error fault.error)
  final : m' = { mk with journal := m'.journal }
  hits : m'.hits = mk.hits
  lines : fault.trace = mk.history.lines
  ticks : m'.ticks = m.ticks + k
  awake : ∀ j < k, ∀ mj, steps j m = .ok () mj → mj.halted = false
  limit : ∀ limit, m.config.limit = some limit → k ≤ limit

/-- A run from `m` to `m'` that failed in an instruction: `k` steps led to `mk`, where no stop
condition holds, and the next step fails in `mf`. -/
structure FailedBehind (m : Machine) (fault : Fault) (m' : Machine) (k : Nat) (mk mf : Machine) :
    Prop where
  course : Course m k mk
  proceeds : mk.Proceeds k
  step_eq : step mk = .error fault.error mf
  final : m' = { mf with journal := m'.journal }
  hits : m'.hits = mf.hits
  lines : fault.trace = mf.history.lines
  ticks : m'.ticks = m.ticks + k + ticksOfFailure fault.error
  awake : ∀ j ≤ k, ∀ mj, steps j m = .ok () mj → mj.halted = false
  limit : ∀ limit, m.config.limit = some limit → k < limit

/-- How a run from `m` ends that may make `budget` steps. If it uses them up, no stop condition has
held at any boundary, the last one included. -/
def RunEnds (m : Machine) (budget : Nat) : EStateM.Result Fault Machine (Option Outcome) → Prop
  | .ok none m' => Course m budget m' ∧ m'.Proceeds budget ∧ m'.ticks = m.ticks + budget ∧
      ∀ limit, m.config.limit = some limit → budget < limit
  | .ok (some outcome) m' => ∃ k mk, k ≤ budget ∧ StoppedBehind m outcome m' k mk
  | .error fault m' => ∃ k mk,
      k ≤ budget ∧ FaultedBehind m fault m' k mk ∨
      k < budget ∧ ∃ mf, FailedBehind m fault m' k mk mf

/-- No halt is due in front of any step of a course. -/
theorem Course.awake {m mk : Machine} {k : Nat} (h : Course m k mk) :
    ∀ j < k, ∀ mj, steps j m = .ok () mj → mj.halted = false := by
  intro j hj mj hsteps
  obtain ⟨mj', hsteps', hproceeds⟩ := h.proceeds j hj
  cases hsteps.symm.trans hsteps'
  exact hproceeds.not_halted

/-- Where no condition holds, the limit has not been reached. -/
theorem Course.lt_limit {m mk : Machine} {k limit : Nat} (h : Course m k mk)
    (hproceeds : mk.Proceeds k) (hlimit : m.config.limit = some limit) : k < limit := by
  by_contra hbeyond
  refine hproceeds.not_atLimit ⟨limit, ?_, Nat.le_of_not_lt hbeyond⟩
  rw [h.config, hlimit]

theorem foldl_note (level : Level) (texts : List String) (m : Machine) :
    ∃ journal, texts.foldl (fun m text => m.note level fun _ => text) m =
      { m with journal := journal } ∧ journal.hits = m.journal.hits := by
  induction texts generalizing m with
  | nil => exact ⟨m.journal, rfl, rfl⟩
  | cons text rest ih =>
    obtain ⟨journal, hfold, hhits⟩ := ih (m.note level fun _ => text)
    exact ⟨journal, hfold, hhits.trans (hits_note m level fun _ => text)⟩

/-- A failure is reported in the journal and nowhere else. -/
theorem fault_apply {α : Type} (error : ExecutionError) (m : Machine) :
    ∃ journal, fault error m = (.error ⟨error, m.history.lines⟩ { m with journal := journal } :
      EStateM.Result Fault Machine α) ∧ journal.hits = m.journal.hits := by
  obtain ⟨journal, hfold, hhits⟩ := foldl_note .error
    (error.message :: m.history.lines.map ("  " ++ ·) ++ ["  " ++ m.registers.line]) m
  exact ⟨journal, congrArg (EStateM.Result.error _) hfold, hhits⟩

/-- A course that ends at a stop condition is a run that stopped. -/
theorem Course.stop {m mk : Machine} {k : Nat} (h : Course m k mk) {outcome : Outcome}
    (hstop : StopsAt mk k (.ok outcome)) (text : Unit → String) :
    StoppedBehind m outcome ((mk.settle outcome).note .info text) k mk where
  course := h
  condition := hstop
  final := by
    cases outcome <;> simp [settle, note, clearHalt]
  hits := by
    rw [hits_note]
    cases outcome <;> rfl
  ticks := by
    rw [← h.ticks]
    cases outcome <;> rfl
  awake := h.awake
  halted := by
    cases outcome <;> simp [settle, note]
  limit := fun _ => h.le_limit

/-- A course that ends at a failing boundary is a run with a fault. -/
theorem Course.fail {m mk : Machine} {k : Nat} (h : Course m k mk) {error : ExecutionError}
    (hstop : StopsAt mk k (.error error)) {journal : Journal}
    (hhits : journal.hits = mk.journal.hits) :
    FaultedBehind m ⟨error, mk.history.lines⟩ { mk with journal := journal } k mk where
  course := h
  condition := hstop
  final := rfl
  hits := hhits
  lines := rfl
  ticks := h.ticks
  awake := h.awake
  limit := fun _ => h.le_limit

/-- A course that ends in front of a failing step is a run with a fault. -/
theorem Course.failStep {m mk mf : Machine} {k : Nat} (h : Course m k mk)
    (hproceeds : mk.Proceeds k) {error : ExecutionError} (hstep : step mk = .error error mf)
    {journal : Journal} (hhits : journal.hits = mf.journal.hits) :
    FailedBehind m ⟨error, mf.history.lines⟩ { mf with journal := journal } k mk mf where
  course := h
  proceeds := hproceeds
  step_eq := hstep
  final := rfl
  hits := hhits
  lines := rfl
  ticks := by
    rw [← h.ticks, ← ticks_of_step_error hstep]
  awake := by
    intro j hj mj hsteps
    rcases Nat.lt_or_eq_of_le hj with hlt | rfl
    · exact h.awake j hlt mj hsteps
    · cases hsteps.symm.trans h.steps_eq
      exact hproceeds.not_halted
  limit := fun _ => h.lt_limit hproceeds

/-! ## The loop -/

theorem runFrom_of_stop {m : Machine} {executed : Nat} {outcome : Outcome}
    (h : m.boundary executed = .stop outcome) (budget : Nat) :
    ∃ text,
      runFrom budget executed m = .ok (some outcome) ((m.settle outcome).note .info text) := by
  rw [runFrom]
  simp only [h]
  exact ⟨_, rfl⟩

theorem runFrom_of_fail {m : Machine} {executed : Nat} {error : ExecutionError}
    (h : m.boundary executed = .fail error) (budget : Nat) :
    runFrom budget executed m = fault error m := by
  rw [runFrom]
  simp only [h]

theorem runFrom_zero_of_proceed {m : Machine} {executed : Nat}
    (h : m.boundary executed = .proceed) : runFrom 0 executed m = .ok none m := by
  rw [runFrom]
  simp only [h]

theorem runFrom_succ_of_ok {m m' : Machine} {executed : Nat} (h : m.boundary executed = .proceed)
    (hstep : step m = .ok () m') (budget : Nat) :
    runFrom (budget + 1) executed m = runFrom budget (executed + 1) m' := by
  rw [runFrom]
  simp only [h, hstep]

theorem runFrom_succ_of_error {m m' : Machine} {executed : Nat} {error : ExecutionError}
    (h : m.boundary executed = .proceed) (hstep : step m = .error error m') (budget : Nat) :
    runFrom (budget + 1) executed m = fault error m' := by
  rw [runFrom]
  simp only [h, hstep]

/-- A run ends at a boundary at which a condition holds, whatever is left of the budget. -/
theorem Course.runEnds_of_stopsAt {m mk : Machine} {k : Nat} (h : Course m k mk) (budget : Nat)
    {result : Except ExecutionError Outcome} (hstop : StopsAt mk k result) :
    RunEnds m (k + budget) (runFrom budget k mk) := by
  have hboundary := boundary_spec mk k
  cases hb : mk.boundary k with
  | stop outcome =>
    rw [hb] at hboundary
    obtain ⟨text, hrun⟩ := runFrom_of_stop hb budget
    rw [hrun]
    exact ⟨k, mk, Nat.le_add_right k budget, h.stop hboundary text⟩
  | fail error =>
    rw [hb] at hboundary
    obtain ⟨journal, hfault, hhits⟩ := fault_apply (α := Option Outcome) error mk
    rw [runFrom_of_fail hb, hfault]
    exact ⟨k, mk, .inl ⟨Nat.le_add_right k budget, h.fail hboundary hhits⟩⟩
  | proceed =>
    rw [hb] at hboundary
    exact absurd hstop (hboundary result)

/-- A run that is under way goes on to its end. The induction is on what is left of the budget;
the course so far is the invariant. -/
theorem Course.runEnds {m mk : Machine} {k : Nat} (h : Course m k mk) (budget : Nat) :
    RunEnds m (k + budget) (runFrom budget k mk) := by
  induction budget generalizing k mk with
  | zero =>
    have hboundary := boundary_spec mk k
    cases hb : mk.boundary k with
    | stop outcome => rw [hb] at hboundary; exact h.runEnds_of_stopsAt 0 hboundary
    | fail error => rw [hb] at hboundary; exact h.runEnds_of_stopsAt 0 hboundary
    | proceed =>
      rw [hb] at hboundary
      rw [runFrom_zero_of_proceed hb]
      exact ⟨h, hboundary, h.ticks, fun _ => h.lt_limit hboundary⟩
  | succ budget ih =>
    have hboundary := boundary_spec mk k
    cases hb : mk.boundary k with
    | stop outcome => rw [hb] at hboundary; exact h.runEnds_of_stopsAt _ hboundary
    | fail error => rw [hb] at hboundary; exact h.runEnds_of_stopsAt _ hboundary
    | proceed =>
      rw [hb] at hboundary
      cases hstep : step mk with
      | ok u mk' =>
        have hrest := ih (h.extend hboundary hstep)
        rw [Nat.succ_add_eq_add_succ] at hrest
        rwa [runFrom_succ_of_ok hb hstep]
      | error error mf =>
        obtain ⟨journal, hfault, hhits⟩ := fault_apply (α := Option Outcome) error mf
        rw [runFrom_succ_of_error hb hstep, hfault]
        exact ⟨k, mk, .inr ⟨Nat.lt_add_of_pos_right (Nat.succ_pos budget), mf,
          h.failStep hboundary hstep hhits⟩⟩

/-! ## Runs along a course -/

theorem boundary_of_proceeds {m : Machine} {executed : Nat} (h : m.Proceeds executed) :
    m.boundary executed = .proceed := by
  have hboundary := boundary_spec m executed
  cases hb : m.boundary executed with
  | proceed => rfl
  | stop outcome => rw [hb] at hboundary; exact absurd hboundary (h _)
  | fail error => rw [hb] at hboundary; exact absurd hboundary (h _)

theorem Course.init {m mk : Machine} {k : Nat} (h : Course m (k + 1) mk) :
    ∃ mj, Course m k mj ∧ mj.Proceeds k ∧ step mj = .ok () mk := by
  obtain ⟨u, mj, hsteps, hstep⟩ := bind_eq_ok.mp h.steps_eq
  obtain ⟨mj', hsteps', hproceeds⟩ := h.proceeds k (Nat.lt_succ_self k)
  cases hsteps.symm.trans hsteps'
  exact ⟨mj, ⟨hsteps, fun j hj => h.proceeds j (Nat.lt_succ_of_lt hj)⟩, hproceeds, hstep⟩

/-- A run that has made the steps of a course has what they leave of its budget. -/
theorem Course.runFrom_eq {m mk : Machine} {k : Nat} (h : Course m k mk) (budget : Nat) :
    run (k + budget) m = runFrom budget k mk := by
  induction k generalizing mk budget with
  | zero =>
    cases h.steps_eq
    rw [Nat.zero_add, run]
  | succ k ih =>
    obtain ⟨mj, hcourse, hproceeds, hstep⟩ := h.init
    rw [Nat.succ_add_eq_add_succ, ih hcourse,
      runFrom_succ_of_ok (boundary_of_proceeds hproceeds) hstep]

/-- A run that stops does so behind some of its steps, no more than the budget. -/
theorem stoppedBehind_of_run {m m' : Machine} {outcome : Outcome} {budget : Nat}
    (h : run budget m = .ok (some outcome) m') :
    ∃ k mk, k ≤ budget ∧ StoppedBehind m outcome m' k mk := by
  have hends := (Course.start m).runEnds budget
  rw [Nat.zero_add, ← run, h] at hends
  exact hends

/-- Every run, whatever its budget, is a course of successful steps up to the first boundary at
which a stop condition holds or up to the first step that fails. -/
theorem run_ends (m : Machine) (budget : Nat) : RunEnds m budget (run budget m) := by
  have hends := (Course.start m).runEnds budget
  rwa [Nat.zero_add] at hends

end Mos6502.Machine
