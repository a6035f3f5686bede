import Mos6502.Proofs.Marking
import Mos6502.Proofs.RunLoop
import Mos6502.Proofs.Traffic

/-!
# Operations and their episodes

What the surroundings can do with a machine, one operation after another: step, run, call a routine,
interrupt, access the bus, look. On the bus an operation is a list of episodes: an instruction that
is executed, or accesses outside of instructions. The transfers of an episode are those that its
microcode makes on the bare processor and board; an observer has a part in them only where it fails
and keeps an instruction from being performed. `step_progress` says how far a step comes, and
`runFrom_induct` is the induction on a run.
-/

namespace Mos6502

/-- What happens on the bus while one instruction is executed, or outside of instructions. -/
structure Episode where
  /-- The bytes of the instruction, if there is one. -/
  during : Option Span
  /-- The board in front of the first transfer. -/
  board : Board
  transfers : List Transfer

/-- The opcode that is fetched, with its address. -/
def Episode.opcode? (e : Episode) : Option (UInt16 × UInt8) :=
  e.during.bind fun span =>
    match e.board.read span.start with
    | .ok v => some (span.start, v)
    | .error _ => none

/-- The episodes lead from one board to another, each from where the one before it ends. -/
inductive Unfolds : Board → List Episode → Board → Prop where
  | done (b : Board) : Unfolds b [] b
  | next {e : Episode} {es : List Episode} {b b' : Board}
      (htraffic : Traffic e.board e.transfers b)
      (hopcodes : opcodes e.transfers = e.opcode?.toList) (rest : Unfolds b es b') :
      Unfolds e.board (e :: es) b'

namespace Unfolds

variable {b b' b'' : Board} {es fs : List Episode}

theorem append (h : Unfolds b es b') (k : Unfolds b' fs b'') : Unfolds b (es ++ fs) b'' := by
  induction h with
  | done => exact k
  | next htraffic hopcodes _ ih => exact .next htraffic hopcodes (ih k)

theorem traffic (h : Unfolds b es b') : Traffic b (es.flatMap (·.transfers)) b' := by
  induction h with
  | done b => exact .done b
  | next htraffic _ _ ih => exact htraffic.append ih

theorem opcodes_eq (h : Unfolds b es b') :
    opcodes (es.flatMap (·.transfers)) = es.filterMap Episode.opcode? := by
  induction h with
  | done => rfl
  | @next e _ _ _ _ hopcodes _ ih =>
    rw [List.flatMap_cons, opcodes, List.filterMap_append, ← opcodes, ← opcodes, hopcodes, ih]
    rw [List.filterMap_cons]
    cases e.opcode? <;> rfl

/-- Each episode begins on the board that the transfers of the earlier ones have left. -/
theorem board_eq (h : Unfolds b es b') {before after : List Episode} {e : Episode}
    (hes : es = before ++ e :: after) : e.board = b.replay (before.flatMap (·.transfers)) := by
  induction h generalizing before with
  | done => simp at hes
  | next htraffic _ _ ih =>
    cases before with
    | nil => cases hes; rfl
    | cons first before =>
      cases hes
      rw [List.flatMap_cons, Board.replay, List.foldl_append, ← Board.replay, ← Board.replay,
        ← htraffic.eq_replay]
      exact ih rfl

end Unfolds

namespace Machine

variable {α : Type}

/-- Nothing differs but counters, the halt flag and written records. -/
structure Idle (m m' : Machine) : Prop where
  core : m'.core = m.core
  config : m'.config = m.config
  breakpoints : m'.breakpoints = m.breakpoints
  log : m'.log = m.log
  hits : m'.hits = m.hits

theorem Idle.refl (m : Machine) : Idle m m := ⟨rfl, rfl, rfl, rfl, rfl⟩

instance : IsPreorder Machine Idle where
  refl := Idle.refl
  trans _ _ _ h k := ⟨k.core.trans h.core, k.config.trans h.config,
    k.breakpoints.trans h.breakpoints, k.log.trans h.log, k.hits.trans h.hits⟩

theorem idle_note (m : Machine) (level : Level) (text : Unit → String) :
    Idle m (m.note level text) :=
  ⟨rfl, rfl, rfl, rfl, hits_note m level text⟩

/-- A machine that stops has transferred nothing by that. -/
theorem idle_settle (m : Machine) (outcome : Outcome) : Idle m (m.settle outcome) := by
  cases outcome <;> exact ⟨rfl, rfl, rfl, rfl, rfl⟩

theorem idle_fault (error : ExecutionError) (m : Machine) :
    Idle m (finalState (fault error m : EStateM.Result Fault Machine α)) := by
  obtain ⟨journal, hfault, hhits⟩ := fault_apply (α := α) error m
  rw [hfault]
  exact ⟨rfl, rfl, rfl, rfl, hhits⟩

/-! ## Steps -/

/-- A fetch is a read at the program counter that the execution follows. -/
theorem fetch_of_read {m : Machine} {opcode : UInt8}
    (h : m.core.board.read m.registers.pc = .ok opcode) :
    fetch m = .ok opcode (((m.markRead (some ⟨m.registers.pc, 1⟩) m.registers.pc).fire .read
      m.registers.pc opcode).fire .execute m.registers.pc opcode) := by
  have hperform : perform (some ⟨m.registers.pc, 1⟩) (Microcode.readByte m.registers.pc) m =
      .ok opcode ((m.markRead (some ⟨m.registers.pc, 1⟩) m.registers.pc).fire .read
        m.registers.pc opcode) := by
    simp only [Microcode.readByte, perform, h]
  rw [fetch, get_bind_apply, bind_of_ok hperform]
  rfl

/-- A fetch that fails changes nothing. -/
theorem fetch_eq_error {m m' : Machine} {e : ExecutionError} (h : fetch m = .error e m') :
    m' = m ∧ ∀ opcode, m.core.board.read m.registers.pc ≠ .ok opcode := by
  have hspec := fetch_spec m
  cases hread : m.core.board.read m.registers.pc with
  | error e' =>
    rw [hread] at hspec
    cases h.symm.trans hspec
    exact ⟨rfl, nofun⟩
  | ok opcode => cases h.symm.trans (fetch_of_read hread)

/-- Show a fetched instruction to the observers that render and log it. -/
def announce (i : Instruction) : EStateM ExecutionError Machine Unit := do
  trace i
  logCode i

theorem leaves_announce (i : Instruction) : Leaves OnlyLogs (announce i) :=
  .bind (leaves_trace i) fun _ => leaves_logCode i

/-- The episode of a step, as far as the step comes: the fetch, and the accesses of the instruction
unless an observer fails in front of them. -/
def stepEpisode (m : Machine) : Episode :=
  let pc := m.registers.pc
  match fetch m with
  | .error _ _ => ⟨some ⟨pc, 1⟩, m.board, []⟩
  | .ok opcode m₁ =>
    let fetched := [.read pc opcode, .execute pc opcode]
    match Instruction.decode opcode with
    | none => ⟨some ⟨pc, 1⟩, m.board, fetched⟩
    | some i =>
      match announce i m₁ with
      | .error _ _ => ⟨some ⟨pc, i.size⟩, m.board, fetched⟩
      | .ok _ _ => ⟨some ⟨pc, i.size⟩, m.board, fetched ++ i.microcode.transfers m.core⟩

/-- How far a step of `m` comes: its episode, whether the instruction is performed, and the machine
behind that. -/
inductive Progress (m : Machine) : Episode → Bool → Machine → Prop where
  | unreadable {e : ExecutionError} (hfetch : fetch m = .error e m) :
      Progress m ⟨some ⟨m.registers.pc, 1⟩, m.board, []⟩ false m
  | undecoded {opcode : UInt8} {m₁ : Machine} (hfetch : fetch m = .ok opcode m₁)
      (hdecode : Instruction.decode opcode = none) :
      Progress m ⟨some ⟨m.registers.pc, 1⟩, m.board,
        [.read m.registers.pc opcode, .execute m.registers.pc opcode]⟩ false m₁
  | unannounced {opcode : UInt8} {i : Instruction} {m₁ m₂ : Machine} {e : ExecutionError}
      (hfetch : fetch m = .ok opcode m₁) (hdecode : Instruction.decode opcode = some i)
      (hannounce : announce i m₁ = .error e m₂) :
      Progress m ⟨some ⟨m.registers.pc, i.size⟩, m.board,
        [.read m.registers.pc opcode, .execute m.registers.pc opcode]⟩ false m₂
  | performed {opcode : UInt8} {i : Instruction} {m₁ m₂ : Machine}
      (hfetch : fetch m = .ok opcode m₁) (hdecode : Instruction.decode opcode = some i)
      (hannounce : announce i m₁ = .ok () m₂) :
      Progress m ⟨some ⟨m.registers.pc, i.size⟩, m.board,
        [.read m.registers.pc opcode, .execute m.registers.pc opcode] ++
          i.microcode.transfers m.core⟩ true
        (finalState (perform (some ⟨m.registers.pc, i.size⟩) i.microcode m₂))

/-- A cycle makes progress through the episode of its step, and to the end if it succeeds. -/
theorem cycle_progress (m : Machine) :
    ∃ reached m', Progress m m.stepEpisode reached m' ∧ Idle m' (finalState (cycle m)) ∧
      ∀ k, cycle m = .ok () k → reached = true := by
  unfold stepEpisode
  cases hfetch : fetch m with
  | error e m₁ =>
    cases (fetch_eq_error hfetch).1
    have hcycle : cycle m = .error e m := bind_of_error hfetch
    rw [hcycle]
    refine ⟨false, m, .unreadable hfetch, refl m, fun k hk => ?_⟩
    cases hk
  | ok opcode m₁ =>
    have hcore := (fetch_eq_ok hfetch).2
    dsimp only
    cases hdecode : Instruction.decode opcode with
    | none =>
      have hcycle : cycle m = .error (.unimplementedOpcode m₁.registers.pc opcode) m₁ := by
        rw [cycle, bind_of_ok hfetch, bind_of_error (decode_of_none hdecode m₁)]
      rw [hcycle]
      refine ⟨false, m₁, .undecoded hfetch hdecode, refl m₁, fun k hk => ?_⟩
      cases hk
    | some i =>
      have hcycle : cycle m = (announce i >>= fun _ => do
          let pc := (← get).registers.pc
          perform (some ⟨pc, i.size⟩) i.microcode
          modify (·.nest i)) m₁ := by
        rw [cycle, bind_of_ok hfetch, bind_of_ok (decode_of_some hdecode m₁), announce, bind_assoc]
      dsimp only
      -- What the observers do is no part of the episode, but where they fail the step ends.
      cases hannounce : announce i m₁ with
      | error e m₂ =>
        rw [hcycle, bind_of_error hannounce]
        refine ⟨false, m₂, .unannounced hfetch hdecode hannounce, refl m₂, fun k hk => ?_⟩
        cases hk
      | ok u m₂ =>
        have hpc : m₂.registers.pc = m.registers.pc := by
          rw [registers, registers, ((leaves_announce i).of_ok hannounce).core, hcore]
        rw [hcycle, bind_of_ok hannounce, get_bind_apply, hpc]
        refine ⟨true, _, .performed hfetch hdecode hannounce, ?_, fun _ _ => rfl⟩
        cases hperform : perform (some ⟨m.registers.pc, i.size⟩) i.microcode m₂ with
        | error e m₃ => rw [bind_of_error hperform]; exact refl m₃
        | ok u m₃ => rw [bind_of_ok hperform]; exact ⟨rfl, rfl, rfl, rfl, rfl⟩

/-- A step comes as far as its episode says, and a step that succeeds performs its instruction. -/
theorem step_progress (m : Machine) :
    ∃ reached m', Progress m m.stepEpisode reached m' ∧ Idle m' (finalState (step m)) ∧
      ∀ k, step m = .ok () k → reached = true := by
  obtain ⟨reached, m', hprogress, hidle, hreached⟩ := cycle_progress m
  refine ⟨reached, m', hprogress, ?_, fun k hk => ?_⟩
  · rw [step_apply]
    cases hcycle : cycle m with
    | error e m₁ => rwa [hcycle] at hidle
    | ok u m₁ =>
      rw [hcycle] at hidle
      have htick : Idle m₁ { m₁ with ticks := m₁.ticks + 1 } := ⟨rfl, rfl, rfl, rfl, rfl⟩
      refine IsTrans.trans _ _ _ hidle (IsTrans.trans _ _ _ htick ?_)
      dsimp only
      split
      next => exact idle_note _ _ _
      next => exact refl _
  · obtain ⟨m₁, hcycle, -⟩ := step_eq_ok hk
    exact hreached m₁ hcycle

/-! ## Runs -/

/-- The machines in front of the steps of a run. -/
def begunFrom : Nat → Nat → Machine → List Machine
  | 0, _, _ => []
  | budget + 1, executed, m =>
    match m.boundary executed with
    | .stop _ | .fail _ => []
    | .proceed =>
      m :: match step m with
        | .ok () m' => begunFrom budget (executed + 1) m'
        | .error _ _ => []

/-- A run that does not proceed begins no step. -/
theorem runFrom_of_not_proceed {m : Machine} {executed : Nat} (h : m.boundary executed ≠ .proceed)
    (budget : Nat) :
    begunFrom budget executed m = [] ∧ Idle m (finalState (runFrom budget executed m)) := by
  have hbegun : begunFrom budget executed m = [] := by
    cases budget with
    | zero => rfl
    | succ budget =>
      cases hboundary : m.boundary executed with
      | proceed => exact absurd hboundary h
      | stop outcome => simp only [begunFrom, hboundary]
      | fail error => simp only [begunFrom, hboundary]
  refine ⟨hbegun, ?_⟩
  cases hboundary : m.boundary executed with
  | proceed => exact absurd hboundary h
  | stop outcome =>
    obtain ⟨text, hrun⟩ := runFrom_of_stop hboundary budget
    rw [hrun]
    exact IsTrans.trans _ _ _ (idle_settle m outcome) (idle_note _ _ _)
  | fail error => rw [runFrom_of_fail hboundary]; exact idle_fault error m

/-- The boundary is tested also where nothing is left of the budget. -/
theorem idle_runFrom_zero (m : Machine) (executed : Nat) :
    Idle m (finalState (runFrom 0 executed m)) := by
  by_cases hboundary : m.boundary executed = .proceed
  · rw [runFrom_zero_of_proceed hboundary]
    exact refl m
  · exact (runFrom_of_not_proceed hboundary 0).2

/-- Nothing differs but counters, the halt flag and written records, and the history is the same. -/
structure Rests (m m' : Machine) : Prop extends Idle m m' where
  history : m'.history = m.history

instance : IsPreorder Machine Rests where
  refl m := ⟨Idle.refl m, rfl⟩
  trans _ _ _ h k := ⟨IsTrans.trans _ _ _ h.toIdle k.toIdle, k.history.trans h.history⟩

theorem rests_note (m : Machine) (level : Level) (text : Unit → String) :
    Rests m (m.note level text) :=
  ⟨idle_note m level text, rfl⟩

theorem rests_settle (m : Machine) (outcome : Outcome) : Rests m (m.settle outcome) :=
  ⟨idle_settle m outcome, by cases outcome <;> rfl⟩

theorem rests_journal {m : Machine} {journal : Journal} (h : journal.hits = m.journal.hits) :
    Rests m { m with journal := journal } :=
  ⟨⟨rfl, rfl, rfl, rfl, h⟩, rfl⟩

/-- Induction on a run: it has begun some steps, each of which leads on or ends it. A fault carries
the history as it is where the run ends. -/
theorem runFrom_induct_fault
    {motive : List Machine → Machine → EStateM.Result Fault Machine (Option Outcome) → Prop}
    (stop : ∀ m outcome m', Rests m m' → motive [] m (.ok outcome m'))
    (fail : ∀ m executed e m', StopsAt m executed (.error e) → Rests m m' →
      motive [] m (.error ⟨e, m.history.lines⟩ m'))
    (stepOk : ∀ m m' begun r, step m = .ok () m' → motive begun m' r → motive (m :: begun) m r)
    (stepError : ∀ m m' e m'', step m = .error e m' → Rests m' m'' →
      motive [m] m (.error ⟨e, m'.history.lines⟩ m''))
    (budget executed : Nat) (m : Machine) :
    motive (begunFrom budget executed m) m (runFrom budget executed m) := by
  have hended : ∀ budget executed (m : Machine), m.boundary executed ≠ .proceed →
      motive (begunFrom budget executed m) m (runFrom budget executed m) := by
    intro budget executed m h
    rw [(runFrom_of_not_proceed h budget).1]
    cases hboundary : m.boundary executed with
    | proceed => exact absurd hboundary h
    | stop outcome =>
      obtain ⟨text, hrun⟩ := runFrom_of_stop hboundary budget
      rw [hrun]
      exact stop _ _ _ (IsTrans.trans _ _ _ (rests_settle m outcome) (rests_note _ _ _))
    | fail error =>
      obtain ⟨journal, hfault, hhits⟩ := fault_apply (α := Option Outcome) error m
      have hstops := boundary_spec m executed
      rw [hboundary] at hstops
      rw [runFrom_of_fail hboundary, hfault]
      exact fail _ _ _ _ hstops (rests_journal hhits)
  -- Each step spends budget.
  induction budget generalizing executed m with
  | zero =>
    by_cases hboundary : m.boundary executed = .proceed
    · rw [begunFrom, runFrom_zero_of_proceed hboundary]
      exact stop m none m (refl m)
    · exact hended 0 executed m hboundary
  | succ budget ih =>
    by_cases hboundary : m.boundary executed = .proceed
    · cases hstep : step m with
      | ok u m' =>
        simp only [begunFrom, hboundary, hstep, runFrom_succ_of_ok hboundary hstep]
        exact stepOk m m' _ _ hstep (ih (executed + 1) m')
      | error e m' =>
        obtain ⟨journal, hfault, hhits⟩ := fault_apply (α := Option Outcome) e m'
        simp only [begunFrom, hboundary, hstep, runFrom_succ_of_error hboundary hstep, hfault]
        exact stepError m m' e _ hstep (rests_journal hhits)
    · exact hended (budget + 1) executed m hboundary

/-- Induction on a run where what it reports does not matter. -/
theorem runFrom_induct
    {motive : List Machine → Machine → EStateM.Result Fault Machine (Option Outcome) → Prop}
    (rest : ∀ m r, Idle m (finalState r) → motive [] m r)
    (stepOk : ∀ m m' begun r, step m = .ok () m' → motive begun m' r → motive (m :: begun) m r)
    (stepError : ∀ m m' e fault m'', step m = .error e m' → Idle m' m'' →
      motive [m] m (.error fault m''))
    (budget executed : Nat) (m : Machine) :
    motive (begunFrom budget executed m) m (runFrom budget executed m) := by
  refine runFrom_induct_fault ?_ ?_ stepOk ?_ budget executed m
  · exact fun m outcome m' h => rest m (.ok outcome m') h.toIdle
  · exact fun m _ e m' _ h => rest m (.error _ m') h.toIdle
  · exact fun m m' e m'' hstep h => stepError m m' e _ m'' hstep h.toIdle

/-- The machine at the first instruction of a routine. -/
def enter (m : Machine) (address : UInt16) : Machine :=
  let pushed := finalState (perform none (Microcode.pushWord (m.registers.pc - 1)) m)
  { pushed.setRegisters { pushed.registers with pc := address } with depth := some 0 }

/-- To call a routine pushes, which cannot fail, and runs. -/
theorem runRoutine_apply (address : UInt16) (budget : Nat) (m : Machine) :
    runRoutine address budget m =
      match run budget (m.enter address) with
      | .ok outcome m => .ok outcome { m with depth := none }
      | .error error m => .error error { m with depth := none } := rfl

/-- A routine ends like the run that it makes. -/
theorem rests_runRoutine (address : UInt16) (budget : Nat) (m : Machine) :
    Rests (finalState (run budget (m.enter address)))
      (finalState (runRoutine address budget m)) := by
  rw [runRoutine_apply]
  cases run budget (m.enter address) <;> exact ⟨⟨rfl, rfl, rfl, rfl, rfl⟩, rfl⟩

/-- Leaving a routine behind transfers nothing. -/
theorem idle_runRoutine (address : UInt16) (budget : Nat) (m : Machine) :
    Idle (finalState (run budget (m.enter address))) (finalState (runRoutine address budget m)) :=
  (rests_runRoutine address budget m).toIdle

/-! ## Operations -/

/-- Something that is done with a machine. -/
inductive Operation where
  | step
  | run (budget : Nat)
  | runRoutine (address : UInt16) (budget : Nat)
  | interrupt (i : Interrupt)
  /-- An interrupt that the program can disable. -/
  | irq
  /-- Accesses outside of instructions: reading or writing a byte, a push, a pull. -/
  | access (p : Microcode Unit)
  /-- Look at registers and board without being seen: render, list, dump. -/
  | look (view : Core → Except BoardError Unit)

/-- An action that reports a fault, as one that fails with the fault's error. -/
def ofFault {σ : Type} (act : EStateM Fault σ α) : EStateM ExecutionError σ Unit :=
  fun m =>
    match act m with
    | .ok _ m' => .ok () m'
    | .error fault m' => .error fault.error m'

theorem finalState_ofFault (act : EStateM Fault Machine α) (m : Machine) :
    finalState (ofFault act m) = finalState (act m) := by
  unfold ofFault
  cases act m <;> rfl

theorem succeeds_of_ofFault {act : EStateM Fault Machine α} {m : Machine}
    (h : Succeeds (ofFault act m)) : Succeeds (act m) := by
  unfold ofFault at h
  cases hact : act m with
  | ok a m' => exact ⟨a, m', rfl⟩
  | error fault m' =>
    rw [hact] at h
    obtain ⟨_, _, hr⟩ := h
    cases hr

theorem succeeds_run_of_runRoutine {address : UInt16} {budget : Nat} {m : Machine}
    (h : Succeeds (runRoutine address budget m)) : Succeeds (run budget (m.enter address)) := by
  rw [runRoutine_apply] at h
  cases hrun : run budget (m.enter address) with
  | ok outcome m' => exact ⟨outcome, m', rfl⟩
  | error fault m' =>
    rw [hrun] at h
    obtain ⟨_, _, hr⟩ := h
    cases hr

namespace Operation

def act : Operation → EStateM ExecutionError Machine Unit
  | step => Machine.step
  | run budget => ofFault (Machine.run budget)
  | runRoutine address budget => ofFault (Machine.runRoutine address budget)
  | interrupt i => Machine.interrupt i
  | irq => Machine.irq >>= fun _ => pure ()
  | access p => perform none p
  | look view => observe view

def episodes : Operation → Machine → List Episode
  | step, m => [m.stepEpisode]
  | run budget, m => (begunFrom budget 0 m).map stepEpisode
  | runRoutine address budget, m =>
    ⟨none, m.board, (Microcode.pushWord (m.registers.pc - 1)).transfers m.core⟩ ::
      (begunFrom budget 0 (m.enter address)).map stepEpisode
  | interrupt i, m => [⟨none, m.board, i.microcode.transfers m.core⟩]
  | irq, m =>
    if m.registers.status.irqDisable then []
    else [⟨none, m.board, Interrupt.irq.microcode.transfers m.core⟩]
  | access p, m => [⟨none, m.board, p.transfers m.core⟩]
  | look _, _ => []

end Operation

def actAll : List Operation → EStateM ExecutionError Machine Unit
  | [] => pure ()
  | op :: rest => do
    op.act
    actAll rest

/-- The machine behind some operations, failed ones included. -/
def after (m : Machine) (ops : List Operation) : Machine :=
  ops.foldl (fun m op => finalState (op.act m)) m

def episodes (m : Machine) : List Operation → List Episode
  | [] => []
  | op :: rest => op.episodes m ++ (finalState (op.act m)).episodes rest

end Machine

end Mos6502
