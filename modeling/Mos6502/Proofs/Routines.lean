import Mos6502.Proofs.Brackets

/-!
# Routines

While a routine runs, the machine counts how many calls are open inside it. The count is what the
executed instructions say, one up for each `JSR` and one down for each `RTS`, in a word that wraps
(`depth_of_steps`). While calls are nested less deeply than the word can count, a routine has
returned as soon as more returns than calls have been executed (`hasReturned_iff`). Outside of a
routine there is no count, nothing that can be done to a machine makes one, and so no other run ends
by returning (`run_ne_returned`).
-/

namespace Mos6502.Machine

variable {α : Type}

/-! ## The depth of calls -/

def SameDepth (m m' : Machine) : Prop := m'.depth = m.depth

instance : IsPreorder Machine SameDepth where
  refl _ := rfl
  trans _ _ _ h k := k.trans h

theorem depth_fire (m : Machine) (events : Events) (address : UInt16) (value : UInt8) :
    (m.fire events address value).depth = m.depth := by
  obtain ⟨journal, hfire, -⟩ := m.fire_eq events address value
  rw [hfire]

theorem depth_poke (m : Machine) (address : UInt16) (value : UInt8) :
    (m.poke address value).depth = m.depth := by
  obtain ⟨journal, hpoke, -⟩ := m.poke_eq address value
  rw [hpoke]

/-- Accesses have no part in the depth. -/
theorem eachAccess_sameDepth : EachAccess SameDepth where
  fire := depth_fire
  markLoaded m address := (onlyLogs_mark m address .loaded).depth
  poke := depth_poke
  setRegisters _ _ := rfl

/-- An instruction that is executed is counted. -/
theorem depth_of_step_ok {m m' : Machine} (h : step m = .ok () m') :
    ∃ i : Instruction, i.FetchedFrom m.core ∧ m'.depth = m.depth.map (· + i.nesting) := by
  obtain ⟨m₁, hcycle, rfl⟩ := step_eq_ok h
  obtain ⟨opcode, i, f, l, p, hfetch, hdecode, hlogs, hperform, rfl⟩ := cycle_eq_ok hcycle
  refine ⟨i, ⟨opcode, (fetch_eq_ok hfetch).1, hdecode⟩, ?_⟩
  have hfetched := eachAccess_sameDepth.leaves_fetch.of_ok hfetch
  have hperformed := (eachAccess_sameDepth.leaves_perform _ _).of_ok hperform
  exact congrArg (Option.map (· + i.nesting)) (hperformed.trans (hlogs.depth.trans hfetched))

/-! ## Counting calls and returns -/

def next? (m : Machine) : Option Instruction :=
  match m.core.board.read m.registers.pc with
  | .ok opcode => Instruction.decode opcode
  | .error _ => none

theorem next?_of_fetchedFrom {m : Machine} {i : Instruction} (h : i.FetchedFrom m.core) :
    m.next? = some i := by
  obtain ⟨opcode, hread, hdecode⟩ := h
  simp only [next?, registers, hread, hdecode]

/-- The instruction that follows `j` others. -/
def instructionBehind (m : Machine) (j : Nat) : Option Instruction :=
  match steps j m with
  | .ok _ mj => mj.next?
  | .error _ _ => none

/-- How often an instruction is among the first `k` that are executed. -/
def executions (m : Machine) (i : Instruction) (k : Nat) : Nat :=
  (List.range k).countP fun j => m.instructionBehind j = some i

/-- Among the first `k` instructions that are executed are more returns than calls. -/
def Outnumbered (m : Machine) (k : Nat) : Prop := m.executions .jsr k < m.executions .rts k

theorem executions_succ {m mj : Machine} {k : Nat} {i : Instruction}
    (hsteps : steps k m = .ok () mj) (hnext : mj.next? = some i) (j : Instruction) :
    m.executions j (k + 1) = m.executions j k + if i = j then 1 else 0 := by
  have hinstruction : m.instructionBehind k = some i := by
    rw [instructionBehind, hsteps]
    exact hnext
  simp [executions, List.range_succ, hinstruction]

/-- The change of depth is the difference of two counts. -/
theorem nesting_eq (i : Instruction) :
    i.nesting = Int32.ofInt ((if i = .jsr then 1 else 0) - if i = .rts then 1 else 0) := by
  cases i <;> rfl

/-- The depth is the number of calls less the number of returns, wrapped to its word. -/
theorem depth_of_steps {m : Machine} (hdepth : m.depth = some 0) {k : Nat} {mk : Machine}
    (h : steps k m = .ok () mk) :
    mk.depth = some (Int32.ofInt (m.executions .jsr k - m.executions .rts k)) := by
  induction k generalizing mk with
  | zero =>
    cases h
    exact hdepth
  | succ k ih =>
    obtain ⟨u, mj, hsteps, hstep⟩ := bind_eq_ok.mp h
    obtain ⟨i, hfetched, hnest⟩ := depth_of_step_ok hstep
    have hnext := next?_of_fetchedFrom hfetched
    rw [hnest, ih hsteps, executions_succ hsteps hnext, executions_succ hsteps hnext,
      Option.map_some, nesting_eq, ← Int32.ofInt_add]
    push_cast
    congr 2
    omega

/-- As long as the returns do not outnumber the calls, fewer than `bound` calls are open. -/
def NestsBelow (m : Machine) (bound : Nat) : Prop :=
  ∀ k mk, steps k m = .ok () mk → (∀ j < k, ¬ m.Outnumbered j) →
    m.executions .jsr k < m.executions .rts k + bound

/-- A routine that returns within `k` instructions nests no deeper than `k`. -/
theorem nestsBelow_of_outnumbered {m : Machine} {k bound : Nat} (h : m.Outnumbered k)
    (hk : k < bound) : m.NestsBelow bound := by
  intro j mj hsteps hbefore
  have hle : j ≤ k := Nat.le_of_not_lt fun hlt => hbefore k hlt h
  have hcount : m.executions .jsr j ≤ j := List.countP_le_length.trans_eq List.length_range
  omega

/-- Up to the first boundary at which the returns outnumber the calls, it is by one. -/
theorem executions_rts_le {m mk : Machine} {k : Nat} (h : steps k m = .ok () mk)
    (hbefore : ∀ j < k, ¬ m.Outnumbered j) : m.executions .rts k ≤ m.executions .jsr k + 1 := by
  cases k with
  | zero => exact Nat.zero_le 1
  | succ j =>
    obtain ⟨u, mj, hsteps, hstep⟩ := bind_eq_ok.mp h
    obtain ⟨i, hfetched, -⟩ := depth_of_step_ok hstep
    have hnext := next?_of_fetchedFrom hfetched
    have hnot := hbefore j (Nat.lt_succ_self j)
    rw [Outnumbered, Nat.not_lt] at hnot
    rw [executions_succ hsteps hnext, executions_succ hsteps hnext]
    split <;> omega

/-- Where the returns have not outnumbered the calls before, the sign of the depth tells whether
they do now: the difference lies between minus one and what the word can count. -/
theorem hasReturned_iff {m mk : Machine} {k : Nat} (hdepth : m.depth = some 0)
    (hnests : m.NestsBelow (2 ^ 31)) (h : steps k m = .ok () mk)
    (hbefore : ∀ j < k, ¬ m.Outnumbered j) : mk.HasReturned ↔ m.Outnumbered k := by
  have hhigh := hnests k mk h hbefore
  have hlow := executions_rts_le h hbefore
  rw [HasReturned, depth_of_steps hdepth h, Outnumbered]
  simp only [Option.some.injEq, exists_eq_left']
  rw [Int32.lt_iff_toInt_lt, Int32.toInt_ofInt_of_le (by omega) (by omega), Int32.toInt_zero]
  omega

/-- With as many calls open as the word cannot count, the depth is below zero too. -/
example : Int32.ofInt (2 ^ 31) < 0 := by decide

/-- The instruction that makes the returns more than the calls is a return. -/
theorem rts_of_outnumbered {m : Machine} {k : Nat} {mk : Machine} (h : steps k m = .ok () mk)
    (hafter : m.Outnumbered k) (hbefore : ∀ j < k, ¬ m.Outnumbered j) :
    ∃ j ml, k = j + 1 ∧ steps j m = .ok () ml ∧ Instruction.rts.FetchedFrom ml.core ∧
      step ml = .ok () mk := by
  cases k with
  | zero => exact absurd hafter (lt_irrefl 0)
  | succ j =>
    obtain ⟨u, ml, hsteps, hstep⟩ := bind_eq_ok.mp h
    obtain ⟨i, hfetched, -⟩ := depth_of_step_ok hstep
    have hnext := next?_of_fetchedFrom hfetched
    have hnot := hbefore j (Nat.lt_succ_self j)
    rw [Outnumbered, executions_succ hsteps hnext, executions_succ hsteps hnext] at hafter
    rw [Outnumbered] at hnot
    have hrts : i = .rts := by
      by_contra hother
      rw [if_neg hother] at hafter
      omega
    exact ⟨j, ml, rfl, hsteps, hrts ▸ hfetched, hstep⟩

/-! ## Returning -/

/-- `k` steps are the least number behind which more returns than calls have been executed, all of
them succeed, and nothing else stops the run at a boundary before. -/
structure ReturnsBehind (m : Machine) (k : Nat) : Prop where
  completes : ∃ mk, steps k m = .ok () mk
  outnumbered : m.Outnumbered k
  least : ∀ j < k, ¬ m.Outnumbered j
  undisturbed : ∀ j < k, ∀ mj, steps j m = .ok () mj → ¬ mj.StopsOtherwise j

/-- Up to the step that returns, the run goes on at every boundary. -/
theorem ReturnsBehind.course {m mk : Machine} {k : Nat} (hdepth : m.depth = some 0)
    (hnests : m.NestsBelow (2 ^ 31)) (h : m.ReturnsBehind k) (hsteps : steps k m = .ok () mk) :
    Course m k mk where
  steps_eq := hsteps
  proceeds j hj := by
    obtain ⟨mj, hmj⟩ := steps_of_le (Nat.le_of_lt hj) hsteps
    refine ⟨mj, hmj, proceeds_iff.mpr ⟨?_, h.undisturbed j hj mj hmj⟩⟩
    have hbefore : ∀ i < j, ¬ m.Outnumbered i := fun i hi => h.least i (Nat.lt_trans hi hj)
    exact mt (hasReturned_iff hdepth hnests hmj hbefore).mp (h.least j hj)

/-- No boundary that a run passes has more returns than calls behind it. -/
theorem Course.not_outnumbered {m mk : Machine} {k : Nat} (hdepth : m.depth = some 0)
    (hnests : m.NestsBelow (2 ^ 31)) (h : Course m k mk) : ∀ j < k, ¬ m.Outnumbered j := by
  intro j
  induction j using Nat.strong_induction_on with
  | _ j ih =>
    intro hj
    obtain ⟨mj, hsteps, hproceeds⟩ := h.proceeds j hj
    have hbefore : ∀ i < j, ¬ m.Outnumbered i := fun i hi => ih i hi (Nat.lt_trans hi hj)
    exact mt (hasReturned_iff hdepth hnests hsteps hbefore).mpr (proceeds_iff.mp hproceeds).1

/-- A run that has returned did so behind this step. -/
theorem StoppedBehind.returnsBehind {m m' mk : Machine} {k : Nat} (hdepth : m.depth = some 0)
    (hnests : m.NestsBelow (2 ^ 31)) (h : StoppedBehind m .returned m' k mk) :
    m.ReturnsBehind k where
  completes := ⟨mk, h.course.steps_eq⟩
  outnumbered := by
    have hbefore := h.course.not_outnumbered hdepth hnests
    cases h.condition with
    | returned hreturned =>
      exact (hasReturned_iff hdepth hnests h.course.steps_eq hbefore).mp hreturned
  least := h.course.not_outnumbered hdepth hnests
  undisturbed j hj mj hsteps := by
    obtain ⟨mj', hsteps', hproceeds⟩ := h.course.proceeds j hj
    cases hsteps.symm.trans hsteps'
    exact (proceeds_iff.mp hproceeds).2

/-- A run of a routine returns behind the least number of steps that contain more returns than
calls, unless something else stops it before. -/
theorem run_returns_iff {m : Machine} (hdepth : m.depth = some 0)
    (hnests : m.NestsBelow (2 ^ 31)) (budget : Nat) :
    (∃ m', run budget m = .ok (some .returned) m') ↔ ∃ k ≤ budget, m.ReturnsBehind k := by
  constructor
  · rintro ⟨m', hrun⟩
    obtain ⟨k, mk, hk, hstopped⟩ := stoppedBehind_of_run hrun
    exact ⟨k, hk, hstopped.returnsBehind hdepth hnests⟩
  · rintro ⟨k, hk, hreturns⟩
    obtain ⟨mk, hsteps⟩ := hreturns.completes
    have hboundary : mk.boundary k = .stop .returned := by
      rw [boundary, if_pos ((any_depth_iff mk).mpr _)]
      exact (hasReturned_iff hdepth hnests hsteps hreturns.least).mpr hreturns.outnumbered
    obtain ⟨text, hrun⟩ := runFrom_of_stop hboundary (budget - k)
    rw [← (hreturns.course hdepth hnests hsteps).runFrom_eq, Nat.add_sub_cancel' hk] at hrun
    exact ⟨_, hrun⟩

theorem ReturnsBehind.unique {m : Machine} {j k : Nat} (h : m.ReturnsBehind j)
    (h' : m.ReturnsBehind k) : j = k := by
  rcases Nat.lt_trichotomy j k with hlt | rfl | hlt
  · exact absurd h.outnumbered (h'.least j hlt)
  · rfl
  · exact absurd h'.outnumbered (h.least k hlt)

/-! ## Calling a routine -/

theorem perform_pushWord (v : UInt16) (m : Machine) :
    ∃ m', perform none (Microcode.pushWord v) m = .ok () m' ∧
      m'.core = (m.core.pushed (v >>> 8).toUInt8).pushed v.toUInt8 :=
  perform_of_execute none rfl

/-- To call a routine is to push the address in front of the program counter and to go there with
no call open. -/
structure Enters (m : Machine) (address : UInt16) (e : Machine) : Prop where
  registers : e.registers = { m.registers with sp := m.registers.sp - 2, pc := address }
  board : e.board =
    (m.board.write (stackSlot m.registers.sp) ((m.registers.pc - 1) >>> 8).toUInt8).write
      (stackSlot (m.registers.sp - 1)) (m.registers.pc - 1).toUInt8
  config : e.config = m.config
  ticks : e.ticks = m.ticks
  depth : e.depth = some 0

/-- Entering a routine pushes the address that is taken for its caller. -/
theorem enters_enter (m : Machine) (address : UInt16) : m.Enters address (m.enter address) := by
  obtain ⟨m', hperform, hcore⟩ := perform_pushWord (m.registers.pc - 1) m
  have hstep := (leaves_perform none _).of_ok hperform
  have hsp : m.registers.sp - 1 - 1 = m.registers.sp - 2 := by grind
  have henter : m.enter address =
      { m'.setRegisters { m'.registers with pc := address } with depth := some 0 } := by
    rw [enter, hperform]
    rfl
  rw [henter]
  refine ⟨?_, ?_, hstep.config, hstep.ticks, rfl⟩
  · change { m'.core.registers with pc := address } = _
    rw [hcore, ← hsp]
    rfl
  · change m'.core.board = _
    rw [hcore]
    rfl

/-- The routine at an address, called by `m`, has returned in `m'` with its `k`-th instruction. -/
structure ReturnedFrom (m : Machine) (address : UInt16) (k : Nat) (m' : Machine) : Prop where
  /-- Nothing happens to the machine behind that instruction but that the depth is dropped. -/
  final : ∃ mk, steps k (m.enter address) = .ok () mk ∧
    m' = { mk with depth := none, journal := m'.journal }
  ticks : m'.ticks = m.ticks + k
  /-- If the last return finds what the call has pushed, the program goes on where it called. -/
  resumes : ∃ ml, steps (k - 1) (m.enter address) = .ok () ml ∧ ml.next? = some .rts ∧
    (ml.registers.sp = m.registers.sp - 2 →
      ml.board.stackByte m.registers.sp = ((m.registers.pc - 1) >>> 8).toUInt8 →
      ml.board.stackByte (m.registers.sp - 1) = (m.registers.pc - 1).toUInt8 →
      m'.registers.pc = m.registers.pc ∧ m'.registers.sp = m.registers.sp)

/-- A return that finds a word on top of the stack goes behind it. -/
theorem registers_of_rts {ml mk : Machine} (hfetched : Instruction.rts.FetchedFrom ml.core)
    (hstep : step ml = .ok () mk) :
    mk.registers.pc = Microcode.word (ml.board.stackByte (ml.registers.sp + 1))
        (ml.board.stackByte (ml.registers.sp + 1 + 1)) + 1 ∧
      mk.registers.sp = ml.registers.sp + 1 + 1 := by
  have hexecute := Instruction.Leads.execute ⟨hfetched, hstep⟩
  have hcore := EStateM.Result.ok.inj ((Microcode.execute_rts ml.core).symm.trans hexecute)
  rw [registers, ← hcore.2]
  exact ⟨rfl, rfl⟩

/-- A run of the entered routine that stops with a return has returned from it. -/
theorem returnedFrom_of_run {m m' mk : Machine} {address : UInt16} {k : Nat}
    (hnests : (m.enter address).NestsBelow (2 ^ 31))
    (h : StoppedBehind (m.enter address) .returned m' k mk) :
    ReturnedFrom m address k { m' with depth := none } := by
  have henters := m.enters_enter address
  have hreturns := h.returnsBehind henters.depth hnests
  have hfinal : m' = { mk with depth := none, journal := m'.journal } :=
    h.final.trans (by simp)
  obtain ⟨j, ml, rfl, hsteps, hfetched, hstep⟩ :=
    rts_of_outnumbered h.course.steps_eq hreturns.outnumbered hreturns.least
  refine ⟨⟨mk, h.course.steps_eq, ?_⟩, ?_, ml, hsteps, next?_of_fetchedFrom hfetched, ?_⟩
  · conv_lhs => rw [hfinal]
  · rw [← henters.ticks]
    exact h.ticks
  · intro hsp hhigh hlow
    obtain ⟨hpc, hsp'⟩ := registers_of_rts hfetched hstep
    have hone : m.registers.sp - 2 + 1 = m.registers.sp - 1 := by grind
    have hregisters : m'.registers = mk.registers := by rw [hfinal]; rfl
    rw [hsp, hone, UInt8.sub_add_cancel, hlow, hhigh, Microcode.word_bytes,
      UInt16.sub_add_cancel] at hpc
    rw [hsp, hone, UInt8.sub_add_cancel] at hsp'
    exact ⟨(congrArg Registers.pc hregisters).trans hpc,
      (congrArg Registers.sp hregisters).trans hsp'⟩

/-! ## Outside of routines -/

/-- If no routine was running, none is running afterwards. -/
def StaysOutside (m m' : Machine) : Prop := m.depth = none → m'.depth = none

instance : IsPreorder Machine StaysOutside where
  refl _ := id
  trans _ _ _ h k := k ∘ h

/-- An action that does not touch the depth stays outside all routines. -/
theorem SameDepth.staysOutside {m m' : Machine} (h : SameDepth m m') : StaysOutside m m' :=
  fun hnone => h.trans hnone

/-- A step outside all routines stays there, calls and returns included. -/
theorem eachUpdate_staysOutside : EachUpdate StaysOutside where
  fire m events address value := SameDepth.staysOutside (depth_fire m events address value)
  markLoaded m address := SameDepth.staysOutside (onlyLogs_mark m address .loaded).depth
  markExecuted m address := SameDepth.staysOutside (onlyLogs_mark m address .executed).depth
  poke m address value := SameDepth.staysOutside (depth_poke m address value)
  setRegisters _ _ := id
  record m line := SameDepth.staysOutside (onlyLogs_record m line).depth
  visit _ _ _ := id
  nest m i hnone := by rw [nest, hnone, Option.map_none]
  tick _ := id
  note _ _ _ := id

theorem eachOutside_staysOutside : EachOutside StaysOutside := eachUpdate_staysOutside.eachOutside

/-- A run stays where its steps do. -/
theorem staysOutside_run (budget : Nat) : Leaves StaysOutside (run budget) := by
  intro m hnone
  have hends := (Course.start m).runEnds budget
  rw [Nat.zero_add, ← run] at hends
  -- However the run ends, it has made some steps, and dropped the depth at most.
  cases hrun : run budget m with
  | ok outcome m' =>
    rw [hrun] at hends
    cases outcome with
    | none => exact (eachUpdate_staysOutside.leaves_steps budget).of_ok hends.1.steps_eq hnone
    | some outcome =>
      obtain ⟨k, mk, -, hstopped⟩ := hends
      have hdepth := (eachUpdate_staysOutside.leaves_steps k).of_ok hstopped.course.steps_eq hnone
      rw [finalState, hstopped.final]
      dsimp only
      split
      · rfl
      · exact hdepth
  | error fault m' =>
    rw [hrun] at hends
    obtain ⟨k, mk, ⟨-, hfaulted⟩ | ⟨-, mf, hfailed⟩⟩ := hends
    · have hdepth := (eachUpdate_staysOutside.leaves_steps k).of_ok hfaulted.course.steps_eq hnone
      rw [finalState, hfaulted.final]
      exact hdepth
    · have hdepth := (eachUpdate_staysOutside.leaves_steps k).of_ok hfailed.course.steps_eq hnone
      have hfailure := eachUpdate_staysOutside.leaves_step.of_error hfailed.step_eq hdepth
      rw [finalState, hfailed.final]
      exact hfailure

/-- No depth survives a routine, however it ends. -/
theorem depth_runRoutine (address : UInt16) (budget : Nat) (m : Machine) :
    (finalState (runRoutine address budget m)).depth = none := by
  rw [runRoutine_apply]
  cases run budget (m.enter address) <;> rfl

/-- Every operation that begins outside all routines ends there. -/
theorem staysOutside_act (op : Operation) : Leaves StaysOutside op.act := by
  intro m
  cases op with
  | step => exact eachUpdate_staysOutside.leaves_step m
  | run budget =>
    rw [Operation.act, finalState_ofFault]
    exact staysOutside_run budget m
  | runRoutine address budget =>
    rw [Operation.act, finalState_ofFault]
    exact fun _ => depth_runRoutine address budget m
  | interrupt i => exact eachOutside_staysOutside.leaves_interrupt i m
  | irq =>
    rw [Operation.act, finalState_bind_pure]
    exact eachOutside_staysOutside.leaves_irq m
  | access p => exact eachUpdate_staysOutside.leaves_perform none p m
  | look view => exact leaves_look view m

theorem staysOutside_hardReset : Leaves StaysOutside hardReset := by
  refine .bind (.modify fun _ => id) fun _ => ?_
  refine .bind (leaves_look _) fun pc => ?_
  exact .modify fun _ _ => rfl

theorem staysOutside_restoreBoard (s : Snapshot) : Leaves StaysOutside (restoreBoard s) := by
  intro m hnone
  unfold restoreBoard
  split <;> exact hnone

theorem staysOutside_call (c : Call) : Leaves StaysOutside c.act := by
  cases c with
  | step => exact .bind eachUpdate_staysOutside.leaves_step fun _ => .pure _
  | nmi => exact .bind (eachOutside_staysOutside.leaves_interrupt .nmi) fun _ => .pure _
  | reset => exact .bind (eachOutside_staysOutside.leaves_interrupt .reset) fun _ => .pure _
  | irq => exact eachOutside_staysOutside.leaves_irq

theorem staysOutside_disturbance (d : Disturbance) (m : Machine) : StaysOutside m (d.apply m) := by
  cases d with
  | call c => exact staysOutside_call c m
  | interrupt i => exact eachOutside_staysOutside.leaves_interrupt i m
  | write address value =>
    exact eachUpdate_staysOutside.leaves_perform none (Microcode.writeByte address value) m
  | poke address value => exact SameDepth.staysOutside (depth_poke m address value)
  | clearRam => exact id
  | hardReset => exact staysOutside_hardReset m
  | restore s => exact staysOutside_restoreBoard s m
  | configure config => exact id

/-- Whatever can be done with a machine from outside. -/
inductive Interaction where
  | operation (op : Operation)
  | disturbance (d : Disturbance)
  | setRegisters (r : Registers)
  /-- Reach into the board, or put another one in its place. -/
  | changeBoard (f : Board → Board)
  | register (events : Events) (name : String) (address : UInt16) (callback : Callback)
  | changeBreakpoints (f : Breakpoints → Breakpoints)
  | halt
  | clearHalt
  | clearLog

def Interaction.apply (m : Machine) : Interaction → Machine
  | operation op => finalState (op.act m)
  | disturbance d => d.apply m
  | setRegisters r => m.setRegisters r
  | changeBoard f => { m with core := { m.core with board := f m.core.board } }
  | register events name address callback => m.register events name address callback
  | changeBreakpoints f => { m with breakpoints := f m.breakpoints }
  | halt => m.halt
  | clearHalt => m.clearHalt
  | clearLog => m.clearLog

theorem staysOutside_apply (i : Interaction) (m : Machine) : StaysOutside m (i.apply m) := by
  cases i with
  | operation op => exact staysOutside_act op m
  | disturbance d => exact staysOutside_disturbance d m
  | setRegisters | changeBoard | register | changeBreakpoints | halt | clearHalt | clearLog =>
    exact id

theorem staysOutside_foldl (is : List Interaction) (m : Machine) :
    StaysOutside m (is.foldl Interaction.apply m) := by
  induction is generalizing m with
  | nil => exact id
  | cons i rest ih => exact ih _ ∘ staysOutside_apply i m

/-- Outside all routines no run ends with a return. -/
theorem run_ne_returned {m m' : Machine} (hnone : m.depth = none) (budget : Nat) :
    run budget m ≠ .ok (some .returned) m' := by
  intro hrun
  obtain ⟨k, mk, -, hstopped⟩ := stoppedBehind_of_run hrun
  have hdepth := (eachUpdate_staysOutside.leaves_steps k).of_ok hstopped.course.steps_eq hnone
  cases hstopped.condition with
  | returned hreturned =>
    obtain ⟨depth, hsome, -⟩ := hreturned
    cases hdepth.symm.trans hsome

theorem depth_powerOn {board : Board} {config : Config} {m : Machine}
    (h : powerOn board config = .ok m) : m.depth = none := by
  obtain ⟨pc, -, hrest⟩ := except_bind_eq_ok.mp h
  cases hrest
  rfl

/-! ## The routine as a whole -/

/-- A routine is a run between entering and leaving. -/
theorem runRoutine_eq_ok {m m' : Machine} {address : UInt16} {budget : Nat}
    {outcome : Option Outcome} : runRoutine address budget m = .ok outcome m' ↔
      ∃ mr, run budget (m.enter address) = .ok outcome mr ∧ m' = { mr with depth := none } := by
  rw [runRoutine_apply]
  cases run budget (m.enter address) <;> simp [eq_comm]

/-- A call of a routine pushes the address in front of the program counter. With fewer than `2 ^ 31`
calls open at any time, it returns behind the least number of steps among which are more returns
than calls, unless a step fails or something else stops it at an earlier boundary; where both
happen, it has returned. If the last return finds on the stack what the call has pushed, program
counter and stack pointer are what they were. However the call ends, the machine is not in a routine
afterwards, and whatever is then done with it, or with a new machine, no run ends by returning. -/
theorem routine_returns (m : Machine) (address : UInt16) :
    m.Enters address (m.enter address) ∧
    ((m.enter address).NestsBelow (2 ^ 31) →
      (∀ budget, (∃ m', runRoutine address budget m = .ok (some .returned) m') ↔
        ∃ k ≤ budget, (m.enter address).ReturnsBehind k) ∧
      ∀ budget m', runRoutine address budget m = .ok (some .returned) m' →
        ∀ k, (m.enter address).ReturnsBehind k → m.ReturnedFrom address k m') ∧
    (∀ budget, (finalState (runRoutine address budget m)).depth = none) ∧
    ∀ p, (∃ budget, p = finalState (runRoutine address budget m)) ∨
        (∃ board config, powerOn board config = .ok p) →
      ∀ (is : List Interaction) budget m',
        run budget (is.foldl Interaction.apply p) ≠ .ok (some .returned) m' := by
  have henters := m.enters_enter address
  refine ⟨henters, fun hnests => ⟨fun budget => ?_, fun budget m' hrun k hk => ?_⟩,
    fun budget => depth_runRoutine address budget m, fun p hp is budget m' => ?_⟩
  · rw [← run_returns_iff henters.depth hnests]
    simp only [runRoutine_eq_ok]
    constructor
    · rintro ⟨m', mr, hrun, -⟩
      exact ⟨mr, hrun⟩
    · rintro ⟨mr, hrun⟩
      exact ⟨_, mr, hrun, rfl⟩
  · obtain ⟨mr, hends, rfl⟩ := runRoutine_eq_ok.mp hrun
    obtain ⟨j, mk, -, hstopped⟩ := stoppedBehind_of_run hends
    -- There is one such `k`, and it is the length of this run.
    cases hk.unique (hstopped.returnsBehind henters.depth hnests)
    exact returnedFrom_of_run hnests hstopped
  · have hnone : p.depth = none := by
      rcases hp with ⟨budget, rfl⟩ | ⟨board, config, hpower⟩
      · exact depth_runRoutine address budget m
      · exact depth_powerOn hpower
    exact run_ne_returned (staysOutside_foldl is p hnone) budget

/-- A routine that calls its own rest before it goes through it returns with the second of its two
returns, the eleventh instruction. Both the pushed address and the stack pointer wrap. -/
theorem routine_returns_nested :
    (callingRoutine.enter 0).NestsBelow (2 ^ 31) ∧
    ∃ m', runRoutine 0 11 callingRoutine = .ok (some .returned) m' ∧ m'.registers.pc = 0 ∧
      m'.registers.sp = 0 ∧ ∃ k ≤ 11, (callingRoutine.enter 0).ReturnsBehind k := by
  have houtnumbered : (callingRoutine.enter 0).executions .jsr 11 <
      (callingRoutine.enter 0).executions .rts 11 := by decide +kernel
  have hnests := nestsBelow_of_outnumbered houtnumbered (by norm_num : 11 < 2 ^ 31)
  have hrun : succeedsWith (fun outcome m' => outcome == some .returned && m'.registers.pc == 0 &&
      m'.registers.sp == 0) (runRoutine 0 11 callingRoutine) = true := by decide +kernel
  obtain ⟨outcome, m', hok, hend⟩ := exists_of_succeedsWith hrun
  simp only [Bool.and_eq_true, beq_iff_eq] at hend
  obtain ⟨⟨rfl, hpc⟩, hsp⟩ := hend
  have hreturns := ((routine_returns callingRoutine 0).2.1 hnests).1 11
  exact ⟨hnests, m', hok, hpc, hsp, hreturns.mp ⟨m', hok⟩⟩

end Mos6502.Machine
