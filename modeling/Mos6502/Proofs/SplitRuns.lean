import Mos6502.Proofs.Brackets

/-!
# Runs in two parts

A run that reaches its limit can be continued with another limit. What is different then from one
run with both limits together is the limit itself and a log record, and no instruction looks at
either (`Blind`). Nothing that a run decides on is left over at the seam: at the limit the machine
is not halted and no routine has returned, and the stop opcode is looked for only after the limit,
by the second run as by the one run. So `split_run`: the second run ends as the one run ends.
-/

namespace Mos6502

namespace Journal

def unwritten (j : Journal) : Journal := { j with records := #[] }

theorem unwritten_note (j : Journal) (level : Level) (text : Unit → String) :
    (j.note level text).unwritten = j.unwritten := by
  unfold note
  split <;> rfl

theorem unwritten_hit (j : Journal) (h : Breakpoints.Hit) :
    (j.hit h).unwritten = { j.unwritten with hits := j.hits.push h } := by
  unfold hit note
  dsimp only
  split <;> rfl

theorem unwritten_foldl_hit (hits : List Breakpoints.Hit) {j k : Journal}
    (h : j.unwritten = k.unwritten) :
    (hits.foldl hit j).unwritten = (hits.foldl hit k).unwritten := by
  induction hits generalizing j k with
  | nil => exact h
  | cons first rest ih =>
    apply ih
    have hhits := congrArg Journal.hits h
    change j.hits = k.hits at hhits
    rw [unwritten_hit, unwritten_hit, h, hhits]

end Journal

namespace Machine

variable {ε α β : Type}

/-- The machine without its limit and its log records. -/
def plain (m : Machine) : Machine :=
  { m with config := { m.config with limit := none }, journal := m.journal.unwritten }

def plainly : EStateM.Result ε Machine α → EStateM.Result ε Machine α
  | .ok a m => .ok a m.plain
  | .error e m => .error e m.plain

/-- The action does not look at the limit and the log records. -/
def Blind (act : EStateM ε Machine α) : Prop :=
  ∀ m₁ m₂ : Machine, m₁.plain = m₂.plain → plainly (act m₁) = plainly (act m₂)

section Plain

variable {m₁ m₂ : Machine}

/-- Plain machines that are equal look alike to whatever looks at no more than that. -/
theorem eq_of_plain (h : m₁.plain = m₂.plain) (f : Machine → β) (hf : ∀ m, f m.plain = f m) :
    f m₁ = f m₂ := by
  rw [← hf m₁, ← hf m₂, h]

/-- An update that has nothing to do with the limit and the records. -/
theorem plain_map (h : m₁.plain = m₂.plain) (f : Machine → Machine)
    (hf : ∀ m, (f m).plain = f m.plain) : (f m₁).plain = (f m₂).plain := by
  rw [hf, hf, h]

end Plain

/-! ## Actions that do not look -/

namespace Blind

theorem pure (a : α) : Blind (pure a : EStateM ε Machine α) :=
  fun _ _ h => congrArg (EStateM.Result.ok a) h

theorem throw (e : ε) : Blind (throw e : EStateM ε Machine α) :=
  fun _ _ h => congrArg (EStateM.Result.error e) h

theorem modify {f : Machine → Machine} (hf : ∀ m₁ m₂ : Machine, m₁.plain = m₂.plain →
    (f m₁).plain = (f m₂).plain) : Blind (modify f : EStateM ε Machine PUnit) :=
  fun m₁ m₂ h => congrArg (EStateM.Result.ok PUnit.unit) (hf m₁ m₂ h)

/-- To look at the machine first does no harm if what is looked at is plain. -/
theorem get_bind {f : Machine → EStateM ε Machine α} (hplain : ∀ m, f m = f m.plain)
    (hf : ∀ m, Blind (f m)) : Blind (get >>= f) := by
  intro m₁ m₂ h
  rw [get_bind_apply, get_bind_apply, hplain m₁, h, ← hplain m₂]
  exact hf m₂ m₁ m₂ h

/-- A blind action that succeeds does so on every machine that is alike. -/
theorem exists_ok {act : EStateM ε Machine α} (hact : Blind act) {m₁ m₂ m₁' : Machine} {a : α}
    (h : m₁.plain = m₂.plain) (hok : act m₁ = .ok a m₁') :
    ∃ m₂', act m₂ = .ok a m₂' ∧ m₁'.plain = m₂'.plain := by
  have hsame := hact m₁ m₂ h
  cases hact₂ : act m₂ with
  | ok b m₂' =>
    rw [hok, hact₂] at hsame
    injection hsame with hresult hplain
    exact ⟨m₂', by rw [hresult], hplain⟩
  | error e m₂' => rw [hok, hact₂] at hsame; cases hsame

/-- A blind action that fails does so on every machine that is alike. -/
theorem exists_error {act : EStateM ε Machine α} (hact : Blind act) {m₁ m₂ m₁' : Machine} {e : ε}
    (h : m₁.plain = m₂.plain) (herror : act m₁ = .error e m₁') :
    ∃ m₂', act m₂ = .error e m₂' ∧ m₁'.plain = m₂'.plain := by
  have hsame := hact m₁ m₂ h
  cases hact₂ : act m₂ with
  | ok b m₂' => rw [herror, hact₂] at hsame; cases hsame
  | error e' m₂' =>
    rw [herror, hact₂] at hsame
    injection hsame with hresult hplain
    exact ⟨m₂', by rw [hresult], hplain⟩

theorem bind {act : EStateM ε Machine α} {f : α → EStateM ε Machine β} (hact : Blind act)
    (hf : ∀ a, Blind (f a)) : Blind (act >>= f) := by
  intro m₁ m₂ h
  cases h₁ : act m₁ with
  | ok a m₁' =>
    obtain ⟨m₂', h₂, hplain⟩ := hact.exists_ok h h₁
    rw [bind_of_ok h₁, bind_of_ok h₂]
    exact hf a m₁' m₂' hplain
  | error e m₁' =>
    obtain ⟨m₂', h₂, hplain⟩ := hact.exists_error h h₁
    rw [bind_of_error h₁, bind_of_error h₂]
    exact congrArg (EStateM.Result.error e) hplain

end Blind

/-! ## Updates -/

section Updates

variable {m₁ m₂ : Machine}

theorem plain_note (m : Machine) (level : Level) (text : Unit → String) :
    (m.note level text).plain = m.plain := by
  unfold plain note
  rw [Journal.unwritten_note]

theorem plain_mapCore (h : m₁.plain = m₂.plain) (f : Core → Core) :
    ({ m₁ with core := f m₁.core } : Machine).plain =
      { m₂ with core := f m₂.core : Machine }.plain :=
  plain_map h (fun m => { m with core := f m.core }) fun _ => rfl

/-- The breakpoints are part of what is compared, so they answer alike. -/
theorem plain_fire (h : m₁.plain = m₂.plain) (events : Events) (address : UInt16) (value : UInt8) :
    (m₁.fire events address value).plain = (m₂.fire events address value).plain := by
  have hempty := eq_of_plain h (·.breakpoints.isEmpty) fun _ => rfl
  have hfire := eq_of_plain h (fun m => m.breakpoints.fire
    { events, address, value, registers := m.core.registers }) fun _ => rfl
  have hjournal := eq_of_plain h (·.journal.unwritten) fun _ => rfl
  unfold fire
  rw [hempty]
  split
  next => exact h
  next =>
    dsimp only
    rw [hfire]
    generalize m₂.breakpoints.fire
      { events, address, value, registers := m₂.core.registers } = fired
    have hfired : ({ m₁ with
          breakpoints := fired.breakpoints
          journal := fired.hits.foldl Journal.hit m₁.journal } : Machine).plain =
        { m₂ with
          breakpoints := fired.breakpoints
          journal := fired.hits.foldl Journal.hit m₂.journal : Machine }.plain := by
      have hhits := Journal.unwritten_foldl_hit fired.hits hjournal
      have hrest := plain_map h
        (fun m => { m with breakpoints := fired.breakpoints, journal := {} }) fun _ => rfl
      unfold plain at hrest ⊢
      simp only [Machine.mk.injEq] at hrest ⊢
      simp only [hrest, hhits, and_self]
    split
    next =>
      refine plain_map ?_ halt fun _ => rfl
      rw [plain_note, plain_note]
      exact hfired
    next => exact hfired

theorem plain_poke (h : m₁.plain = m₂.plain) (address : UInt16) (value : UInt8) :
    (m₁.poke address value).plain = (m₂.poke address value).plain := by
  have hcommitted := eq_of_plain h (·.core.board.committed? address value) fun _ => rfl
  unfold poke
  rw [hcommitted]
  dsimp only
  split
  next =>
    refine plain_mapCore ?_ fun c => { c with board := c.board.write address value }
    rw [plain_note, plain_note]
    exact h
  next => exact plain_mapCore h fun c => { c with board := c.board.write address value }

theorem plain_mark (h : m₁.plain = m₂.plain) (address : UInt16) (u : Usage) :
    (m₁.mark address u).plain = (m₂.mark address u).plain := by
  have hlocate := eq_of_plain h (·.core.board.locate address) fun _ => rfl
  unfold mark
  rw [hlocate]
  split
  next offset hoffset =>
    exact plain_map h (fun m => { m with log := m.log.mark offset u }) fun _ => rfl
  next => exact h
  next => exact h

theorem plain_markRead (h : m₁.plain = m₂.plain) (span : Option Span) (address : UInt16) :
    (m₁.markRead span address).plain = (m₂.markRead span address).plain := by
  have hlogging := eq_of_plain h (·.config.codeDataLog) fun _ => rfl
  unfold markRead
  rw [hlogging]
  split
  next => exact plain_mark h address .loaded
  next => exact h

theorem plain_record (h : m₁.plain = m₂.plain) (line : String) :
    (m₁.record line).plain = (m₂.record line).plain := by
  have hnote : (m₁.note .trace fun _ => line).plain = (m₂.note .trace fun _ => line).plain := by
    rw [plain_note, plain_note]
    exact h
  have htrace := eq_of_plain hnote (·.config.trace) fun _ => rfl
  unfold record
  dsimp only
  rw [htrace]
  split
  next => exact plain_map hnote (fun m => { m with history := m.history.push line }) fun _ => rfl
  next => exact hnote

end Updates

/-! ## The parts of a step -/

theorem blind_observe (view : Core → Except BoardError α) : Blind (observe view) := by
  intro m₁ m₂ h
  have hview := eq_of_plain h (fun m => view m.core) fun _ => rfl
  unfold observe
  rw [hview]
  split
  next a _ => exact congrArg (EStateM.Result.ok a) h
  next e _ => exact congrArg (EStateM.Result.error _) h

/-- Microcode does not look at the limit. -/
theorem blind_perform (span : Option Span) (p : Microcode α) : Blind (perform span p) := by
  induction p with
  | done result => exact .pure result
  | read address next ih =>
    intro m₁ m₂ h
    have hread := eq_of_plain h (·.core.board.read address) fun _ => rfl
    simp only [perform, hread]
    split
    next v _ => exact ih v _ _ (plain_fire (plain_markRead h span address) .read address v)
    next e _ => exact congrArg (EStateM.Result.error _) h
  | write address value next ih =>
    exact fun m₁ m₂ h => ih _ _ (plain_fire (plain_poke h address value) .write address value)
  | inspect next ih =>
    intro m₁ m₂ h
    have hregisters := eq_of_plain h (·.core.registers) fun _ => rfl
    simp only [perform, hregisters]
    exact ih _ m₁ m₂ h
  | assign registers next ih =>
    exact fun m₁ m₂ h => ih _ _ (plain_mapCore h fun c => { c with registers := registers })

theorem blind_fetch : Blind fetch := by
  refine .get_bind (fun _ => rfl) fun m => .bind (blind_perform _ _) fun opcode => ?_
  exact .bind (.modify fun _ _ h => plain_fire h .execute _ opcode) fun _ => .pure _

theorem blind_decode (opcode : UInt8) : Blind (decode opcode) := by
  unfold decode
  split
  next => exact .pure _
  next => exact .get_bind (fun _ => rfl) fun m => .throw _

theorem blind_trace (i : Instruction) : Blind (trace i) := by
  refine .get_bind (fun _ => rfl) fun m => ?_
  split
  · refine .get_bind (fun _ => rfl) fun m => .bind (blind_observe _) fun line => ?_
    exact .modify fun _ _ h => plain_record h line
  · exact .pure _

theorem blind_markCode (addresses : List UInt16) : Blind (markCode addresses) := by
  induction addresses with
  | nil => exact .pure _
  | cons address rest ih =>
    refine .bind (blind_observe _) fun v => .bind ?_ fun _ => .bind ih fun _ => .pure _
    exact .modify fun _ _ h => plain_mark h address .executed

theorem blind_list (i : Instruction) (bytes : List UInt8) : Blind (list i bytes) := by
  refine .get_bind (fun _ => rfl) fun m => ?_
  split
  next offset _ =>
    split
    · refine .bind (blind_observe _) fun line => .modify fun _ _ h => ?_
      exact plain_map h (fun m => { m with log := m.log.visit offset line }) fun _ => rfl
    · exact .pure _
  next => exact .pure _
  next => exact .pure _

theorem blind_logCode (i : Instruction) : Blind (logCode i) := by
  refine .get_bind (fun _ => rfl) fun m => ?_
  split
  · exact .get_bind (fun _ => rfl) fun m => .bind (blind_markCode _) fun bytes => blind_list i bytes
  · exact .pure _

theorem blind_cycle : Blind cycle := by
  refine .bind blind_fetch fun opcode => .bind (blind_decode opcode) fun i => ?_
  refine .bind (blind_trace i) fun _ => .bind (blind_logCode i) fun _ => ?_
  refine .get_bind (fun _ => rfl) fun m => .bind (blind_perform _ _) fun _ => ?_
  exact .modify fun _ _ h => plain_map h (fun m => m.nest i) fun _ => rfl

/-- A step does not look at the limit, nor at the log texts. -/
theorem blind_step : Blind step := by
  refine .get_bind (fun _ => rfl) fun start => .bind blind_cycle fun _ => .bind ?_ fun _ => ?_
  · exact .modify fun _ _ h => plain_map h (fun m => { m with ticks := m.ticks + 1 }) fun _ => rfl
  · intro m₁ m₂ h
    have hstuck := eq_of_plain h
      (fun m => m.config.checkStuck && m.registers.pc == start.registers.pc) fun _ => rfl
    rw [get_bind_apply, get_bind_apply, hstuck]
    split
    · refine congrArg (EStateM.Result.error _) ?_
      rw [plain_note, plain_note]
      exact h
    · exact congrArg (EStateM.Result.ok _) h

/-! ## The history at the seam -/

/-- The history has the capacity that the configuration asks for, and keeps within it. -/
def HistoryFits (m : Machine) : Prop :=
  m.history.capacity = m.config.historyLength ∧ m.history.size ≤ m.history.capacity

/-- A history that fits is not changed by setting its capacity again. -/
theorem HistoryFits.setCapacity {m : Machine} (h : m.HistoryFits) :
    m.history.setCapacity m.config.historyLength = m.history := by
  rw [← h.1]
  exact History.shrink_of_le h.2

/-- New settings cut the history down to the size they give. -/
theorem historyFits_setConfig (m : Machine) (config : Config) : (m.setConfig config).HistoryFits :=
  ⟨History.capacity_setCapacity _ _, History.size_setCapacity_le _ _⟩

/-- A history that fits still fits afterwards. -/
def KeepsFit (m m' : Machine) : Prop := m.HistoryFits → m'.HistoryFits

instance : IsPreorder Machine KeepsFit where
  refl _ := id
  trans _ _ _ h k := k ∘ h

theorem keepsFit_mark (m : Machine) (address : UInt16) (u : Usage) :
    KeepsFit m (m.mark address u) := by
  obtain ⟨log, hmark⟩ := m.mark_eq address u
  rw [hmark]
  exact id

/-- Whatever a step does, the history keeps to its size. -/
theorem eachUpdate_keepsFit : EachUpdate KeepsFit where
  fire m events address value := by
    obtain ⟨journal, hfire, -⟩ := m.fire_eq events address value
    rw [hfire]
    exact id
  markLoaded m address := keepsFit_mark m address .loaded
  markExecuted m address := keepsFit_mark m address .executed
  poke m address value := by
    obtain ⟨journal, hpoke, -⟩ := m.poke_eq address value
    rw [hpoke]
    exact id
  setRegisters _ _ := id
  record m line h := by
    obtain ⟨journal, hrecord, -⟩ := m.record_eq line
    rw [hrecord]
    unfold HistoryFits
    dsimp only
    split
    next => exact ⟨(History.capacity_push _ _).trans h.1,
      (History.size_push_le h.2 line).trans (History.capacity_push _ _).ge⟩
    next => exact h
  visit _ _ _ := id
  nest _ _ := id
  tick _ := id
  note _ _ _ := id

/-! ## Limits -/

/-- The machine with a limit for its next run. Reaching the limit is no fault. -/
def limited (m : Machine) (n : Nat) : Machine :=
  m.setConfig { m.config with limit := some n, limitIsError := false }

/-- To set another limit is all that the next limit does to a machine that had one. -/
theorem plain_limited {m : Machine} (hfits : m.HistoryFits) (hmode : m.config.limitIsError = false)
    (n : Nat) : (m.limited n).plain = m.plain := by
  have hhistory := hfits.setCapacity
  unfold limited setConfig plain
  dsimp only
  rw [hhistory, ← hmode]

theorem plain_foldl_note (level : Level) (texts : List String) (m : Machine) :
    (texts.foldl (fun m text => m.note level fun _ => text) m).plain = m.plain := by
  induction texts generalizing m with
  | nil => rfl
  | cons text rest ih => exact (ih _).trans (plain_note m level _)

theorem blind_fault (error : ExecutionError) : Blind (fault error : EStateM Fault Machine α) := by
  intro m₁ m₂ h
  have hlines := eq_of_plain h (·.history.lines) fun _ => rfl
  simp only [fault, plainly, plain_foldl_note, hlines, h]

/-- With the same way to the limit two plain machines that are equal decide alike. -/
theorem boundary_of_plain {m₁ m₂ : Machine} (h : m₁.plain = m₂.plain)
    (hmode : m₁.config.limitIsError = false) {j₁ j₂ r : Nat}
    (hlimit₁ : m₁.config.limit = some (j₁ + r)) (hlimit₂ : m₂.config.limit = some (j₂ + r)) :
    m₁.boundary j₁ = m₂.boundary j₂ := by
  have hdepth := eq_of_plain h (·.depth) fun _ => rfl
  have hhalted := eq_of_plain h (·.halted) fun _ => rfl
  have hmode₂ := eq_of_plain h (·.config.limitIsError) fun _ => rfl
  have hopcode := eq_of_plain h (·.config.stopOpcode) fun _ => rfl
  have hnext := eq_of_plain h (fun m => m.core.peekByte m.registers.pc) fun _ => rfl
  have hdue : (decide (j₁ + r ≤ j₁)) = decide (j₂ + r ≤ j₂) := by
    rw [decide_eq_decide]
    omega
  rw [hmode] at hmode₂
  simp only [boundary, hdepth, hhalted, hlimit₁, hlimit₂, Option.any_some, hdue, hmode, ← hmode₂,
    hopcode, hnext, Bool.false_eq_true, if_false]

/-! ## Runs -/

/-- Runs that stop for the same reason leave alike machines. -/
theorem plain_settle {m₁ m₂ : Machine} (h : m₁.plain = m₂.plain) (outcome : Outcome) :
    (m₁.settle outcome).plain = (m₂.settle outcome).plain :=
  plain_map h (fun m => m.settle outcome) fun _ => by cases outcome <;> rfl

/-- Where the boundary ends the run, the budget and the count do not matter. -/
theorem runFrom_of_ne_proceed {m₁ m₂ : Machine} (h : m₁.plain = m₂.plain) {j₁ j₂ : Nat}
    (hsame : m₁.boundary j₁ = m₂.boundary j₂) (hends : m₂.boundary j₂ ≠ .proceed) (b₁ b₂ : Nat) :
    plainly (runFrom b₁ j₁ m₁) = plainly (runFrom b₂ j₂ m₂) := by
  cases hboundary : m₂.boundary j₂ with
  | proceed => exact absurd hboundary hends
  | stop outcome =>
    obtain ⟨text₁, hrun₁⟩ := runFrom_of_stop (hsame.trans hboundary) b₁
    obtain ⟨text₂, hrun₂⟩ := runFrom_of_stop hboundary b₂
    rw [hrun₁, hrun₂, plainly, plainly, plain_note, plain_note, plain_settle h]
  | fail error =>
    rw [runFrom_of_fail (hsame.trans hboundary), runFrom_of_fail hboundary]
    exact blind_fault error m₁ m₂ h

theorem boundary_ne_proceed {m : Machine} {executed : Nat} (h : m.AtLimit executed) :
    m.boundary executed ≠ .proceed := by
  intro hboundary
  have hproceeds := boundary_spec m executed
  rw [hboundary] at hproceeds
  exact hproceeds.not_atLimit h

/-- Runs that may still make `r` steps end alike, whatever has been counted before. The induction is
on `r`; that the plain machines are equal is the invariant. -/
theorem runFrom_of_plain {m₁ m₂ : Machine} (h : m₁.plain = m₂.plain)
    (hmode : m₁.config.limitIsError = false) {j₁ j₂ r b₁ b₂ : Nat}
    (hlimit₁ : m₁.config.limit = some (j₁ + r)) (hlimit₂ : m₂.config.limit = some (j₂ + r))
    (hb₁ : r ≤ b₁) (hb₂ : r ≤ b₂) :
    plainly (runFrom b₁ j₁ m₁) = plainly (runFrom b₂ j₂ m₂) := by
  induction r generalizing m₁ m₂ j₁ j₂ b₁ b₂ with
  | zero =>
    -- Nothing is left, so both runs are at their limits.
    have hsame := boundary_of_plain h hmode hlimit₁ hlimit₂
    exact runFrom_of_ne_proceed h hsame (boundary_ne_proceed ⟨j₂, hlimit₂, le_refl j₂⟩) b₁ b₂
  | succ r ih =>
    have hsame := boundary_of_plain h hmode hlimit₁ hlimit₂
    cases b₁ with
    | zero => cases hb₁
    | succ b₁ =>
    cases b₂ with
    | zero => cases hb₂
    | succ b₂ =>
    by_cases hboundary : m₂.boundary j₂ = .proceed
    · cases hstep₁ : step m₁ with
      | ok u m₁' =>
        obtain ⟨m₂', hstep₂, hplain⟩ := blind_step.exists_ok h hstep₁
        rw [runFrom_succ_of_ok (hsame.trans hboundary) hstep₁, runFrom_succ_of_ok hboundary hstep₂]
        refine ih hplain ?_ ?_ ?_ (Nat.le_of_succ_le_succ hb₁) (Nat.le_of_succ_le_succ hb₂)
        · rw [config_of_step_ok hstep₁, hmode]
        · rw [config_of_step_ok hstep₁, hlimit₁, Nat.succ_add_eq_add_succ]
        · rw [config_of_step_ok hstep₂, hlimit₂, Nat.succ_add_eq_add_succ]
      | error e m₁' =>
        obtain ⟨m₂', hstep₂, hplain⟩ := blind_step.exists_error h hstep₁
        rw [runFrom_succ_of_error (hsame.trans hboundary) hstep₁,
          runFrom_succ_of_error hboundary hstep₂]
        exact blind_fault e m₁' m₂' hplain
    · exact runFrom_of_ne_proceed h hsame hboundary _ _

/-- A course is one from a plainly equal machine too, as long as the limit there allows it. -/
theorem Course.of_plain {m₁ m₂ mk : Machine} {k : Nat} (h : Course m₁ k mk)
    (hplain : m₁.plain = m₂.plain) (hlimit : ∀ limit, m₂.config.limit = some limit → k ≤ limit) :
    ∃ mk', Course m₂ k mk' ∧ mk.plain = mk'.plain := by
  induction k generalizing mk with
  | zero =>
    cases h.steps_eq
    exact ⟨m₂, .start m₂, hplain⟩
  | succ k ih =>
    obtain ⟨mj, hcourse, hproceeds, hstep⟩ := h.init
    obtain ⟨mj', hcourse', hsame⟩ := ih hcourse fun limit hl => Nat.le_of_succ_le (hlimit limit hl)
    obtain ⟨mk', hstep', hplain'⟩ := blind_step.exists_ok hsame hstep
    refine ⟨mk', hcourse'.extend (proceeds_iff.mpr ?_) hstep', hplain'⟩
    have hdepth := eq_of_plain hsame (·.depth) fun _ => rfl
    have hhalted := eq_of_plain hsame (·.halted) fun _ => rfl
    have hopcode := eq_of_plain hsame (·.config.stopOpcode) fun _ => rfl
    have hnext := eq_of_plain hsame (fun m => m.core.peekByte m.registers.pc) fun _ => rfl
    obtain ⟨hinside, hgoing⟩ := proceeds_iff.mp hproceeds
    refine ⟨?_, ?_⟩
    · rwa [HasReturned, ← hdepth]
    · rintro (hhalt | ⟨limit, hl, hle⟩ | hstop)
      · exact hgoing (.inl (hhalted.trans hhalt))
      · rw [hcourse'.config] at hl
        exact absurd (hlimit limit hl) (Nat.not_le.mpr (Nat.lt_succ_of_le hle))
      · rw [← hopcode, ← hnext] at hstop
        exact hgoing (.inr (.inr hstop))

/-- A run that has reached its limit has gone just as far, and has written a record. -/
theorem course_of_limitReached {m m' : Machine} {n budget : Nat}
    (h : run budget (m.limited n) = .ok (some .limitReached) m') :
    ∃ mn text, Course (m.limited n) n mn ∧ m' = mn.note .info text := by
  obtain ⟨k, mn, hk, hstopped⟩ := stoppedBehind_of_run h
  have hcourse := hstopped.course
  have hreached : n ≤ k := by
    cases hstopped.condition with
    | limitReached _ _ hlimit _ =>
      obtain ⟨limit, hl, hle⟩ := hlimit
      rw [hcourse.config] at hl
      cases hl
      exact hle
  cases le_antisymm hreached (hcourse.le_limit rfl)
  have hboundary := boundary_spec mn n
  obtain ⟨rest, rfl⟩ := Nat.exists_eq_add_of_le hk
  rw [hcourse.runFrom_eq] at h
  cases hb : mn.boundary n with
  | stop outcome =>
    obtain ⟨text, hrun⟩ := runFrom_of_stop hb rest
    rw [hrun] at h
    cases h
    exact ⟨mn, text, hcourse, rfl⟩
  | fail error =>
    rw [runFrom_of_fail hb] at h
    cases h
  | proceed => rw [hb] at hboundary; exact absurd hstopped.condition (hboundary _)

/-- A limit that is no more than the budget ends the run. -/
theorem run_limited_ne_none {m m' : Machine} {n budget : Nat} (h : n ≤ budget) :
    run budget (m.limited n) ≠ .ok none m' := by
  intro hrun
  have hends := (Course.start (m.limited n)).runEnds budget
  rw [Nat.zero_add, ← run, hrun] at hends
  exact absurd (hends.2.2.2 n rfl) (Nat.not_lt.mpr h)

/-- A run that reaches its limit of `n` instructions and is continued with a limit of `k` does what
one run with the limit `n + k` does: it ends with the same outcome, or with the same error and the
same trace, and leaves the same machine, except for the limit that is set and for the log records.
-/
theorem split_run {m m₁ : Machine} {n k b₁ b₂ b₃ : Nat}
    (hfirst : run b₁ (m.limited n) = .ok (some .limitReached) m₁) (hb₂ : k ≤ b₂)
    (hb₃ : n + k ≤ b₃) :
    plainly (run b₂ (m₁.limited k)) = plainly (run b₃ (m.limited (n + k))) ∧
      ∀ m', run b₂ (m₁.limited k) ≠ .ok none m' := by
  refine ⟨?_, fun m' => run_limited_ne_none hb₂⟩
  obtain ⟨mn, text, hcourse, rfl⟩ := course_of_limitReached hfirst
  have hmode : mn.config.limitIsError = false := by rw [hcourse.config]; rfl
  have hfits : mn.HistoryFits :=
    (eachUpdate_keepsFit.leaves_steps n).of_ok hcourse.steps_eq (historyFits_setConfig m _)
  -- The one run passes the seam in a machine that is plainly the one the second run starts with.
  have hstart : (m.limited n).plain = (m.limited (n + k)).plain := rfl
  obtain ⟨mn', hcourse', hplain⟩ := hcourse.of_plain hstart
    fun limit hlimit => by cases hlimit; exact Nat.le_add_right n k
  have hseam : ((mn.note .info text).limited k).plain = mn'.plain := by
    have hlimited := plain_limited (m := mn.note .info text) hfits hmode k
    rw [hlimited, plain_note, hplain]
  obtain ⟨rest, rfl⟩ := Nat.exists_eq_add_of_le hb₃
  rw [Nat.add_assoc, hcourse'.runFrom_eq]
  refine runFrom_of_plain hseam rfl (r := k) ?_ ?_ hb₂ (Nat.le_add_right k rest)
  · rw [Nat.zero_add]
    rfl
  · rw [hcourse'.config]
    rfl

/-- Two instructions and then three are five, in a routine that has not returned yet. -/
theorem split_run_in_routine :
    ∃ m₁, run 2 (callingRoutine.limited 2) = .ok (some .limitReached) m₁ ∧
      plainly (run 3 (m₁.limited 3)) = plainly (run 5 (callingRoutine.limited 5)) := by
  have hrun : succeedsWith (fun outcome _ => outcome == some .limitReached)
      (run 2 (callingRoutine.limited 2)) = true := by decide +kernel
  obtain ⟨outcome, m₁, hok, hend⟩ := exists_of_succeedsWith hrun
  cases beq_iff_eq.mp hend
  exact ⟨m₁, hok, (split_run hok (le_refl 3) (le_refl 5)).1⟩

end Machine

end Mos6502
