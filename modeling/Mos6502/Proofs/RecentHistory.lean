import Mos6502.Proofs.BoundedHistory
import Mos6502.Proofs.FailedSteps
import Mos6502.Proofs.FramingBits
import Mos6502.Proofs.SplitRuns

/-!
# What the history remembers

While instructions are traced, each that can be shown has its line pushed into the history once it
is fetched and before it does anything. So the history is at every moment what is left of these
lines (`Records`), and a fault carries the last of them (`Reports`). The line of an instruction that
fails is among them exactly if the bytes that it shows could be read (`exists_tracedLine_iff`): it
is missing where there is no instruction, or no complete one.
-/

namespace Mos6502

/-! ## Instructions that can be shown -/

/-- Either everything can be read, or something is the first that cannot. -/
theorem Board.forall_read_iff {b : Board} {order : List UInt16} :
    (∀ address ∈ order, ∃ v, b.read address = .ok v) ↔
      ∀ e, ¬∃ missing, b.FirstUnreadable order missing e := by
  induction order with
  | nil => exact ⟨fun _ e ⟨missing, h⟩ => (nomatch h), fun _ _ h => (List.not_mem_nil h).elim⟩
  | cons address rest ih =>
    rw [List.forall_mem_cons]
    cases hread : b.read address with
    | ok v => simp only [FirstUnreadable.cons_iff_of_ok hread, ← ih, Except.ok.injEq, exists_eq',
        true_and]
    | error e =>
      refine ⟨fun h => ?_, fun h => absurd ⟨address, .here hread⟩ (h e)⟩
      obtain ⟨⟨v, hv⟩, -⟩ := h
      cases hv

/-- A look succeeds if each of its reads does. -/
theorem Microcode.ReadsOnly.exists_peek_iff {α : Type} {p : Microcode α} (h : p.ReadsOnly)
    (c : Core) :
    (∃ a, p.peek c = .ok a) ↔ ∀ address ∈ p.reads c, ∃ v, c.board.read address = .ok v := by
  simp only [Board.forall_read_iff, ← h.peek_eq_error_iff]
  cases p.peek c <;> simp

namespace Instruction

variable {i : Instruction} {c : Core}

/-- Where everything lies that a trace line needs and that may be missing: the bytes of the
instruction, and those of its pointer if it has one. -/
def shownAddresses (i : Instruction) (b : Board) (r : Registers) : List UInt16 :=
  (Span.mk r.pc i.size).addresses ++ (i.mode.pointer? b r).elim [] wordAddresses

/-- The operand bytes belong to the instruction. -/
theorem operandAddresses_subset (i : Instruction) (pc : UInt16) :
    i.mode.operandAddresses pc ⊆ (Span.mk pc i.size).addresses := by
  have htwo : pc + 2 = pc + 1 + 1 := by rw [UInt16.add_assoc]; rfl
  have hsize : i.size = i.mode.size := rfl
  rw [Span.addresses, hsize]
  cases i.mode <;>
    simp [AddressingMode.operandAddresses, AddressingMode.size, wordAddresses, List.range_succ,
      htwo]

/-- The bytes of an instruction are available if each of them can be read. -/
theorem exists_instructionBytes_iff (i : Instruction) (c : Core) :
    (∃ bytes, c.instructionBytes i.size = .ok bytes) ↔
      ∀ address ∈ (Span.mk c.registers.pc i.size).addresses,
        ∃ v, c.board.read address = .ok v := by
  rw [Span.addresses, List.forall_mem_map]
  exact exists_mapM_ok_iff

/-- A trace line can be rendered if the instruction and its pointer can be read. The stack always
can, and so can the byte that a page-zero operand shows. -/
theorem exists_traceLine_iff (ticks : Nat) :
    (∃ line, c.traceLine ticks i = .ok line) ↔
      ∀ address ∈ i.shownAddresses c.board c.registers, ∃ v, c.board.read address = .ok v := by
  have hresolve := (Microcode.readsOnly_resolve i.mode).exists_peek_iff c
  rw [i.mode.reads_resolve, AddressingMode.readOrder, List.forall_mem_append] at hresolve
  rw [shownAddresses, List.forall_mem_append, ← exists_instructionBytes_iff]
  constructor
  · rintro ⟨line, hline⟩
    obtain ⟨bytes, hbytes, hrest⟩ := except_bind_eq_ok.mp hline
    obtain ⟨operand, hoperand, -⟩ := except_bind_eq_ok.mp hrest
    obtain ⟨address, haddress, -⟩ := except_bind_eq_ok.mp hoperand
    exact ⟨⟨bytes, hbytes⟩, (hresolve.mp ⟨address, haddress⟩).2⟩
  · rintro ⟨⟨bytes, hbytes⟩, hpointer⟩
    have hread := (exists_instructionBytes_iff i c).mp ⟨bytes, hbytes⟩
    obtain ⟨address, haddress⟩ := hresolve.mpr
      ⟨fun a ha => hread a (operandAddresses_subset i _ ha), hpointer⟩
    obtain ⟨stack, hstack⟩ := c.exists_stackText
    cases hoperand : c.operand i.mode with
    | error e => exact absurd (haddress.symm.trans (resolve_of_operand_error hbytes hoperand)) nofun
    | ok operand =>
      exact ⟨_, except_bind_eq_ok.mpr ⟨bytes, hbytes, except_bind_eq_ok.mpr
        ⟨operand, hoperand, except_bind_eq_ok.mpr ⟨stack, hstack, rfl⟩⟩⟩⟩

end Instruction

namespace Machine

variable {m m' m'' : Machine} {begun more : List Machine}

/-- The line that a step traces: that of the instruction at the program counter, rendered behind the
fetch and before anything else happens. -/
def tracedLine? (m : Machine) : Option String :=
  match fetch m with
  | .ok opcode m₁ =>
    (Instruction.decode opcode).bind fun i => (m₁.core.traceLine m₁.ticks i).toOption
  | .error _ _ => none

/-- The lines of instructions, as each is traced by the machine in front of it. -/
def tracedLines (begun : List Machine) : List String := begun.filterMap tracedLine?

theorem tracedLines_append (begun more : List Machine) :
    tracedLines (begun ++ more) = tracedLines begun ++ tracedLines more := List.filterMap_append

theorem tracedLines_singleton (m : Machine) : tracedLines [m] = m.tracedLine?.toList := by
  cases hline : m.tracedLine? <;> simp [tracedLines, hline]

/-- An instruction lies at the program counter, and it can be read with its operand and the pointer
that it may have. -/
def Renders (m : Machine) : Prop :=
  ∃ i : Instruction, i.FetchedFrom m.core ∧
    ∀ address ∈ i.shownAddresses m.board m.registers, ∃ v, m.board.read address = .ok v

/-- The fetch does not show in the line. -/
theorem tracedLine_of_fetchedFrom {i : Instruction} (h : i.FetchedFrom m.core) :
    m.tracedLine? = (m.core.traceLine m.ticks i).toOption := by
  obtain ⟨opcode, hread, hdecode⟩ := h
  have hfetch := fetch_of_read hread
  have hcore := (fetch_eq_ok hfetch).2
  have hticks := (leaves_fetch.of_ok hfetch).ticks
  simp only [tracedLine?, hfetch, hdecode, Option.bind_some, hcore, hticks]

theorem fetchedFrom_of_tracedLine {line : String} (h : m.tracedLine? = some line) :
    ∃ i : Instruction, i.FetchedFrom m.core := by
  unfold tracedLine? at h
  split at h
  next opcode m₁ hfetch =>
    obtain ⟨i, hdecode, -⟩ := Option.bind_eq_some_iff.mp h
    exact ⟨i, opcode, (fetch_eq_ok hfetch).1, hdecode⟩
  next => cases h

/-- A step traces a line exactly if the instruction and what it points at can be read. -/
theorem exists_tracedLine_iff : (∃ line, m.tracedLine? = some line) ↔ m.Renders := by
  constructor
  · rintro ⟨line, hline⟩
    obtain ⟨i, hi⟩ := fetchedFrom_of_tracedLine hline
    rw [tracedLine_of_fetchedFrom hi] at hline
    cases htext : m.core.traceLine m.ticks i with
    | ok text => exact ⟨i, hi, (Instruction.exists_traceLine_iff m.ticks).mp ⟨text, htext⟩⟩
    | error e => rw [htext] at hline; cases hline
  · rintro ⟨i, hi, hshown⟩
    obtain ⟨line, hline⟩ := (Instruction.exists_traceLine_iff m.ticks).mpr hshown
    exact ⟨line, by rw [tracedLine_of_fetchedFrom hi, hline]; rfl⟩

/-! ## What touches the history -/

structure SameHistory (m m' : Machine) : Prop where
  config : m'.config = m.config
  history : m'.history = m.history

instance : IsPreorder Machine SameHistory where
  refl _ := ⟨rfl, rfl⟩
  trans _ _ _ h k := ⟨k.config.trans h.config, k.history.trans h.history⟩

theorem Rests.sameHistory (h : Rests m m') : SameHistory m m' := ⟨h.config, h.history⟩

theorem sameHistory_mark (m : Machine) (address : UInt16) (u : Usage) :
    SameHistory m (m.mark address u) := by
  obtain ⟨log, hmark⟩ := m.mark_eq address u
  rw [hmark]
  exact ⟨rfl, rfl⟩

/-- Accesses and notes leave the history alone, -/
theorem eachOutside_sameHistory : EachOutside SameHistory where
  fire m events address value := by
    obtain ⟨journal, hfire, -⟩ := m.fire_eq events address value
    rw [hfire]
    exact ⟨rfl, rfl⟩
  markLoaded m address := sameHistory_mark m address .loaded
  poke m address value := by
    obtain ⟨journal, hpoke, -⟩ := m.poke_eq address value
    rw [hpoke]
    exact ⟨rfl, rfl⟩
  setRegisters _ _ := ⟨rfl, rfl⟩
  note _ _ _ := ⟨rfl, rfl⟩

/-- and so does the log. -/
theorem eachListing_sameHistory : EachListing SameHistory where
  markExecuted m address := sameHistory_mark m address .executed
  visit _ _ _ := ⟨rfl, rfl⟩

theorem sameHistory_perform (span : Option Span) (p : Microcode Unit) (m : Machine) :
    SameHistory m (finalState (perform span p m)) :=
  eachOutside_sameHistory.leaves_perform span p m

theorem sameHistory_enter (address : UInt16) (m : Machine) : SameHistory m (m.enter address) :=
  have hpushed := sameHistory_perform none (Microcode.pushWord (m.registers.pc - 1)) m
  ⟨hpushed.config, hpushed.history⟩

/-! ## Steps -/

/-- Trace lines are recorded, into a history as long as the configuration says. -/
structure Recording (m : Machine) : Prop where
  trace : m.config.trace = true
  fits : m.HistoryFits

/-- Since the first of the two moments the history has got the lines of these instructions, and
nothing else; and the settings that it depends on have stayed. -/
structure Records (begun : List Machine) (m m' : Machine) : Prop where
  trace : m'.config.trace = m.config.trace
  historyLength : m'.config.historyLength = m.config.historyLength
  history : m'.history = m.history.pushAll (tracedLines begun)

/-- A history that stays the same records no step. -/
theorem SameHistory.records (h : SameHistory m m') : Records [] m m' :=
  ⟨by rw [h.config], by rw [h.config], h.history⟩

namespace Records

theorem trans (h : Records begun m m') (k : Records more m' m'') :
    Records (begun ++ more) m m'' where
  trace := k.trace.trans h.trace
  historyLength := k.historyLength.trans h.historyLength
  history := by
    rw [k.history, h.history, ← History.pushAll_append, tracedLines_append]

theorem trans_same (h : Records begun m m') (k : SameHistory m' m'') : Records begun m m'' := by
  simpa only [List.append_nil] using h.trans k.records

theorem recording (h : Records begun m m') (hm : m.Recording) : m'.Recording where
  trace := h.trace.trans hm.trace
  fits := by
    rw [HistoryFits, h.history, History.capacity_pushAll, h.historyLength]
    exact ⟨hm.fits.1, History.size_pushAll_le hm.fits.2 _⟩

/-- Of the lines that it has got since it was empty, the history holds the last. -/
theorem lines_eq (h : Records begun m m') (hm : m.Recording) (hempty : m.history.lines = []) :
    m'.history.lines = (tracedLines begun).rtake m.config.historyLength := by
  rw [h.history, History.lines_pushAll hm.fits.2, hempty, List.nil_append, hm.fits.1]

end Records

/-- A step without a line of its own leaves the history as it was. -/
theorem SameHistory.records_of_none (h : SameHistory m m') (hnone : m.tracedLine? = none) :
    Records [m] m m' :=
  ⟨by rw [h.config], by rw [h.config], by rw [tracedLines_singleton, hnone]; exact h.history⟩

theorem SameHistory.records_record {line : String} (h : SameHistory m m')
    (htrace : m.config.trace = true) (hline : m.tracedLine? = some line) :
    Records [m] m (m'.record line) := by
  obtain ⟨journal, hrecord, -⟩ := m'.record_eq line
  rw [hrecord]
  refine ⟨by rw [h.config], by rw [h.config], ?_⟩
  rw [tracedLines_singleton, hline, h.config, if_pos htrace, h.history]
  rfl

/-- Nothing but the trace line gets into the history, and it does before anything happens that may
fail. -/
theorem records_cycle (htrace : m.config.trace = true) : Records [m] m (finalState (cycle m)) := by
  -- Whatever comes behind the trace line does not touch the history.
  have hbehind (i : Instruction) : Leaves SameHistory (logCode i >>= fun _ => do
      let pc := (← get).registers.pc
      perform (some ⟨pc, i.size⟩) i.microcode
      modify (·.nest i)) :=
    .bind (eachListing_sameHistory.leaves_logCode i) fun _ => .get_bind fun m =>
      .bind (eachOutside_sameHistory.leaves_perform _ _) fun _ => .modify fun m => ⟨rfl, rfl⟩
  cases hfetch : fetch m with
  | error e m₁ =>
    have hfetched : SameHistory m m₁ := eachOutside_sameHistory.leaves_fetch.of_error hfetch
    rw [show cycle m = .error e m₁ from bind_of_error hfetch]
    exact hfetched.records_of_none (by simp only [tracedLine?, hfetch])
  | ok opcode m₁ =>
    have hfetched : SameHistory m m₁ := eachOutside_sameHistory.leaves_fetch.of_ok hfetch
    cases hdecode : Instruction.decode opcode with
    | none =>
      rw [cycle, bind_of_ok hfetch, bind_of_error (decode_of_none hdecode m₁)]
      exact hfetched.records_of_none (by simp only [tracedLine?, hfetch, hdecode, Option.bind_none])
    | some i =>
      have hline : m.tracedLine? = (m₁.core.traceLine m₁.ticks i).toOption := by
        simp only [tracedLine?, hfetch, hdecode, Option.bind_some]
      have htraced := trace_apply i m₁
      rw [if_pos (by rw [tracing, hfetched.config, htrace, Bool.true_or])] at htraced
      rw [cycle, bind_of_ok hfetch, bind_of_ok (decode_of_some hdecode m₁)]
      cases htext : m₁.core.traceLine m₁.ticks i with
      | error e =>
        rw [bind_of_error (observe_of_error htext)] at htraced
        rw [bind_of_error htraced]
        exact hfetched.records_of_none (by rw [hline, htext]; rfl)
      | ok line =>
        rw [bind_of_ok (observe_of_ok htext)] at htraced
        rw [bind_of_ok htraced]
        exact (hfetched.records_record htrace (by rw [hline, htext]; rfl)).trans_same (hbehind i _)

/-- A step records its line, also when it fails behind it. -/
theorem records_step (htrace : m.config.trace = true) : Records [m] m (finalState (step m)) := by
  have hcycle := records_cycle htrace
  rw [step_apply]
  cases h : cycle m with
  | error e m₁ => rwa [h] at hcycle
  | ok u m₁ =>
    rw [h] at hcycle
    refine hcycle.trans_same ?_
    dsimp only
    split <;> exact ⟨rfl, rfl⟩

/-! ## Runs -/

/-- Each of these instructions finds in the history the lines of those in front of it. -/
def RecordsInside (begun : List Machine) (m : Machine) : Prop :=
  ∀ earlier mk later, begun = earlier ++ mk :: later → Records earlier m mk

theorem recordsInside_nil (m : Machine) : RecordsInside [] m := fun earlier mk later h => by
  cases List.append_eq_nil_iff.mp h.symm |>.2

theorem RecordsInside.cons (h : RecordsInside begun m') (hfirst : Records [m] m m') :
    RecordsInside (m :: begun) m := by
  intro earlier mk later hbegun
  cases earlier with
  | nil =>
    cases hbegun
    exact (refl m : SameHistory m m).records
  | cons k rest =>
    cases hbegun
    exact hfirst.trans (h rest mk later rfl)

theorem RecordsInside.of_sameHistory (h : RecordsInside begun m') (hsame : SameHistory m m') :
    RecordsInside begun m :=
  fun earlier mk later hbegun => hsame.records.trans (h earlier mk later hbegun)

/-- A run records the lines of its steps, by induction on the budget. -/
theorem records_runFrom (budget executed : Nat) (htrace : m.config.trace = true) :
    Records (begunFrom budget executed m) m (finalState (runFrom budget executed m)) ∧
      RecordsInside (begunFrom budget executed m) m := by
  revert htrace
  refine runFrom_induct_fault (motive := fun begun m r => m.config.trace = true →
    Records begun m (finalState r) ∧ RecordsInside begun m) ?_ ?_ ?_ ?_ budget executed m
  · exact fun m outcome m' h _ => ⟨h.sameHistory.records, recordsInside_nil m⟩
  · exact fun m executed e m' _ h _ => ⟨h.sameHistory.records, recordsInside_nil m⟩
  · intro m m' begun r hstep ih htrace
    have hfirst := records_step htrace
    rw [hstep] at hfirst
    obtain ⟨hrest, hinside⟩ := ih (hfirst.trace.trans htrace)
    exact ⟨hfirst.trans hrest, hinside.cons hfirst⟩
  · intro m m' e m'' hstep h htrace
    have hfirst := records_step htrace
    rw [hstep] at hfirst
    exact ⟨hfirst.trans_same h.sameHistory, (recordsInside_nil m').cons hfirst⟩

/-! ## Interactions -/

/-- Every operation records the lines of the steps that it begins. -/
theorem records_act (op : Operation) (htrace : m.config.trace = true) :
    Records (Interaction.begun m (.operation op)) m (finalState (op.act m)) := by
  cases op with
  | step => exact records_step htrace
  | run budget =>
    rw [Operation.act, finalState_ofFault]
    exact (records_runFrom budget 0 htrace).1
  | runRoutine address budget =>
    have henter := sameHistory_enter address m
    have hrun := (records_runFrom budget 0 (by rw [henter.config, htrace])).1
    rw [Operation.act, finalState_ofFault]
    exact (henter.records.trans hrun).trans_same (rests_runRoutine address budget m).sameHistory
  | interrupt i => exact (eachOutside_sameHistory.leaves_interrupt i m).records
  | irq =>
    rw [Operation.act, finalState_bind_pure]
    exact (eachOutside_sameHistory.leaves_irq m).records
  | access p => exact (sameHistory_perform none p m).records
  | look view =>
    rw [Operation.act, finalState_observe]
    exact (refl m : SameHistory m m).records

/-- A hard reset forgets the history at its end, so it does not where it fails. -/
theorem sameHistory_hardReset (h : ¬ Succeeds (hardReset m)) :
    SameHistory m (finalState (hardReset m)) := by
  rw [hardReset, modify_bind_apply] at h ⊢
  cases hpc : Core.peekWord ⟨.powerOn, m.core.board.clearRam⟩ Interrupt.reset.vector with
  | ok pc =>
    rw [bind_of_ok (observe_of_ok hpc)] at h
    exact absurd ⟨(), _, rfl⟩ h
  | error e =>
    rw [bind_of_error (observe_of_error hpc)]
    exact ⟨rfl, rfl⟩

/-- The disturbance neither empties the history nor changes how it is kept. -/
def Disturbance.Remembers (m : Machine) : Disturbance → Prop
  | hardReset => ¬ Succeeds (Machine.hardReset m)
  | configure config =>
    config.trace = m.config.trace ∧ config.historyLength = m.config.historyLength
  | call _ | interrupt _ | write .. | poke .. | clearRam | restore _ => True

theorem records_disturbance (d : Disturbance) (hm : m.Recording) (hd : d.Remembers m) :
    Records (Interaction.begun m (.disturbance d)) m (d.apply m) := by
  cases d with
  | call c =>
    cases c with
    | step =>
      rw [Disturbance.apply, Call.act, finalState_bind_pure]
      exact records_step hm.trace
    | nmi =>
      rw [Disturbance.apply, Call.act, finalState_bind_pure]
      exact (eachOutside_sameHistory.leaves_interrupt .nmi m).records
    | reset =>
      rw [Disturbance.apply, Call.act, finalState_bind_pure]
      exact (eachOutside_sameHistory.leaves_interrupt .reset m).records
    | irq => exact (eachOutside_sameHistory.leaves_irq m).records
  | interrupt i => exact (eachOutside_sameHistory.leaves_interrupt i m).records
  | write address value =>
    exact (sameHistory_perform none (Microcode.writeByte address value) m).records
  | poke address value => exact (eachOutside_sameHistory.poke m address value).records
  | clearRam => exact SameHistory.records ⟨rfl, rfl⟩
  | hardReset => exact (sameHistory_hardReset hd).records
  | restore s =>
    refine SameHistory.records ?_
    rw [Disturbance.apply, restoreBoard]
    split <;> exact ⟨rfl, rfl⟩
  | configure config =>
    refine ⟨hd.1, hd.2, ?_⟩
    -- The new settings ask for the capacity that the history has.
    have hkept := hm.fits.setCapacity
    rw [← hd.2] at hkept
    exact hkept

namespace Interaction

/-- The interaction neither empties the history nor changes how it is kept. -/
def Remembers (m : Machine) : Interaction → Prop
  | disturbance d => d.Remembers m
  | operation _ | setRegisters _ | changeBoard _ | register .. | changeBreakpoints _ | halt
  | clearHalt | clearLog => True

/-- None of the interactions, one after the other, empties the history or changes how it is kept. -/
def AllRemember (m : Machine) : List Interaction → Prop
  | [] => True
  | i :: rest => i.Remembers m ∧ AllRemember (i.apply m) rest

/-- The machines in front of all instructions that some interactions execute. -/
def begunBy (m : Machine) : List Interaction → List Machine
  | [] => []
  | i :: rest => i.begun m ++ begunBy (i.apply m) rest

theorem recordsInside_begun (i : Interaction) (htrace : m.config.trace = true) :
    RecordsInside (i.begun m) m := by
  have hstep : RecordsInside [m] m := (recordsInside_nil _).cons (records_step htrace)
  unfold begun
  split
  next => exact hstep
  next => exact hstep
  next budget => exact (records_runFrom budget 0 htrace).2
  next address budget =>
    have henter := sameHistory_enter address m
    exact (records_runFrom budget 0 (by rw [henter.config, htrace])).2.of_sameHistory henter
  next => exact recordsInside_nil m

theorem records_apply (i : Interaction) (hm : m.Recording) (hi : i.Remembers m) :
    Records (i.begun m) m (i.apply m) := by
  cases i with
  | operation op => exact records_act op hm.trace
  | disturbance d => exact records_disturbance d hm hi
  | setRegisters | changeBoard | register | changeBreakpoints | halt | clearHalt | clearLog =>
    exact SameHistory.records ⟨rfl, rfl⟩

theorem records_foldl (is : List Interaction) (hm : m.Recording) (his : AllRemember m is) :
    Records (begunBy m is) m (is.foldl apply m) := by
  induction is generalizing m with
  | nil => exact (refl m : SameHistory m m).records
  | cons i rest ih =>
    have hfirst := i.records_apply hm his.1
    exact hfirst.trans (ih (hfirst.recording hm) his.2)

end Interaction

/-! ## Faults -/

/-- An error comes from the last of these instructions, in front of which `mk` is the machine. -/
structure FailsIn (begun : List Machine) (error : ExecutionError) (earlier : List Machine)
    (mk : Machine) : Prop where
  begun_eq : begun = earlier ++ [mk]
  succeed : ∀ k ∈ earlier, Succeeds (step k)
  fails : ∃ mf, step mk = .error error mf
  notLimit : ∀ count, error ≠ .instructionLimit count

/-- How a run fails that began these instructions and leaves this processor and board. -/
inductive RunFails (begun : List Machine) (c : Core) : ExecutionError → Prop where
  | atLimit {count : Nat} (succeed : ∀ k ∈ begun, Succeeds (step k)) :
      RunFails begun c (.instructionLimit count)
  /-- The stop condition cannot read the next opcode. -/
  | unread {e : BoardError} (succeed : ∀ k ∈ begun, Succeeds (step k))
      (read : c.board.read c.registers.pc = .error e) : RunFails begun c (.board e)
  | inStep {error : ExecutionError} {earlier : List Machine} {mk : Machine}
      (fails : FailsIn begun error earlier mk) : RunFails begun c error

variable {error : ExecutionError} {c : Core}

/-- The limit is checked between the steps and not inside them. -/
theorem step_ne_instructionLimit {count : Nat} : step m ≠ .error (.instructionLimit count) m' := by
  intro h
  rcases step_eq_error h with hcycle | ⟨m₁, -, herror, -⟩
  · cases (of_cycle_error hcycle).2
  · cases herror

/-- A step that succeeds can be put in front of a run that fails. -/
theorem RunFails.cons (h : RunFails begun c error) (hfirst : Succeeds (step m)) :
    RunFails (m :: begun) c error := by
  cases h with
  | atLimit succeed => exact .atLimit (List.forall_mem_cons.mpr ⟨hfirst, succeed⟩)
  | unread succeed read => exact .unread (List.forall_mem_cons.mpr ⟨hfirst, succeed⟩) read
  | @inStep _ earlier mk fails =>
    exact .inStep ⟨congrArg (m :: ·) fails.begun_eq,
      List.forall_mem_cons.mpr ⟨hfirst, fails.succeed⟩, fails.fails, fails.notLimit⟩

/-- A fault carries the history as the run leaves it. -/
theorem runFails_runFrom (budget executed : Nat) {fault : Fault}
    (h : runFrom budget executed m = .error fault m') :
    fault.trace = m'.history.lines ∧
      RunFails (begunFrom budget executed m) m'.core fault.error := by
  revert h
  refine runFrom_induct_fault (motive := fun begun m r => r = .error fault m' →
    fault.trace = m'.history.lines ∧ RunFails begun m'.core fault.error)
    ?_ ?_ ?_ ?_ budget executed m
  · exact fun m outcome m₁ _ h => nomatch h
  · rintro m executed e m₁ hstops hrests ⟨⟩
    refine ⟨by rw [hrests.history], ?_⟩
    cases hstops with
    | limitFault => exact .atLimit fun k hk => (List.not_mem_nil hk).elim
    | unreadable _ _ _ _ hnext =>
      refine .unread (fun k hk => (List.not_mem_nil hk).elim) ?_
      rw [hrests.core]
      exact hnext
  · intro m m₁ begun r hstep ih hr
    obtain ⟨htrace, hfails⟩ := ih hr
    exact ⟨htrace, hfails.cons ⟨(), m₁, hstep⟩⟩
  · rintro m m₁ e m₂ hstep hrests ⟨⟩
    refine ⟨by rw [hrests.history], .inStep ⟨rfl, fun k hk => (List.not_mem_nil hk).elim,
      ⟨m₁, hstep⟩, ?_⟩⟩
    rintro count rfl
    exact step_ne_instructionLimit hstep

/-- What the fault of a run reports if `before` has been begun since the history was empty and
`begun` by the run: the last `h` of the lines, and that of the faulting instruction exactly if it
can be rendered. -/
inductive Reports (h : Nat) (before begun : List Machine) (c : Core) (fault : Fault) : Prop where
  /-- No instruction is at fault. -/
  | atLimit {count : Nat} (error : fault.error = .instructionLimit count)
      (succeed : ∀ k ∈ begun, Succeeds (step k))
      (trace : fault.trace = (tracedLines (before ++ begun)).rtake h)
  /-- The faulting instruction has not been begun, since its opcode cannot be read. -/
  | unread {e : BoardError} (error : fault.error = .board e)
      (succeed : ∀ k ∈ begun, Succeeds (step k))
      (read : c.board.read c.registers.pc = .error e)
      (trace : fault.trace = (tracedLines (before ++ begun)).rtake h)
  /-- The faulting instruction cannot be rendered. -/
  | unshown {earlier : List Machine} {mk : Machine} (fails : FailsIn begun fault.error earlier mk)
      (renders : ¬ mk.Renders)
      (trace : fault.trace = (tracedLines (before ++ earlier)).rtake h)
  | shown {earlier : List Machine} {mk : Machine} {line : String}
      (fails : FailsIn begun fault.error earlier mk) (renders : mk.Renders)
      (line_eq : mk.tracedLine? = some line)
      (trace : fault.trace = (tracedLines (before ++ earlier) ++ [line]).rtake h)

/-- The lines reported are the last ones of all the steps that were begun. -/
theorem RunFails.reports {h : Nat} {before : List Machine} {fault : Fault}
    (hfails : RunFails begun c fault.error)
    (htrace : fault.trace = (tracedLines (before ++ begun)).rtake h) :
    Reports h before begun c fault := by
  obtain ⟨error, lines⟩ := fault
  cases hfails with
  | atLimit succeed => exact .atLimit rfl succeed htrace
  | unread succeed read => exact .unread rfl succeed read htrace
  | @inStep _ earlier mk fails =>
    have hlines : tracedLines (before ++ begun) =
        tracedLines (before ++ earlier) ++ mk.tracedLine?.toList := by
      rw [fails.begun_eq, ← List.append_assoc, tracedLines_append, tracedLines_singleton]
    rw [hlines] at htrace
    cases hline : mk.tracedLine? with
    | none =>
      have hrenders : ¬ mk.Renders := fun hrenders => by
        obtain ⟨line, hsome⟩ := exists_tracedLine_iff.mpr hrenders
        cases hline.symm.trans hsome
      refine .unshown fails hrenders ?_
      rw [htrace, hline]
      exact congrArg (List.rtake · h) (List.append_nil _)
    | some line =>
      refine .shown fails (exists_tracedLine_iff.mp ⟨line, hline⟩) hline ?_
      rw [htrace, hline]
      rfl

/-- A run that fails reports its fault with the history of that moment. -/
theorem reports_run {before : List Machine} {k k' : Machine} {fault : Fault} {budget : Nat}
    (hm : m.Recording) (hempty : m.history.lines = []) (hbefore : Records before m k)
    (hrun : run budget k = .error fault k') :
    fault.trace = k'.history.lines ∧
      Reports m.config.historyLength before (begunFrom budget 0 k) k'.core fault := by
  obtain ⟨hlines, hfails⟩ := runFails_runFrom budget 0 hrun
  have hrecords := (records_runFrom budget 0 (hbefore.trace.trans hm.trace)).1
  rw [show runFrom budget 0 k = .error fault k' from hrun] at hrecords
  exact ⟨hlines, hfails.reports (hlines.trans ((hbefore.trans hrecords).lines_eq hm hempty))⟩

/-- Ever since the history was empty and as long as instructions are traced, it holds the last lines
of the instructions that were begun, at every moment between two instructions. The fault of a run
carries it. -/
theorem history_is_recent (htrace : m.config.trace = true)
    (hcapacity : m.history.capacity = m.config.historyLength) (hempty : m.history.lines = [])
    (is : List Interaction) (hremember : Interaction.AllRemember m is) :
    let h := m.config.historyLength
    let k := is.foldl Interaction.apply m
    let before := Interaction.begunBy m is
    k.history.lines = (tracedLines before).rtake h ∧
    (∀ i earlier mk later, Interaction.begun k i = earlier ++ mk :: later →
      mk.history.lines = (tracedLines (before ++ earlier)).rtake h) ∧
    (∀ budget fault k', run budget k = .error fault k' → fault.trace = k'.history.lines ∧
      Reports h before (begunFrom budget 0 k) k'.core fault) ∧
    ∀ address budget fault k', runRoutine address budget k = .error fault k' →
      fault.trace = k'.history.lines ∧
        Reports h before (begunFrom budget 0 (k.enter address)) k'.core fault := by
  intro h k before
  have hm : m.Recording := by
    refine ⟨htrace, hcapacity, ?_⟩
    rw [← History.length_lines, hempty]
    exact Nat.zero_le _
  have hrecords : Records before m k := Interaction.records_foldl is hm hremember
  refine ⟨hrecords.lines_eq hm hempty, fun i earlier mk later hbegun => ?_,
    fun budget fault k' hrun => reports_run hm hempty hrecords hrun,
    fun address budget fault k' hroutine => ?_⟩
  · have hinside := i.recordsInside_begun (hrecords.recording hm).trace earlier mk later hbegun
    exact (hrecords.trans hinside).lines_eq hm hempty
  · have henter := hrecords.trans_same (sameHistory_enter address k)
    rw [runRoutine_apply] at hroutine
    cases hrun : run budget (k.enter address) with
    | ok outcome k₁ => rw [hrun] at hroutine; cases hroutine
    | error fault' k₁ =>
      have hreports := reports_run hm hempty henter hrun
      rw [hrun] at hroutine
      cases hroutine
      exact hreports

/-- A machine that traces into a history of one line, in front of some code. -/
def reporting (code : List UInt8) : Machine where
  core := (logging code).core
  config := { trace := true, historyLength := 1 }
  history := .ofCapacity 1

/-- A step, and a run into a byte that encodes no instruction: of the two lines the fault carries
the last, and the byte has none. -/
theorem history_is_recent_unimplemented :
    let m := reporting [0xE8, 0xE8, 0x02]
    let is := [Interaction.operation .step]
    let k := is.foldl Interaction.apply m
    let line := "[000001] $8001: E8        INX                   " ++
      "A: 00 (0  ) X: 01 (1  ) Y: 00 (0  ) SP: FD (253) [04] -----I-- $00 $00"
    m.config.trace = true ∧ m.history.capacity = m.config.historyLength ∧ m.history.lines = [] ∧
      Interaction.AllRemember m is ∧
      ∃ fault k', run 2 k = .error fault k' ∧ fault.error = .unimplementedOpcode 0x8002 0x02 ∧
        fault.trace = [line] ∧
        Reports 1 (Interaction.begunBy m is) (begunFrom 2 0 k) k'.core fault := by
  intro m is k line
  have hremember : Interaction.AllRemember m is := ⟨trivial, trivial⟩
  obtain ⟨-, -, hfaults, -⟩ := history_is_recent (m := m) rfl rfl rfl is hremember
  have hrun : (match run 2 k with
      | .error fault _ => some (fault.error, fault.trace)
      | .ok _ _ => none) = some (.unimplementedOpcode 0x8002 0x02, [line]) := by decide +kernel
  cases hfault : run 2 k with
  | ok outcome k' => rw [hfault] at hrun; cases hrun
  | error fault k' =>
    rw [hfault] at hrun
    obtain ⟨herror, htrace⟩ := Prod.mk.inj (Option.some.inj hrun)
    exact ⟨rfl, rfl, rfl, hremember, fault, k', rfl, herror, htrace, (hfaults 2 fault k' hfault).2⟩

end Machine

end Mos6502
