import Mos6502.Proofs.ReadOrder
import Mos6502.Proofs.Recorder

/-!
# The accesses of an instruction

`Instruction.accesses` is the documentation of the bus: what each instruction reads and writes, in
which order, and with which values, as a function of the registers and the board in front of it.
A step that succeeds makes these accesses and no other (`step_accesses`), so this is what
breakpoints are shown, whichever they are. Microcode is compared with the documentation as if every
byte could be read, for where a step succeeds every byte could.
-/

namespace Mos6502

/-! ## Documented accesses -/

/-- Reads of the bytes at some addresses. -/
def Board.fetched (b : Board) (addresses : List UInt16) : List Transfer :=
  addresses.map fun address => .read address (b.byteAt address)

/-- The writes that push some bytes, starting in a slot and going down. -/
def pushes : UInt8 → List UInt8 → List Transfer
  | _, [] => []
  | s, v :: rest => .write (stackSlot s) v :: pushes (s - 1) rest

/-- The reads that pull so many bytes, from above a slot and going up. -/
def Board.pulls (b : Board) (s : UInt8) (n : Nat) : List Transfer :=
  b.fetched ((slotsAbove s n).map stackSlot)

/-- The bytes of a word in the order in which they are pushed. -/
def pushedBytes (v : UInt16) : List UInt8 := [(v >>> 8).toUInt8, v.toUInt8]

namespace Instruction

/-- The accesses to data, behind the operand. -/
def dataAccesses (b : Board) (r : Registers) : Instruction → List Transfer
  | read _ mode => b.fetched [mode.effective b r]
  | store op mode => [.write (mode.effective b r) (op.source r)]
  | modify _ .accumulator => []
  | modify op mode =>
    let address := mode.effective b r
    [.read address (b.byteAt address), .write address (op.apply (b.byteAt address) r.status).1]
  | stack .pha => pushes r.sp [r.a]
  | stack .php => pushes r.sp [r.status.pushedBySoftware]
  | stack .pla | stack .plp => b.pulls r.sp 1
  | jsr => pushes r.sp (pushedBytes (r.pc + 2))
  | rts => b.pulls r.sp 2
  | rti => b.pulls r.sp 3
  | brk =>
    pushes r.sp (pushedBytes (r.pc + 2) ++ [r.status.pushedBySoftware]) ++
      b.fetched [0xFFFE, 0xFFFF]
  | internal _ | branch _ | jmp _ => []

/-- All accesses of an instruction: the opcode, the operand bytes, the pointer, the data. -/
def accesses (b : Board) (r : Registers) (i : Instruction) : List Transfer :=
  [.read r.pc (b.byteAt r.pc), .execute r.pc (b.byteAt r.pc)] ++
    b.fetched (i.mode.readOrder b r) ++ i.dataAccesses b r

end Instruction

/-! ## Microcode -/

namespace Microcode

variable {α : Type}

/-- The transfers of a sequence if a zero stands for every byte that cannot be read. -/
def course : Microcode α → Core → List Transfer
  | done _, _ => []
  | read address next, c =>
    .read address (c.board.byteAt address) :: (next (c.board.byteAt address)).course c
  | write address v next, c =>
    .write address v :: next.course { c with board := c.board.write address v }
  | inspect next, c => (next c.registers).course c
  | assign registers next, c => next.course { c with registers := registers }

/-- The result of a sequence if a zero stands for every byte that cannot be read. -/
def answer : Microcode α → Core → α
  | done result, _ => result
  | read address next, c => (next (c.board.byteAt address)).answer c
  | write address v next, c => next.answer { c with board := c.board.write address v }
  | inspect next, c => (next c.registers).answer c
  | assign registers next, c => next.answer { c with registers := registers }

/-- A sequence that succeeds has read every byte. -/
theorem course_and_answer_of_ok {p : Microcode α} {c c' : Core} {a : α}
    (h : p.execute c = .ok a c') : p.transfers c = p.course c ∧ a = p.answer c := by
  induction p generalizing c with
  | done result =>
    cases h
    exact ⟨rfl, rfl⟩
  | read address next ih =>
    simp only [execute] at h
    cases hread : c.board.read address with
    | error e => simp only [hread, reduceCtorEq] at h
    | ok v =>
      simp only [hread] at h
      obtain ⟨hcourse, hanswer⟩ := ih v h
      simp only [transfers, course, answer, hread, Board.byteAt_of_ok hread, hcourse]
      exact ⟨trivial, hanswer⟩
  | write address v next ih =>
    obtain ⟨hcourse, hanswer⟩ := ih h
    exact ⟨congrArg _ hcourse, hanswer⟩
  | inspect next ih => exact ih c.registers h
  | assign registers next ih => exact ih h

end Microcode

/-- Bytes are fetched alike from boards that answer alike at these addresses. -/
theorem Board.fetched_congr {b b' : Board} {addresses : List UInt16}
    (h : ∀ address ∈ addresses, b'.read address = b.read address) :
    b'.fetched addresses = b.fetched addresses :=
  List.map_congr_left fun address haddress => by rw [byteAt, h address haddress, ← byteAt]

/-- Behind the opcode an instruction makes the documented accesses. -/
theorem Instruction.course_microcode (i : Instruction) (c : Core) :
    i.microcode.course c = c.board.fetched (i.mode.readOrder c.board c.registers) ++
      i.dataAccesses c.board c.registers := by
  cases i with
  | read op mode => cases mode <;> rfl
  | store op mode => cases mode <;> rfl
  | modify op mode => cases mode <;> rfl
  | internal op => rfl
  | stack op => cases op <;> rfl
  | branch op => rfl
  | jmp mode => cases mode <;> rfl
  | jsr => rfl
  | rts => rfl
  | rti => rfl
  | brk =>
    -- The vector is read from the board with the pushed bytes on it.
    have hcourse : brk.microcode.course c =
        pushes c.registers.sp (pushedBytes (c.registers.pc + 2) ++
          [c.registers.status.pushedBySoftware]) ++
            c.broken.board.fetched (wordAddresses Interrupt.irq.vector) := rfl
    have hvector : c.broken.board.fetched (wordAddresses Interrupt.irq.vector) =
        c.board.fetched [0xFFFE, 0xFFFF] :=
      Board.fetched_congr fun address haddress =>
        Core.read_broken (Interrupt.irq.le_of_mem_vector address haddress)
    rw [hcourse, hvector]
    rfl

/-! ## Breakpoints -/

namespace Breakpoints

/-- What two accesses or groups of accesses have led to, the second of which found the breakpoints
that the first has left. -/
def Fired.followedBy (first second : Fired) : Fired where
  breakpoints := second.breakpoints
  hits := first.hits ++ second.hits
  halt := first.halt || second.halt

def fireAll (b : Breakpoints) : List Access → Fired
  | [] => { breakpoints := b, hits := [], halt := false }
  | access :: rest => (b.fire access).followedBy ((b.fire access).breakpoints.fireAll rest)

/-- Accesses in two portions find, in the second one, the registry as the first has left it. -/
theorem fireAll_append (b : Breakpoints) (accesses more : List Access) :
    b.fireAll (accesses ++ more) =
      (b.fireAll accesses).followedBy ((b.fireAll accesses).breakpoints.fireAll more) := by
  induction accesses generalizing b with
  | nil => simp [fireAll, Fired.followedBy]
  | cons access rest ih =>
    simp only [List.cons_append, fireAll, Fired.followedBy, ih, List.append_assoc, Bool.or_assoc]

theorem fireAll_singleton (b : Breakpoints) (access : Access) :
    b.fireAll [access] = b.fire access := by
  simp [fireAll, Fired.followedBy]

end Breakpoints

namespace Machine

/-- Between the two moments breakpoints have been shown these transfers, one after the other, and
what they were shown and asked for is all that has happened to them. -/
def Fires (ts : List Transfer) (m m' : Machine) : Prop :=
  ∃ accesses : List Access, accesses.map (·.shown) = ts.map Transfer.shown ∧
    m'.breakpoints = (m.breakpoints.fireAll accesses).breakpoints ∧
    m'.hits = m.hits ++ (m.breakpoints.fireAll accesses).hits.toArray ∧
    m'.halted = (m.halted || (m.breakpoints.fireAll accesses).halt)

variable {m m' m'' : Machine} {ts us : List Transfer}

/-- What two actions show, one behind the other, is shown in this order. -/
theorem Fires.trans (h : Fires ts m m') (k : Fires us m' m'') : Fires (ts ++ us) m m'' := by
  obtain ⟨accesses, hshown, hbreakpoints, hhits, hhalted⟩ := h
  obtain ⟨more, hshown', hbreakpoints', hhits', hhalted'⟩ := k
  refine ⟨accesses ++ more, ?_, ?_, ?_, ?_⟩
  · rw [List.map_append, List.map_append, hshown, hshown']
  · rw [hbreakpoints', hbreakpoints, Breakpoints.fireAll_append]
    rfl
  · rw [hhits', hhits, hbreakpoints, Breakpoints.fireAll_append]
    simp only [Breakpoints.Fired.followedBy, List.append_toArray, Array.append_assoc]
  · rw [hhalted', hhalted, hbreakpoints, Breakpoints.fireAll_append, Bool.or_assoc]
    rfl

theorem fires_nil (hbreakpoints : m'.breakpoints = m.breakpoints) (hhits : m'.hits = m.hits)
    (hhalted : m'.halted = m.halted) : Fires [] m m' :=
  ⟨[], rfl, hbreakpoints, hhits.trans Array.append_empty.symm,
    hhalted.trans (Bool.or_false _).symm⟩

theorem OnlyLogs.fires (h : OnlyLogs m m') : Fires [] m m' :=
  fires_nil h.breakpoints h.hits h.halted

/-- Showing an access is what the transfer stands for, whatever kind of transfer it is. -/
theorem fires_fire (m : Machine) (events : Events) (address : UInt16) (v : UInt8)
    {t : Transfer} (hshown : t.shown = (events, address, v)) :
    Fires [t] m (m.fire events address v) := by
  obtain ⟨journal, hfire, hhits⟩ := m.fire_eq events address v
  refine ⟨[{ events, address, value := v, registers := m.core.registers }], ?_, ?_, ?_, ?_⟩
  · exact congrArg (· :: []) hshown.symm
  · rw [hfire, Breakpoints.fireAll_singleton]
  · rw [hfire, Breakpoints.fireAll_singleton]
    exact hhits
  · rw [hfire, Breakpoints.fireAll_singleton]

theorem fires_poke (m : Machine) (address : UInt16) (v : UInt8) :
    Fires [] m (m.poke address v) := by
  obtain ⟨journal, hpoke, hhits⟩ := m.poke_eq address v
  rw [hpoke]
  exact fires_nil rfl hhits rfl

theorem fires_read (span : Option Span) (m : Machine) (address : UInt16) (v : UInt8) :
    Fires [.read address v] m ((m.markRead span address).fire .read address v) :=
  (onlyLogs_markRead m span address).fires.trans (fires_fire _ .read address v rfl)

/-- Each move of a machine shows its own transfer and no other. -/
theorem eachMove_fires : EachMove Fires where
  refl _ := fires_nil rfl rfl rfl
  trans := Fires.trans
  read span _ _ _ := fires_read span _ _ _
  write m address v := (fires_poke m address v).trans (fires_fire _ .write address v rfl)
  assign _ _ := fires_nil rfl rfl rfl
  fetch h := by
    cases h.symm.trans (fetch_of_read (fetch_eq_ok h).1)
    exact (fires_read _ _ _ _).trans (fires_fire _ .execute _ _ rfl)
  logs := OnlyLogs.fires
  count _ _ := fires_nil rfl rfl rfl

/-- A step that succeeds makes the accesses of its instruction. -/
theorem EachMove.accesses {R : List Transfer → Machine → Machine → Prop} (hR : EachMove R)
    (h : Machine.step m = .ok () m') {i : Instruction} (hfetched : i.FetchedFrom m.core) :
    R (i.accesses m.board m.registers) m m' := by
  obtain ⟨j, hj, hexecute⟩ := execute_of_step_ok h
  obtain rfl := hj.unique hfetched
  obtain ⟨opcode, hread, hdecode⟩ := hfetched
  have haccesses : j.accesses m.board m.registers =
      [.read m.registers.pc opcode, .execute m.registers.pc opcode] ++
        j.microcode.transfers m.core := by
    rw [Instruction.accesses, (Microcode.course_and_answer_of_ok hexecute).1, j.course_microcode,
      List.append_assoc, registers, board, Board.byteAt_of_ok hread]
  rw [haccesses]
  exact hR.step h hread hdecode

/-- A step that succeeds makes the documented accesses of the instruction at the program counter,
in their order and with their values. They are all that breakpoints are shown, whatever is
registered; a recorder is shown just them. -/
theorem step_accesses (h : step m = .ok () m') :
    ∃ i : Instruction, i.FetchedFrom m.core ∧
      let documented := i.accesses m.board m.registers
      Fires documented m m' ∧ Traffic m.board documented m'.board ∧
        ∀ name, m.breakpoints.Records name →
          m'.shown name = m.shown name ++ documented.map Transfer.shown := by
  obtain ⟨i, hfetched, -⟩ := execute_of_step_ok h
  obtain ⟨htraffic, hshows⟩ := eachMove_moves.accesses h hfetched
  exact ⟨i, hfetched, eachMove_fires.accesses h hfetched, htraffic, fun name hrecords =>
    (hshows name hrecords).2⟩

/-- A call with the stack pointer about to wrap, and a breakpoint on the first slot. -/
theorem step_accesses_jsr :
    let m := callingRoutine.register .write "slot" 0x0100 .halt
    ∃ m', step m = .ok () m' ∧ Fires [.read 0 0x20, .execute 0 0x20, .read 1 0x03, .read 2 0x00,
      .write 0x0100 0x00, .write 0x01FF 0x02] m m' := by
  intro m
  have hstep : step m = .ok () (finalState (step m)) := Succeeds.eq_ok (by decide +kernel)
  have hjsr : Instruction.jsr.FetchedFrom m.core := by decide +kernel
  have hlist : Instruction.jsr.accesses m.board m.registers =
      [.read 0 0x20, .execute 0 0x20, .read 1 0x03, .read 2 0x00, .write 0x0100 0x00,
        .write 0x01FF 0x02] := by decide +kernel
  obtain ⟨i, hfetched, hfires, -⟩ := step_accesses hstep
  rw [hfetched.unique hjsr, hlist] at hfires
  exact ⟨_, hstep, hfires⟩

end Machine

end Mos6502
