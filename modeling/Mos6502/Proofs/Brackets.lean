import Mos6502.Proofs.Calls
import Mos6502.Proofs.Coverage
import Mos6502.Proofs.Stack

/-!
# Brackets on the stack

A push, a call or an interrupt opens a bracket and puts bytes on the stack that a pull or a return
takes off again. A `Segment` is a stretch of execution in which brackets are closed in the order of
their nesting, and in which no instruction between them moves the stack pointer or writes to a byte
of an open bracket. `balanced_segment` says that then every bracket finds what it has put there:
calls return behind themselves, interrupts return to where they struck with the flags of that
moment, and pulls get what their own push has stored. The stack pointer may wrap on the way.
-/

namespace Mos6502

/-- The status without the framing bits, which exist only on the stack. -/
def Status.unframed (s : Status) : Status := { s with breakBit := false, unused := false }

/-- A pulled status is the pushed one without the framing bits. -/
theorem Status.ofPulled_pushedBySoftware (s : Status) :
    ofPulled s.pushedBySoftware = s.unframed := by
  rw [ofPulled, pushedBySoftware, ofByte_toByte]
  rfl

theorem Status.ofPulled_pushedByInterrupt (s : Status) :
    ofPulled s.pushedByInterrupt = s.unframed := by
  rw [ofPulled, pushedByInterrupt, ofByte_toByte]
  rfl

/-! ## Instructions that leave the stack pointer where it is -/

/-- Calls, returns, pushes, pulls, and the transfer to the stack pointer. -/
def Instruction.MovesStackPointer : Instruction → Prop
  | jsr | rts | rti | brk | stack _ | internal .txs => True
  | read .. | store .. | modify .. | internal _ | branch _ | jmp _ => False

def SameStackPointer (c c' : Core) : Prop := c'.registers.sp = c.registers.sp

instance : IsPreorder Core SameStackPointer where
  refl _ := rfl
  trans _ _ _ h k := k.trans h

namespace Microcode

variable {α β : Type} {R : Core → Core → Prop}

theorem leaves_execute_bind [IsPreorder Core R] {p : Microcode α} {f : α → Microcode β}
    (hp : Leaves R p.execute) (hf : ∀ a, Leaves R (f a).execute) : Leaves R (p >>= f).execute := by
  rw [execute_bind']
  exact hp.bind hf

theorem ReadsOnly.leaves [IsPreorder Core R] {p : Microcode α} (h : p.ReadsOnly) :
    Leaves R p.execute := by
  intro c
  rw [h.execute c]
  exact refl c

theorem ReadsOnly.eq_of_execute_ok {p : Microcode α} (h : p.ReadsOnly) {c c' : Core} {a : α}
    (hok : p.execute c = .ok a c') : c' = c := by
  have hcore := h.execute c
  rwa [hok] at hcore

/-- Updating other registers does not move the stack pointer. -/
theorem leaves_modifyRegisters {f : Registers → Registers} (h : ∀ r, (f r).sp = r.sp) :
    Leaves SameStackPointer (modifyRegisters f).execute := fun c => h c.registers

theorem leaves_writeByte (address : UInt16) (v : UInt8) :
    Leaves SameStackPointer (writeByte address v).execute := fun _ => rfl

end Microcode

theorem ReadOp.sp_apply (op : ReadOp) (v : UInt8) (r : Registers) : (op.apply v r).sp = r.sp := by
  cases op <;> rfl

/-- Of the operations between registers only `TXS` moves the stack pointer. -/
theorem RegisterOp.sp_apply {op : RegisterOp} (h : op ≠ .txs) (r : Registers) :
    (op.apply r).sp = r.sp := by
  cases op with
  | txs => exact absurd rfl h
  | _ => rfl

open Microcode in
/-- Only instructions on the stack and calls move the stack pointer, and the transfer to it. -/
theorem Instruction.leaves_microcode {i : Instruction} (h : ¬ i.MovesStackPointer) :
    Leaves SameStackPointer i.microcode.execute := by
  have hresolve : ∀ mode : AddressingMode, Leaves SameStackPointer mode.resolve.execute :=
    fun mode => (readsOnly_resolve mode).leaves
  cases i with
  | read op mode =>
    refine leaves_execute_bind (hresolve mode) fun address => ?_
    refine leaves_execute_bind (readsOnly_readByte address).leaves fun v => ?_
    exact leaves_modifyRegisters fun r => op.sp_apply v r
  | store op mode =>
    refine leaves_execute_bind (hresolve mode) fun address => ?_
    refine leaves_execute_bind (fun _ => rfl) fun r => ?_
    exact leaves_execute_bind (leaves_writeByte _ _) fun _ => leaves_modifyRegisters fun _ => rfl
  | modify op mode =>
    cases mode with
    | accumulator => exact leaves_modifyRegisters fun _ => rfl
    | _ =>
      refine leaves_execute_bind (hresolve _) fun address => ?_
      refine leaves_execute_bind (readsOnly_readByte address).leaves fun v => ?_
      exact fun _ => rfl
  | internal op =>
    refine leaves_modifyRegisters fun r => RegisterOp.sp_apply ?_ r
    rintro rfl
    exact h trivial
  | branch op =>
    refine leaves_execute_bind (hresolve .relative) fun target => leaves_modifyRegisters fun r => ?_
    split <;> rfl
  | jmp mode =>
    exact leaves_execute_bind (hresolve mode) fun target => leaves_modifyRegisters fun _ => rfl
  | stack | jsr | rts | rti | brk => exact absurd trivial h

/-! ## Putting bytes on the stack -/

/-- Some bytes are put on the stack. The first of them is the last that is pushed. -/
structure Pushes (frame : List UInt8) (c c' : Core) : Prop where
  sp : c'.registers.sp = c.registers.sp - UInt8.ofNat frame.length
  stack : ∀ n, n + frame.length ≤ 256 → c'.stack (n + frame.length) = frame ++ c.stack n

namespace Pushes

variable {f g : List UInt8} {c c' c'' : Core}

theorem trans (h : Pushes f c c') (k : Pushes g c' c'') : Pushes (g ++ f) c c'' where
  sp := by
    rw [k.sp, h.sp, List.length_append, UInt8.ofNat_add]
    grind
  stack n hn := by
    rw [List.length_append] at hn ⊢
    have hlength : n + (g.length + f.length) = n + f.length + g.length := by omega
    rw [hlength, k.stack _ (by omega), h.stack n (by omega), List.append_assoc]

/-- What does not touch the stack can follow. -/
theorem congr (h : Pushes f c c') (hsp : c''.registers.sp = c'.registers.sp)
    (hboard : c''.board = c'.board) : Pushes f c c'' where
  sp := hsp.trans h.sp
  stack n hn := by
    rw [Core.stack, hsp, hboard]
    exact h.stack n hn

end Pushes

/-- The processor and the board behind the push of a byte. -/
def Core.pushed (c : Core) (v : UInt8) : Core :=
  ⟨{ c.registers with sp := c.registers.sp - 1 }, c.board.write (stackSlot c.registers.sp) v⟩

theorem Core.pushes_pushed (c : Core) (v : UInt8) : Pushes [v] c (c.pushed v) :=
  ⟨rfl, fun _ hn => c.board.stackAbove_push c.registers.sp v (by simpa using hn)⟩

/-- A word on the stack, the low byte in front. -/
def wordFrame (v : UInt16) : List UInt8 := [v.toUInt8, (v >>> 8).toUInt8]

/-- The high byte of a word is pushed first. -/
theorem Core.pushes_word (c : Core) (v : UInt16) :
    Pushes (wordFrame v) c ((c.pushed (v >>> 8).toUInt8).pushed v.toUInt8) :=
  (c.pushes_pushed _).trans (pushes_pushed _ _)

/-- What opens a bracket. -/
inductive Opening where
  | pha | php | jsr | brk
  | interrupt (i : Interrupt)
deriving DecidableEq

namespace Opening

def microcode : Opening → Microcode Unit
  | pha => (Instruction.stack .pha).microcode
  | php => (Instruction.stack .php).microcode
  | jsr => Instruction.jsr.microcode
  | brk => Instruction.brk.microcode
  | interrupt i => i.microcode

def width : Opening → Nat
  | pha | php => 1
  | jsr => 2
  | brk | interrupt _ => 3

/-- The bytes that it puts on the stack. -/
def frame (r : Registers) : Opening → List UInt8
  | pha => [r.a]
  | php => [r.status.pushedBySoftware]
  | jsr => wordFrame (r.pc + 2)
  | brk => r.status.pushedBySoftware :: wordFrame (r.pc + 2)
  | interrupt _ => r.status.pushedByInterrupt :: wordFrame r.pc

/-- A frame is as long as its opening says. -/
theorem length_frame (o : Opening) (r : Registers) : (o.frame r).length = o.width := by
  cases o <;> rfl

/-- The slots that it puts them into, the last one first. -/
def slots (o : Opening) (sp : UInt8) : List UInt8 := slotsAbove (sp - UInt8.ofNat o.width) o.width

open Microcode in
theorem pushes_of_execute {o : Opening} {c c' : Core} (h : o.microcode.execute c = .ok () c') :
    Pushes (o.frame c.registers) c c' := by
  cases o with
  | pha =>
    cases h
    exact (c.pushes_pushed c.registers.a).congr rfl rfl
  | php =>
    cases h
    exact (c.pushes_pushed c.registers.status.pushedBySoftware).congr rfl rfl
  | jsr =>
    rw [microcode, Instruction.microcode, execute_bind'] at h
    obtain ⟨target, c₁, hresolve, hrest⟩ := bind_eq_ok.mp h
    cases (readsOnly_resolve .absolute).eq_of_execute_ok hresolve
    cases hrest
    exact (c.pushes_word _).congr rfl rfl
  | brk =>
    -- The vector is read behind the pushes, so they are done however far this goes.
    have hpushes := (c.pushes_word (c.registers.pc + 2)).trans
      (Core.pushes_pushed _ c.registers.status.pushedBySoftware)
    simp only [microcode, Instruction.microcode, execute_bind'] at h
    obtain ⟨r, c₁, hr, h⟩ := bind_eq_ok.mp h
    cases hr
    obtain ⟨_, c₂, hword, h⟩ := bind_eq_ok.mp h
    cases hword
    obtain ⟨_, c₃, hstatus, h⟩ := bind_eq_ok.mp h
    cases hstatus
    obtain ⟨_, c₄, hdisable, h⟩ := bind_eq_ok.mp h
    cases hdisable
    obtain ⟨target, c₅, hvector, h⟩ := bind_eq_ok.mp h
    cases (readsOnly_readWord _).eq_of_execute_ok hvector
    cases h
    exact hpushes.congr rfl rfl
  | interrupt i =>
    have hpushes := (c.pushes_word c.registers.pc).trans
      (Core.pushes_pushed _ c.registers.status.pushedByInterrupt)
    simp only [microcode, Interrupt.microcode, execute_bind'] at h
    obtain ⟨r, c₁, hr, h⟩ := bind_eq_ok.mp h
    cases hr
    obtain ⟨_, c₂, hword, h⟩ := bind_eq_ok.mp h
    cases hword
    obtain ⟨_, c₃, hstatus, h⟩ := bind_eq_ok.mp h
    cases hstatus
    obtain ⟨target, c₄, hvector, h⟩ := bind_eq_ok.mp h
    cases (readsOnly_readWord _).eq_of_execute_ok hvector
    cases h
    exact hpushes.congr rfl rfl

/-- The instructions that close a bracket. -/
inductive ClosedBy : Opening → Instruction → Prop where
  | pha_pla : ClosedBy pha (.stack .pla)
  | pha_plp : ClosedBy pha (.stack .plp)
  | php_pla : ClosedBy php (.stack .pla)
  | php_plp : ClosedBy php (.stack .plp)
  | jsr_rts : ClosedBy jsr .rts
  | brk_rti : ClosedBy brk .rti
  | interrupt_rti (i : Interrupt) : ClosedBy (interrupt i) .rti

/-- What a bracket brings back, with the registers in front of the opening and behind the closing
instruction. Nothing is brought back by an instruction that does not fit the opening. -/
def BringsBack (r r' : Registers) : Opening → Instruction → Prop
  | pha, .stack .pla => r'.a = r.a
  | pha, .stack .plp => r'.status = .ofPulled r.a
  | php, .stack .pla => r'.a = r.status.pushedBySoftware
  | php, .stack .plp => r'.status = r.status.unframed
  | jsr, .rts => r'.pc = r.pc + 3
  | brk, .rti => r'.pc = r.pc + 2 ∧ r'.status = r.status.unframed
  | interrupt _, .rti => r'.pc = r.pc ∧ r'.status = r.status.unframed
  | _, _ => False

end Opening

/-! ## Taking bytes off the stack -/

namespace Microcode

theorem execute_pullWord (c : Core) :
    pullWord.execute c =
      .ok (word (c.board.stackByte (c.registers.sp + 1))
          (c.board.stackByte (c.registers.sp + 1 + 1)))
        ⟨{ c.registers with sp := c.registers.sp + 1 + 1 }, c.board⟩ := by
  refine (execute_bind_of_ok (execute_pull c)).trans ?_
  exact execute_bind_of_ok (execute_pull _)

theorem execute_pla (c : Core) :
    (Instruction.stack .pla).microcode.execute c =
      .ok () ⟨Instruction.skip .implied { c.registers with
        sp := c.registers.sp + 1
        a := c.board.stackByte (c.registers.sp + 1)
        status := c.registers.status.describe (c.board.stackByte (c.registers.sp + 1)) },
        c.board⟩ := by
  have hpull : StackOp.pla.microcode.execute c = _ := execute_bind_of_ok (execute_pull c)
  exact execute_bind_of_ok hpull

theorem execute_plp (c : Core) :
    (Instruction.stack .plp).microcode.execute c =
      .ok () ⟨Instruction.skip .implied { c.registers with
        sp := c.registers.sp + 1
        status := .ofPulled (c.board.stackByte (c.registers.sp + 1)) }, c.board⟩ := by
  have hpull : StackOp.plp.microcode.execute c = _ := execute_bind_of_ok (execute_pull c)
  exact execute_bind_of_ok hpull

/-- The address that is pulled is the one in front of the next instruction. -/
theorem execute_rts (c : Core) :
    Instruction.rts.microcode.execute c =
      .ok () ⟨{ c.registers with
        sp := c.registers.sp + 1 + 1
        pc := word (c.board.stackByte (c.registers.sp + 1))
          (c.board.stackByte (c.registers.sp + 1 + 1)) + 1 }, c.board⟩ :=
  execute_bind_of_ok (execute_pullWord c)

/-- The status is pulled first, then the address, which is taken as it is. -/
theorem execute_rti (c : Core) :
    Instruction.rti.microcode.execute c =
      .ok () ⟨{ c.registers with
        sp := c.registers.sp + 1 + 1 + 1
        status := .ofPulled (c.board.stackByte (c.registers.sp + 1))
        pc := word (c.board.stackByte (c.registers.sp + 1 + 1))
          (c.board.stackByte (c.registers.sp + 1 + 1 + 1)) }, c.board⟩ := by
  refine (execute_bind_of_ok (execute_pull c)).trans ?_
  exact execute_bind_of_ok (execute_pullWord _)

/-- A word that was pushed is found again above the stack pointer. -/
theorem word_of_stackAbove {b : Board} {s : UInt8} {v : UInt16} {n : Nat} {rest : List UInt8}
    (h : b.stackAbove s (n + 2) = wordFrame v ++ rest) :
    word (b.stackByte (s + 1)) (b.stackByte (s + 1 + 1)) = v := by
  obtain ⟨hlow, hrest⟩ := List.cons.inj h
  obtain ⟨hhigh, -⟩ := List.cons.inj hrest
  rw [hlow, hhigh, word_bytes]

/-- A return from interrupt that finds a status byte on top of a word takes both. -/
theorem registers_of_rti {c c' : Core} {p : UInt8} {v : UInt16} {n : Nat} {rest : List UInt8}
    (hstack : c.stack (n + 3) = p :: wordFrame v ++ rest)
    (hexecute : Instruction.rti.microcode.execute c = .ok () c') :
    c'.registers.sp = c.registers.sp + 3 ∧ c'.board = c.board ∧ c'.registers.pc = v ∧
      c'.registers.status = .ofPulled p := by
  obtain ⟨hstatus, hrest⟩ := List.cons.inj hstack
  cases (execute_rti c).symm.trans hexecute
  refine ⟨?_, rfl, word_of_stackAbove hrest, congrArg Status.ofPulled hstatus⟩
  rw [UInt8.add_assoc, UInt8.add_assoc]
  rfl

end Microcode

/-- The bytes under those on top. -/
theorem Core.stackAbove_of_append {c c₂ : Core} {frame : List UInt8} {n k : Nat}
    (hsp : c₂.registers.sp = c.registers.sp - UInt8.ofNat k) (hframe : frame.length = k)
    (hstack : c₂.stack (n + k) = frame ++ c.stack n) :
    c₂.board.stackAbove c.registers.sp n = c.stack n := by
  rw [stack, hsp, Board.stackAbove_add, UInt8.sub_add_cancel] at hstack
  exact List.append_inj_right hstack ((Board.length_stackAbove ..).trans hframe.symm)

open Microcode in
/-- A closing instruction that finds the bytes of its opening on the stack brings back what they
stand for, and writes nothing. -/
theorem Opening.ClosedBy.bringsBack {o : Opening} {i : Instruction} (h : o.ClosedBy i)
    {c c₂ c' : Core} {n : Nat} (hsp : c₂.registers.sp = c.registers.sp - UInt8.ofNat o.width)
    (hstack : c₂.stack (n + o.width) = o.frame c.registers ++ c.stack n)
    (hexecute : i.microcode.execute c₂ = .ok () c') :
    c'.registers.sp = c.registers.sp ∧ c'.board = c₂.board ∧
      o.BringsBack c.registers c'.registers i := by
  have hback : ∀ k, k = UInt8.ofNat o.width → c₂.registers.sp + k = c.registers.sp := by
    rintro k rfl
    rw [hsp, UInt8.sub_add_cancel]
  cases h with
  | pha_pla =>
    obtain ⟨hbyte, -⟩ := List.cons.inj hstack
    cases (execute_pla c₂).symm.trans hexecute
    exact ⟨hback 1 rfl, rfl, hbyte⟩
  | pha_plp =>
    obtain ⟨hbyte, -⟩ := List.cons.inj hstack
    cases (execute_plp c₂).symm.trans hexecute
    exact ⟨hback 1 rfl, rfl, congrArg Status.ofPulled hbyte⟩
  | php_pla =>
    obtain ⟨hbyte, -⟩ := List.cons.inj hstack
    cases (execute_pla c₂).symm.trans hexecute
    exact ⟨hback 1 rfl, rfl, hbyte⟩
  | php_plp =>
    obtain ⟨hbyte, -⟩ := List.cons.inj hstack
    cases (execute_plp c₂).symm.trans hexecute
    refine ⟨hback 1 rfl, rfl, ?_⟩
    exact (congrArg Status.ofPulled hbyte).trans (Status.ofPulled_pushedBySoftware _)
  | jsr_rts =>
    cases (execute_rts c₂).symm.trans hexecute
    refine ⟨?_, rfl, ?_⟩
    · rw [UInt8.add_assoc]
      exact hback _ rfl
    · change word _ _ + 1 = c.registers.pc + 3
      rw [word_of_stackAbove hstack, UInt16.add_assoc]
      rfl
  | brk_rti =>
    obtain ⟨hsp', hboard, hpc, hstatus⟩ := registers_of_rti hstack hexecute
    have hunframed := hstatus.trans (Status.ofPulled_pushedBySoftware _)
    exact ⟨hsp'.trans (hback 3 rfl), hboard, hpc, hunframed⟩
  | interrupt_rti j =>
    obtain ⟨hsp', hboard, hpc, hstatus⟩ := registers_of_rti hstack hexecute
    have hunframed := hstatus.trans (Status.ofPulled_pushedByInterrupt _)
    exact ⟨hsp'.trans (hback 3 rfl), hboard, hpc, hunframed⟩

/-! ## Segments -/

/-- The instruction lies at the program counter, and its step succeeds. -/
def Instruction.Leads (i : Instruction) (m m' : Machine) : Prop :=
  i.FetchedFrom m.core ∧ Machine.step m = .ok () m'

theorem Instruction.Leads.execute {i : Instruction} {m m' : Machine} (h : i.Leads m m') :
    i.microcode.execute m.core = .ok () m'.core := by
  obtain ⟨⟨opcode, hread, hdecode⟩, hstep⟩ := h
  obtain ⟨j, ⟨opcode', hread', hdecode'⟩, hexecute⟩ := Machine.execute_of_step_ok hstep
  cases hread.symm.trans hread'
  cases hdecode.symm.trans hdecode'
  exact hexecute

namespace Opening

/-- The bracket is opened. Of the interrupts only an interrupt request can be refused. -/
def Leads (m m' : Machine) : Opening → Prop
  | pha => (Instruction.stack .pha).Leads m m'
  | php => (Instruction.stack .php).Leads m m'
  | jsr => Instruction.jsr.Leads m m'
  | brk => Instruction.brk.Leads m m'
  | interrupt .irq => Machine.irq m = .ok true m'
  | interrupt i => Machine.interrupt i m = .ok () m'

theorem execute_of_interrupt {i : Interrupt} {m m' : Machine}
    (h : Machine.interrupt i m = .ok () m') : i.microcode.execute m.core = .ok () m'.core := by
  have hperform : Machine.perform none i.microcode (m.note .debug _) = .ok () m' := h
  have hexecute := Machine.execute_of_perform hperform
  exact hexecute

theorem execute_of_leads {o : Opening} {m m' : Machine} (h : o.Leads m m') :
    o.microcode.execute m.core = .ok () m'.core := by
  cases o with
  | pha | php | jsr | brk => exact Instruction.Leads.execute h
  | interrupt i =>
    cases i with
    | nmi | reset => exact execute_of_interrupt h
    | irq =>
      rw [Leads, Machine.irq_apply] at h
      split at h
      next => cases h
      next =>
        obtain ⟨u, m₁, hinterrupt, hrest⟩ := bind_eq_ok.mp h
        cases hrest
        exact execute_of_interrupt hinterrupt

end Opening

/-- A bracket that has been closed, with the machines in front of its opening and behind its closing
instruction. -/
structure Bracket where
  opening : Opening
  closing : Instruction
  opened : Machine
  closed : Machine

/-- The bracket is found as it was opened. -/
def Bracket.Restores (b : Bracket) : Prop :=
  b.closed.registers.sp = b.opened.registers.sp ∧
    b.opening.BringsBack b.opened.registers b.closed.registers b.closing

/-- Execution from one machine to another, with the brackets that are closed on the way. The slots
are those that the brackets around it have filled. -/
inductive Segment : List UInt8 → Machine → List Bracket → Machine → Prop where
  | empty (held : List UInt8) (m : Machine) : Segment held m [] m
  /-- An instruction that leaves the stack pointer and the open brackets alone. -/
  | plain {held : List UInt8} {m m' : Machine} {i : Instruction} (hleads : i.Leads m m')
      (hstays : ¬ i.MovesStackPointer)
      (hspares : ∀ t ∈ m.stepEpisode.transfers, ∀ slot ∈ held, ¬ t.Overwrites m.board slot) :
      Segment held m [] m'
  /-- A bracket around a segment. -/
  | bracket {held : List UInt8} {o : Opening} {i : Instruction} {m m₁ m₂ m' : Machine}
      {bs : List Bracket} (hopens : o.Leads m m₁) (hroom : held.length + o.width ≤ 256)
      (inner : Segment (o.slots m.registers.sp ++ held) m₁ bs m₂) (hfits : o.ClosedBy i)
      (hcloses : i.Leads m₂ m') : Segment held m (bs ++ [⟨o, i, m, m'⟩]) m'
  | append {held : List UInt8} {m m₁ m' : Machine} {bs bs' : List Bracket}
      (first : Segment held m bs m₁) (rest : Segment held m₁ bs' m') :
      Segment held m (bs ++ bs') m'

theorem Machine.board_of_step_ok {m m' : Machine} (h : step m = .ok () m') :
    m'.board = m.board.replay m.stepEpisode.transfers := by
  have hconveys := conveys_step m
  rw [h] at hconveys
  have hreplay := hconveys.unfolds.traffic.eq_replay
  rwa [List.flatMap_singleton] at hreplay

/-- A segment leaves the stack pointer and the bytes of the brackets around it alone. -/
theorem Segment.balanced {held : List UInt8} {m m' : Machine} {bs : List Bracket}
    (h : Segment held m bs m') (hheld : held = slotsAbove m.registers.sp held.length) :
    m'.registers.sp = m.registers.sp ∧ m'.core.stack held.length = m.core.stack held.length ∧
      ∀ b ∈ bs, b.Restores := by
  induction h with
  | empty held m => exact ⟨rfl, rfl, fun b hb => (List.not_mem_nil hb).elim⟩
  | @plain held m m' i hleads hstays hspares =>
    have hsp : m'.registers.sp = m.registers.sp :=
      (Instruction.leaves_microcode hstays).of_ok hleads.execute
    have hboard := Machine.board_of_step_ok hleads.2
    refine ⟨hsp, ?_, fun b hb => (List.not_mem_nil hb).elim⟩
    change m'.board.stackAbove m'.registers.sp _ = _
    rw [hsp, hboard]
    refine m.board.stackAbove_replay fun t ht slot hslot => hspares t ht slot ?_
    rw [hheld]
    exact hslot
  | @bracket held o i m m₁ m₂ m' bs hopens hroom inner hfits hcloses ih =>
    have hlength := o.length_frame m.registers
    have hpushes := Opening.pushes_of_execute (Opening.execute_of_leads hopens)
    have hsp₁ : m₁.registers.sp = m.registers.sp - UInt8.ofNat o.width := hlength ▸ hpushes.sp
    have hstack₁ := hpushes.stack held.length (hlength.symm ▸ hroom)
    have hcount : (o.slots m.registers.sp ++ held).length = held.length + o.width := by
      rw [List.length_append, Opening.slots, length_slotsAbove, Nat.add_comm]
    have hslots : o.slots m.registers.sp ++ held =
        slotsAbove m₁.registers.sp (held.length + o.width) := by
      rw [hsp₁, slotsAbove_add, UInt8.sub_add_cancel, ← hheld, Opening.slots]
    -- The inner segment starts and ends with the bytes of this bracket on top.
    rw [hcount] at ih
    obtain ⟨hsp₂, hstack₂, hinner⟩ := ih hslots
    replace hsp₂ : m₂.core.registers.sp = m.core.registers.sp - UInt8.ofNat o.width :=
      hsp₂.trans hsp₁
    replace hstack₂ := hstack₂.trans (hlength ▸ hstack₁)
    obtain ⟨hsp, hboard, hback⟩ := hfits.bringsBack hsp₂ hstack₂ hcloses.execute
    refine ⟨hsp, ?_, fun b hb => ?_⟩
    · rw [Core.stack, hsp, hboard]
      exact Core.stackAbove_of_append hsp₂ hlength hstack₂
    · rcases List.mem_append.mp hb with hb | hb
      · exact hinner b hb
      · rw [List.mem_singleton.mp hb]
        exact ⟨hsp, hback⟩
  | append first rest ihfirst ihrest =>
    obtain ⟨hsp, hstack, hfirst⟩ := ihfirst hheld
    obtain ⟨hsp', hstack', hrest⟩ := ihrest (by rw [hsp]; exact hheld)
    refine ⟨hsp'.trans hsp, hstack'.trans hstack, fun b hb => ?_⟩
    rcases List.mem_append.mp hb with hb | hb
    · exact hfirst b hb
    · exact hrest b hb

/-- Through any nesting of calls, interrupts and pushes that are closed in their order, with at most
256 bytes open at any time, the stack pointer ends where it started. Every return from a call
continues behind its own call, every return from an interrupt where the program was interrupted and
with the status of that moment, and every pull gets the byte that its own push has stored. -/
theorem balanced_segment {m m' : Machine} {bs : List Bracket} (h : Segment [] m bs m') :
    m'.registers.sp = m.registers.sp ∧ ∀ b ∈ bs, b.Restores := by
  obtain ⟨hsp, -, hrestores⟩ := h.balanced rfl
  exact ⟨hsp, hrestores⟩

/-! ## One segment -/

namespace Machine

/-- A routine in RAM right behind the call of it, and a stack pointer that is about to wrap:
`JSR $0003`, `PHP`, `LDA #$40`, `STA $80`, `PLP`, `RTS`. -/
def callingRoutine : Machine :=
  [0x20, 0x03, 0x00, 0x08, 0xA9, 0x40, 0x85, 0x80, 0x28, 0x60].zipIdx.foldl
    (fun m byte => m.poke (UInt16.ofNat byte.2) byte.1)
    ((logging []).setRegisters { Registers.powerOn with sp := 0 })

end Machine

open Machine in
/-- A call around a push around a load and a store. -/
theorem balanced_segment_call_and_push :
    ∃ bs m', Segment [] callingRoutine bs m' ∧ bs.map Bracket.opening = [.php, .jsr] ∧
      m'.registers.sp = callingRoutine.registers.sp ∧ ∀ b ∈ bs, b.Restores := by
  let s₀ := callingRoutine
  let s₁ := finalState (step s₀)
  let s₂ := finalState (step s₁)
  let s₃ := finalState (step s₂)
  let s₄ := finalState (step s₃)
  let s₅ := finalState (step s₄)
  let s₆ := finalState (step s₅)
  have hjsr : Opening.jsr.Leads s₀ s₁ := ⟨by decide +kernel, Succeeds.eq_ok (by decide +kernel)⟩
  have hphp : Opening.php.Leads s₁ s₂ :=
    ⟨by decide +kernel, Succeeds.eq_ok (by decide +kernel)⟩
  have hlda : (Instruction.read .lda .immediate).Leads s₂ s₃ :=
    ⟨by decide +kernel, Succeeds.eq_ok (by decide +kernel)⟩
  have hsta : (Instruction.store .sta .zeroPage).Leads s₃ s₄ :=
    ⟨by decide +kernel, Succeeds.eq_ok (by decide +kernel)⟩
  have hplp : (Instruction.stack .plp).Leads s₄ s₅ :=
    ⟨by decide +kernel, Succeeds.eq_ok (by decide +kernel)⟩
  have hrts : Instruction.rts.Leads s₅ s₆ := ⟨by decide +kernel, Succeeds.eq_ok (by decide +kernel)⟩
  let held := Opening.php.slots s₁.registers.sp ++ (Opening.jsr.slots s₀.registers.sp ++ [])
  have hload : Segment held s₂ [] s₃ := .plain hlda id (by decide +kernel)
  have hstore : Segment held s₃ [] s₄ := .plain hsta id (by decide +kernel)
  have hpush := Segment.bracket hphp (by decide) (hload.append hstore) .php_plp hplp
  have hsegment := @Segment.bracket [] _ _ _ _ _ _ _ hjsr (by decide) hpush .jsr_rts hrts
  exact ⟨_, _, hsegment, rfl, balanced_segment hsegment⟩

end Mos6502
