import Mos6502.Proofs.Brackets

/-!
# In which order an instruction reads

Only reads of the ROM window can fail, and only on a board with bank switching.
`Instruction.readOrder` lists the addresses behind the opcode that an instruction reads there, in
the order of the reads: operand bytes, pointer, data, vector. Pulls are not in the list, for the
stack can always be read.

Every instruction but `BRK` makes all these reads before it changes anything, and what it does
afterwards cannot fail (`Instruction.readsThenActs`). `BRK` and the interrupts read last: their
vector, with the return address and the status on the stack already. So an instruction fails exactly
if something on its list cannot be read, and the first such address is the one that it reports
(`Core.cycle_eq_error_iff`).
-/

namespace Mos6502

variable {α β : Type}

/-! ## Reads that fail -/

/-- The bank registers put an address of the ROM window behind the end of the image. -/
def Mmc1.PastImage (b : Mmc1) (address : UInt16) : Prop :=
  0x8000 ≤ address.toNat ∧ b.prg.size ≤ b.romOffset address

namespace Board

/-- Only a board with banks fails to read, and only past its image. -/
theorem read_eq_error_iff {b : Board} {address : UInt16} {e : BoardError} :
    b.read address = .error e ↔
      ∃ mmc1, b = .mmc1 mmc1 ∧ mmc1.PastImage address ∧ e = mmc1.outOfRange address := by
  constructor
  · intro h
    have hrom : 0x8000 ≤ address.toNat := by
      by_contra hlow
      have hlt : address < 0x8000 := by
        rw [UInt16.lt_iff_toNat_lt]
        exact Nat.lt_of_not_le hlow
      obtain ⟨v, hv⟩ := b.exists_read_of_lt hlt
      cases hv.symm.trans h
    cases b with
    | nrom b => cases h
    | flat b => cases h
    | mmc1 b =>
      rw [read, b.read_of_rom hrom] at h
      split at h
      next => cases h
      next hout =>
        cases h
        exact ⟨b, rfl, ⟨hrom, Nat.le_of_not_lt hout⟩, rfl⟩
  · rintro ⟨b, rfl, ⟨hrom, hout⟩, rfl⟩
    rw [read, b.read_of_rom hrom, dif_neg (Nat.not_lt.mpr hout)]

/-- The byte at an address; zero, if it cannot be read. -/
def byteAt (b : Board) (address : UInt16) : UInt8 :=
  match b.read address with
  | .ok v => v
  | .error _ => 0

/-- The word at an address, with a zero for a byte that cannot be read. -/
def wordAt (b : Board) (address : UInt16) : UInt16 :=
  Microcode.word (b.byteAt address) (b.byteAt (address + 1))

theorem byteAt_of_ok {b : Board} {address : UInt16} {v : UInt8} (h : b.read address = .ok v) :
    b.byteAt address = v := by
  simp only [byteAt, h]

/-- An address is the first in a list that cannot be read. -/
inductive FirstUnreadable (b : Board) : List UInt16 → UInt16 → BoardError → Prop where
  | here {address : UInt16} {rest : List UInt16} {e : BoardError}
      (hread : b.read address = .error e) : FirstUnreadable b (address :: rest) address e
  | later {address missing : UInt16} {rest : List UInt16} {e : BoardError} {v : UInt8}
      (hread : b.read address = .ok v) (hrest : FirstUnreadable b rest missing e) :
      FirstUnreadable b (address :: rest) missing e

namespace FirstUnreadable

variable {b : Board} {order : List UInt16} {address missing : UInt16} {e : BoardError}

theorem cons_iff_of_ok {v : UInt8} (h : b.read address = .ok v) :
    b.FirstUnreadable (address :: order) missing e ↔ b.FirstUnreadable order missing e := by
  constructor
  · rintro (⟨hread⟩ | ⟨-, hrest⟩)
    · cases h.symm.trans hread
    · exact hrest
  · exact .later h

theorem cons_iff_of_error {e' : BoardError} (h : b.read address = .error e') :
    b.FirstUnreadable (address :: order) missing e ↔ missing = address ∧ e = e' := by
  constructor
  · rintro (⟨hread⟩ | ⟨hread, -⟩)
    · cases h.symm.trans hread
      exact ⟨rfl, rfl⟩
    · cases h.symm.trans hread
  · rintro ⟨rfl, rfl⟩
    exact .here h

/-- In a list with an unreadable first address there is something readable only in front of it. -/
theorem exists_eq_append (h : b.FirstUnreadable order missing e) :
    ∃ before after, order = before ++ missing :: after ∧
      (∀ a ∈ before, ∃ v, b.read a = .ok v) ∧ b.read missing = .error e := by
  induction h with
  | @here address rest e hread => exact ⟨[], rest, rfl, by simp, hread⟩
  | @later address missing rest e v hread hrest ih =>
    obtain ⟨before, after, rfl, hbefore, hmissing⟩ := ih
    refine ⟨address :: before, after, rfl, ?_, hmissing⟩
    rintro a (_ | ⟨_, ha⟩)
    · exact ⟨v, hread⟩
    · exact hbefore a ha

/-- The first address that cannot be read stays so on a board that reads the same. -/
theorem mono {b' : Board} (h : b.FirstUnreadable order missing e)
    (hread : ∀ a ∈ order, b'.read a = b.read a) : b'.FirstUnreadable order missing e := by
  induction h with
  | here hmissing => exact .here ((hread _ List.mem_cons_self).trans hmissing)
  | later hfirst _ ih =>
    refine .later ((hread _ List.mem_cons_self).trans hfirst) (ih fun a ha => ?_)
    exact hread a (List.mem_cons_of_mem _ ha)

theorem congr {b' : Board} (hread : ∀ a ∈ order, b'.read a = b.read a) :
    b'.FirstUnreadable order missing e ↔ b.FirstUnreadable order missing e :=
  ⟨fun h => h.mono fun a ha => (hread a ha).symm, fun h => h.mono hread⟩

end FirstUnreadable

/-- A write to the stack does not show in the ROM window. -/
theorem read_write_stackSlot (b : Board) (s v : UInt8) {address : UInt16}
    (h : 0x8000 ≤ address.toNat) : (b.write (stackSlot s) v).read address = b.read address := by
  cases b with
  | flat b =>
    have hne : ¬ stackSlot s = address := by
      rintro rfl
      rw [toNat_stackSlot] at h
      have := s.toNat_lt
      omega
    exact congrArg Except.ok ((Flat.read_write b (stackSlot s) address v).trans (if_neg hne))
  | nrom b =>
    have hregion := Region.of_eq_cartRom h
    simp only [write, Nrom.write, Region.of_stackSlot, read, Nrom.read, hregion]
    rfl
  | mmc1 b =>
    simp only [write, Mmc1.write, Region.of_stackSlot, read, Mmc1.read_of_rom _ h]
    rfl

end Board

/-! ## Microcode that reads first -/

namespace Microcode

/-- The sequence ends with a result, wherever it is executed. -/
def Infallible (p : Microcode α) : Prop := ∀ c, ∃ a c', p.execute c = .ok a c'

theorem Infallible.bind {p : Microcode α} {f : α → Microcode β} (hp : p.Infallible)
    (hf : ∀ a, (f a).Infallible) : (p >>= f).Infallible := by
  intro c
  obtain ⟨a, c₁, hfirst⟩ := hp c
  obtain ⟨b, c₂, hrest⟩ := hf a c₁
  exact ⟨b, c₂, (execute_bind_of_ok hfirst).trans hrest⟩

theorem infallible_getRegisters : getRegisters.Infallible := fun c => ⟨_, c, rfl⟩

theorem infallible_modifyRegisters (f : Registers → Registers) :
    (modifyRegisters f).Infallible := fun _ => ⟨(), _, rfl⟩

theorem infallible_writeByte (address : UInt16) (v : UInt8) :
    (writeByte address v).Infallible := fun _ => ⟨(), _, rfl⟩

/-- Writes to the stack page always succeed. -/
theorem infallible_push (v : UInt8) : (push v).Infallible := fun _ => ⟨(), _, rfl⟩

theorem infallible_pushWord (v : UInt16) : (pushWord v).Infallible := fun _ => ⟨(), _, rfl⟩

/-- Reads of the stack page always succeed. -/
theorem infallible_pull : pull.Infallible := fun c => ⟨_, _, execute_pull c⟩

theorem infallible_pullWord : pullWord.Infallible := fun c => ⟨_, _, execute_pullWord c⟩

theorem infallible_stack (op : StackOp) : op.microcode.Infallible := by
  cases op with
  | pha | php => exact infallible_getRegisters.bind fun _ => infallible_push _
  | pla | plp => exact infallible_pull.bind fun _ => infallible_modifyRegisters _

/-- The addresses that a sequence of reads goes through, if a zero stands for every byte that cannot
be read. -/
def reads : Microcode α → Core → List UInt16
  | done _, _ => []
  | read address next, c => address :: (next (c.board.byteAt address)).reads c
  | write address v next, c => next.reads { c with board := c.board.write address v }
  | inspect next, c => (next c.registers).reads c
  | assign registers next, c => next.reads { c with registers := registers }

/-- A sequence of reads fails at the first byte that cannot be read. -/
theorem ReadsOnly.execute_eq_error_iff {p : Microcode α} (h : p.ReadsOnly) (c : Core)
    {e : BoardError} :
    p.execute c = .error e c ↔ ∃ address, c.board.FirstUnreadable (p.reads c) address e := by
  induction p with
  | done result => exact ⟨nofun, nofun⟩
  | read address next ih =>
    cases hread : c.board.read address with
    | ok v =>
      simp only [Microcode.execute, reads, hread, Board.byteAt_of_ok hread,
        Board.FirstUnreadable.cons_iff_of_ok hread]
      exact ih v (h v)
    | error e' =>
      simp only [Microcode.execute, reads, hread, Board.FirstUnreadable.cons_iff_of_error hread,
        EStateM.Result.error.injEq, and_true, exists_eq_left]
      exact eq_comm
  | write => exact h.elim
  | inspect next ih => exact ih c.registers (h c.registers)
  | assign => exact h.elim

/-- So does a look at a copy. -/
theorem ReadsOnly.peek_eq_error_iff {p : Microcode α} (h : p.ReadsOnly) (c : Core)
    {e : BoardError} :
    p.peek c = .error e ↔ ∃ address, c.board.FirstUnreadable (p.reads c) address e := by
  rw [← h.execute_eq_error_iff]
  refine ⟨h.execute_of_peek_error, fun hexecute => ?_⟩
  rw [peek, hexecute]

/-- The sequence reads from these addresses before it changes anything, and what it does then
cannot fail. -/
def ReadsThenActs (p : Microcode α) (order : Core → List UInt16) : Prop :=
  ∃ (β : Type) (q : Microcode β) (f : β → Microcode α),
    p = q >>= f ∧ q.ReadsOnly ∧ (∀ b, (f b).Infallible) ∧ ∀ c, q.reads c = order c

namespace ReadsThenActs

variable {p : Microcode α} {order : Core → List UInt16}

/-- Reads come first if what follows them cannot fail. -/
theorem intro {q : Microcode β} {f : β → Microcode α} (hq : q.ReadsOnly)
    (hf : ∀ b, (f b).Infallible) (horder : ∀ c, q.reads c = order c) :
    (q >>= f).ReadsThenActs order := ⟨β, q, f, rfl, hq, hf, horder⟩

/-- Nothing is read but from the stack. -/
theorem of_infallible (h : p.Infallible) : p.ReadsThenActs fun _ => [] :=
  ⟨Unit, done (), fun _ => p, rfl, trivial, fun _ => h, fun _ => rfl⟩

/-- It fails exactly if one of the reads does, and then nothing has changed. -/
theorem execute_eq_error_iff (h : p.ReadsThenActs order) {c c' : Core} {e : BoardError} :
    p.execute c = .error e c' ↔
      c' = c ∧ ∃ address, c.board.FirstUnreadable (order c) address e := by
  obtain ⟨β, q, f, rfl, hq, hf, horder⟩ := h
  rw [← horder, ← hq.execute_eq_error_iff c]
  have hsame := hq.execute c
  cases hfirst : q.execute c with
  | ok b c₁ =>
    obtain ⟨a, c₂, hrest⟩ := hf b c₁
    rw [execute_bind_of_ok hfirst, hrest]
    exact ⟨nofun, nofun⟩
  | error e' c₁ =>
    rw [hfirst] at hsame
    cases hsame
    rw [execute_bind_of_error hfirst]
    constructor
    · rintro ⟨⟩
      exact ⟨rfl, rfl⟩
    · rintro ⟨rfl, ⟨⟩⟩
      rfl

end ReadsThenActs

end Microcode

/-! ## What an instruction reads -/

/-- The addresses of a word, in the order in which they are read. -/
def wordAddresses (address : UInt16) : List UInt16 := [address, address + 1]

/-- A word fails to be read at the first of its two bytes that does. -/
theorem Core.peekWord_eq_error_iff {c : Core} {address : UInt16} {e : BoardError} :
    c.peekWord address = .error e ↔
      ∃ missing, c.board.FirstUnreadable (wordAddresses address) missing e :=
  (Microcode.readsOnly_readWord address).peek_eq_error_iff c

namespace AddressingMode

/-- Where the operand bytes lie that tell the effective address. An immediate operand is data. -/
def operandAddresses (pc : UInt16) : AddressingMode → List UInt16
  | implied | accumulator | immediate => []
  | relative | zeroPage | zeroPageX | zeroPageY | indexedIndirect | indirectIndexed => [pc + 1]
  | absolute | absoluteX | absoluteY | indirect => wordAddresses (pc + 1)

/-- Where the pointer lies, if the mode has one. -/
def pointer? (b : Board) (r : Registers) : AddressingMode → Option UInt16
  | indirect => some (b.wordAt (r.pc + 1))
  | indexedIndirect => some (b.byteAt (r.pc + 1) + r.x).toUInt16
  | indirectIndexed => some (b.byteAt (r.pc + 1)).toUInt16
  | implied | accumulator | immediate | relative | zeroPage | zeroPageX | zeroPageY | absolute
  | absoluteX | absoluteY => none

/-- What resolving an operand reads: operand bytes, then the pointer. -/
def readOrder (mode : AddressingMode) (b : Board) (r : Registers) : List UInt16 :=
  mode.operandAddresses r.pc ++ (mode.pointer? b r).elim [] wordAddresses

/-- The address that an operand stands for. -/
def effective (b : Board) (r : Registers) : AddressingMode → UInt16
  | implied | accumulator => r.pc
  | immediate => r.pc + 1
  | relative => Alu.branchTarget r.pc (b.byteAt (r.pc + 1))
  | zeroPage => (b.byteAt (r.pc + 1)).toUInt16
  | zeroPageX => (b.byteAt (r.pc + 1) + r.x).toUInt16
  | zeroPageY => (b.byteAt (r.pc + 1) + r.y).toUInt16
  | absolute => b.wordAt (r.pc + 1)
  | absoluteX => b.wordAt (r.pc + 1) + r.x.toUInt16
  | absoluteY => b.wordAt (r.pc + 1) + r.y.toUInt16
  | indirect => b.wordAt (b.wordAt (r.pc + 1))
  | indexedIndirect => b.wordAt (b.byteAt (r.pc + 1) + r.x).toUInt16
  | indirectIndexed => b.wordAt (b.byteAt (r.pc + 1)).toUInt16 + r.y.toUInt16

/-- The reads of resolving an operand are those of its mode, in order. -/
theorem reads_resolve (mode : AddressingMode) (c : Core) :
    mode.resolve.reads c = mode.readOrder c.board c.registers := by
  cases mode <;> rfl

end AddressingMode

/-- A sequence that reads its operand first. -/
theorem Microcode.readsThenActs_operand (mode : AddressingMode)
    {f : UInt16 → UInt8 → Microcode α} (hf : ∀ address v, (f address v).Infallible) :
    (mode.resolve >>= fun address => readByte address >>= f address).ReadsThenActs fun c =>
      mode.readOrder c.board c.registers ++ [mode.effective c.board c.registers] := by
  refine ⟨UInt16 × UInt8,
    mode.resolve >>= fun address => readByte address >>= fun v => pure (address, v),
    fun operand => f operand.1 operand.2, ?_, ?_, fun operand => hf _ _, ?_⟩
  · simp only [LawfulMonad.bind_assoc, pure_bind]
  · exact (readsOnly_resolve mode).bind fun address =>
      (readsOnly_readByte address).bind fun v => readsOnly_pure _
  · intro c
    cases mode <;> rfl

namespace Instruction

/-- Where an instruction reads data. A store does not read what it overwrites, a jump does not read
what it jumps to, and what is pulled lies on the stack. -/
def dataAddresses (b : Board) (r : Registers) : Instruction → List UInt16
  | read _ mode => [mode.effective b r]
  | modify _ .accumulator => []
  | modify _ mode => [mode.effective b r]
  | brk => wordAddresses Interrupt.irq.vector
  | store .. | internal _ | stack _ | branch _ | jmp _ | jsr | rts | rti => []

/-- Where an instruction reads behind its opcode: operand bytes, pointer, and data or vector. -/
def readOrder (i : Instruction) (b : Board) (r : Registers) : List UInt16 :=
  i.mode.readOrder b r ++ i.dataAddresses b r

open Microcode

/-- Every instruction but `BRK` has read all that it needs before it changes anything. -/
theorem readsThenActs {i : Instruction} (h : i ≠ brk) :
    i.microcode.ReadsThenActs fun c => i.readOrder c.board c.registers := by
  have hnone : ∀ mode : AddressingMode, ∀ c : Core,
      mode.resolve.reads c = mode.readOrder c.board c.registers ++ [] :=
    fun mode c => (mode.reads_resolve c).trans (List.append_nil _).symm
  cases i with
  | read op mode => exact readsThenActs_operand mode fun _ _ => infallible_modifyRegisters _
  | store op mode =>
    refine .intro (readsOnly_resolve mode) (fun _ => ?_) (hnone mode)
    exact infallible_getRegisters.bind fun _ =>
      (infallible_writeByte _ _).bind fun _ => infallible_modifyRegisters _
  | modify op mode =>
    cases mode with
    | accumulator => exact .of_infallible (infallible_modifyRegisters _)
    | _ => exact readsThenActs_operand _ fun _ _ _ => ⟨(), _, rfl⟩
  | internal op => exact .of_infallible (infallible_modifyRegisters _)
  | stack op =>
    exact .of_infallible ((infallible_stack op).bind fun _ => infallible_modifyRegisters _)
  | branch op =>
    exact .intro (readsOnly_resolve .relative) (fun _ => infallible_modifyRegisters _)
      (hnone .relative)
  | jmp mode =>
    exact .intro (readsOnly_resolve mode) (fun _ => infallible_modifyRegisters _) (hnone mode)
  | jsr =>
    refine .intro (readsOnly_resolve .absolute) (fun _ => ?_) (hnone .absolute)
    exact infallible_getRegisters.bind fun _ =>
      (infallible_pushWord _).bind fun _ => infallible_modifyRegisters _
  | rts => exact .of_infallible (infallible_pullWord.bind fun _ => infallible_modifyRegisters _)
  | rti =>
    exact .of_infallible <| infallible_pull.bind fun _ =>
      (infallible_modifyRegisters _).bind fun _ =>
        infallible_pullWord.bind fun _ => infallible_modifyRegisters _
  | brk => exact absurd rfl h

end Instruction

/-! ## Vectors -/

/-- The processor and the board with an address and a status byte pushed. -/
def Core.entered (c : Core) (back : UInt16) (status : UInt8) : Core :=
  ((c.pushed (back >>> 8).toUInt8).pushed back.toUInt8).pushed status

/-- The vectors lie in the ROM window. -/
theorem Interrupt.le_of_mem_vector (i : Interrupt) :
    ∀ address ∈ wordAddresses i.vector, 0x8000 ≤ address.toNat := by
  have hall : (wordAddresses i.vector).all (0x8000 ≤ ·.toNat) = true := by cases i <;> decide
  simpa only [List.all_eq_true, decide_eq_true_eq] using hall

namespace Microcode

/-- Continue at the address that a vector holds. -/
def follow (i : Interrupt) : Microcode Unit := do
  let target ← readWord i.vector
  modifyRegisters fun r => { r with pc := target }

/-- Following a vector reads its two bytes and then cannot fail. -/
theorem readsThenActs_follow (i : Interrupt) :
    (follow i).ReadsThenActs fun _ => wordAddresses i.vector :=
  .intro (readsOnly_readWord _) (fun _ => infallible_modifyRegisters _) fun _ => rfl

end Microcode

/-- What an interrupt has done when it reads its vector. -/
def Core.interrupted (c : Core) : Core :=
  c.entered c.registers.pc c.registers.status.pushedByInterrupt

/-- What `BRK` has done when it reads its vector. -/
def Core.broken (c : Core) : Core :=
  let entered := c.entered (c.registers.pc + 2) c.registers.status.pushedBySoftware
  { entered with registers :=
    { entered.registers with status := c.registers.status.set .irqDisable true } }

section Vectors

variable {c : Core} {address : UInt16}

/-- Entering an interrupt writes to the stack page, and leaves the ROM window alone. -/
theorem Core.read_entered {back : UInt16} {status : UInt8} (h : 0x8000 ≤ address.toNat) :
    (c.entered back status).board.read address = c.board.read address := by
  simp only [entered, pushed, Board.read_write_stackSlot _ _ _ h]

theorem Core.read_interrupted (h : 0x8000 ≤ address.toNat) :
    c.interrupted.board.read address = c.board.read address := read_entered h

theorem Core.read_broken (h : 0x8000 ≤ address.toNat) :
    c.broken.board.read address = c.board.read address := by
  have hboard : c.broken.board =
      (c.entered (c.registers.pc + 2) c.registers.status.pushedBySoftware).board := rfl
  rw [hboard, read_entered h]

end Vectors

open Microcode in
/-- An interrupt fails exactly if a byte of its vector cannot be read, with everything pushed. -/
theorem Interrupt.execute_eq_error_iff (i : Interrupt) {c c' : Core} {e : BoardError} :
    i.microcode.execute c = .error e c' ↔
      c' = c.interrupted ∧
        ∃ address, c.board.FirstUnreadable (wordAddresses i.vector) address e := by
  have hfollow : i.microcode.execute c = (follow i).execute c.interrupted := rfl
  rw [hfollow, (readsThenActs_follow i).execute_eq_error_iff]
  refine and_congr_right fun _ => exists_congr fun address => ?_
  exact Board.FirstUnreadable.congr fun a ha => Core.read_interrupted (i.le_of_mem_vector a ha)

open Microcode in
/-- An instruction fails exactly if a byte that it reads cannot be read. Only `BRK` has changed
anything by then. -/
theorem Instruction.execute_eq_error_iff (i : Instruction) {c c' : Core} {e : BoardError} :
    i.microcode.execute c = .error e c' ↔
      c' = (if i = brk then c.broken else c) ∧
        ∃ address, c.board.FirstUnreadable (i.readOrder c.board c.registers) address e := by
  by_cases hbrk : i = brk
  · subst hbrk
    have hfollow : brk.microcode.execute c = (follow .irq).execute c.broken := rfl
    rw [hfollow, (readsThenActs_follow .irq).execute_eq_error_iff, if_pos rfl]
    refine and_congr_right fun _ => exists_congr fun address => ?_
    exact Board.FirstUnreadable.congr fun a ha =>
      Core.read_broken (Interrupt.irq.le_of_mem_vector a ha)
  · rw [(readsThenActs hbrk).execute_eq_error_iff, if_neg hbrk]

/-! ## What the next instruction reads -/

namespace Core

/-- The addresses that the next instruction reads, its opcode first. -/
def readOrder (c : Core) : List UInt16 :=
  c.registers.pc :: match Instruction.decode (c.board.byteAt c.registers.pc) with
    | some i => i.readOrder c.board c.registers
    | none => []

/-- Microcode fails with the errors of the board and no others. -/
theorem perform_eq_error_iff {p : Microcode α} {c c' : Core} {err : ExecutionError} :
    perform p c = .error err c' ↔ ∃ e, err = .board e ∧ p.execute c = .error e c' := by
  cases hexecute : p.execute c with
  | ok a c₁ => simp [perform, hexecute]
  | error e c₁ => simp [perform, hexecute, eq_comm]

/-- An instruction reads its opcode first. -/
theorem readOrder_of_some {c : Core} {opcode : UInt8} {i : Instruction}
    (hread : c.board.read c.registers.pc = .ok opcode)
    (hdecode : Instruction.decode opcode = some i) :
    c.readOrder = c.registers.pc :: i.readOrder c.board c.registers := by
  rw [readOrder, Board.byteAt_of_ok hread, hdecode]

theorem readOrder_of_none {c : Core} {opcode : UInt8}
    (hread : c.board.read c.registers.pc = .ok opcode)
    (hdecode : Instruction.decode opcode = none) : c.readOrder = [c.registers.pc] := by
  rw [readOrder, Board.byteAt_of_ok hread, hdecode]

/-- What a cycle that fails leaves behind. Only `BRK` has changed anything by then. -/
def failed (c : Core) : Core := if Instruction.brk.FetchedFrom c then c.broken else c

/-- Only `BRK` can fail after it has written something. -/
theorem failed_of_not_brk {c : Core} (h : ¬ Instruction.brk.FetchedFrom c) : c.failed = c :=
  if_neg h

/-- Why a cycle fails: a byte that encodes no instruction, or a byte that cannot be read. -/
inductive Fails (c : Core) : ExecutionError → Prop where
  | unimplemented {opcode : UInt8} (hread : c.board.read c.registers.pc = .ok opcode)
      (hdecode : Instruction.decode opcode = none) :
      Fails c (.unimplementedOpcode c.registers.pc opcode)
  | unreadable {address : UInt16} {e : BoardError}
      (h : c.board.FirstUnreadable c.readOrder address e) : Fails c (.board e)

end Core

namespace Instruction.FetchedFrom

variable {i j : Instruction} {c : Core} {err : ExecutionError}

theorem unique (hi : i.FetchedFrom c) (hj : j.FetchedFrom c) : i = j := by
  obtain ⟨opcode, hread, hdecode⟩ := hi
  obtain ⟨opcode', hread', hdecode'⟩ := hj
  cases hread.symm.trans hread'
  exact Option.some.inj (hdecode.symm.trans hdecode')

theorem failed_eq (h : i.FetchedFrom c) : c.failed = if i = brk then c.broken else c := by
  refine if_congr ⟨h.unique, ?_⟩ rfl rfl
  rintro rfl
  exact h

/-- Once it is fetched, only a byte that it reads can make an instruction fail. -/
theorem fails_iff (h : i.FetchedFrom c) :
    c.Fails err ↔ ∃ e, err = .board e ∧
      ∃ address, c.board.FirstUnreadable (i.readOrder c.board c.registers) address e := by
  obtain ⟨opcode, hread, hdecode⟩ := h
  have horder : ∀ address e, c.board.FirstUnreadable c.readOrder address e ↔
      c.board.FirstUnreadable (i.readOrder c.board c.registers) address e := by
    intro address e
    rw [Core.readOrder_of_some hread hdecode, Board.FirstUnreadable.cons_iff_of_ok hread]
  constructor
  · rintro (⟨hopcode, hnone⟩ | ⟨hfirst⟩)
    · cases hread.symm.trans hopcode
      cases hdecode.symm.trans hnone
    · exact ⟨_, rfl, _, (horder _ _).mp hfirst⟩
  · rintro ⟨e, rfl, address, hfirst⟩
    exact .unreadable ((horder address e).mpr hfirst)

end Instruction.FetchedFrom

namespace Core

variable {c c' : Core} {err : ExecutionError}

/-- Without an instruction at the program counter nothing happens. -/
theorem failed_of_not_fetched (h : ¬ ∃ i : Instruction, i.FetchedFrom c) : c.failed = c :=
  failed_of_not_brk fun hbrk => h ⟨.brk, hbrk⟩

/-- A cycle that fails leaves a known core behind. -/
theorem cycle_eq_error_iff : c.cycle = .error err c' ↔ c' = c.failed ∧ c.Fails err := by
  cases hread : c.board.read c.registers.pc with
  | error e =>
    have hcycle : c.cycle = .error (.board e) c := by simp only [cycle, hread]
    have hnot : ¬ ∃ i : Instruction, i.FetchedFrom c := by
      rintro ⟨i, v, hv, -⟩
      cases hread.symm.trans hv
    rw [hcycle, failed_of_not_fetched hnot]
    constructor
    · rintro ⟨⟩
      exact ⟨rfl, .unreadable (.here hread)⟩
    · rintro ⟨rfl, ⟨hopcode, -⟩ | ⟨hfirst⟩⟩
      · cases hread.symm.trans hopcode
      · obtain ⟨-, rfl⟩ := (Board.FirstUnreadable.cons_iff_of_error hread).mp hfirst
        rfl
  | ok opcode =>
    cases hdecode : Instruction.decode opcode with
    | none =>
      have hcycle : c.cycle = .error (.unimplementedOpcode c.registers.pc opcode) c := by
        simp only [cycle, hread, hdecode]
      have hnot : ¬ ∃ i : Instruction, i.FetchedFrom c := by
        rintro ⟨i, v, hv, hi⟩
        cases hread.symm.trans hv
        cases hdecode.symm.trans hi
      rw [hcycle, failed_of_not_fetched hnot]
      constructor
      · rintro ⟨⟩
        exact ⟨rfl, .unimplemented hread hdecode⟩
      · rintro ⟨rfl, ⟨hopcode, -⟩ | ⟨hfirst⟩⟩
        · cases hread.symm.trans hopcode
          rfl
        · rw [readOrder_of_none hread hdecode,
            Board.FirstUnreadable.cons_iff_of_ok hread] at hfirst
          cases hfirst
    | some i =>
      have hfetched : i.FetchedFrom c := ⟨opcode, hread, hdecode⟩
      have hcycle : c.cycle = perform i.microcode c := by simp only [cycle, hread, hdecode]
      rw [hcycle, perform_eq_error_iff, hfetched.failed_eq, hfetched.fails_iff]
      -- The opcode is read, so what is missing is missing for the instruction.
      simp only [i.execute_eq_error_iff, ← exists_and_left, and_left_comm]

end Core

end Mos6502
