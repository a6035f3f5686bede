import Mos6502.Proofs.AccessOrder
import Mos6502.Proofs.Calls

/-!
# The operand that is shown is the operand that is used

An operand is resolved twice: by the observers, who look at a copy, and by the instruction, in full
view. Resolving only reads, so both find the same (`unwatched_perform_of_readsOnly`), for every
addressing mode and wherever the program counter is. In a step that succeeds nothing comes between
them that could change the operand. So the address in the trace line is the one that the instruction
reads, writes or continues at (`rendered_address_is_used`).
-/

namespace Mos6502

variable {α : Type}

/-- Resolve an operand: its address, and the length of an instruction that has it. -/
def AddressingMode.located (mode : AddressingMode) : Microcode (UInt16 × Nat) := do
  return (← mode.resolve, mode.size)

/-- The operand text shows this address. Absolute operands, branch targets and page-zero operands
are written as the address, and page zero with the byte that is there; indexed operands and pointers
have it as a remark. -/
def Operand.Shows (b : Board) (address : UInt16) (operand : Operand) : AddressingMode → Prop
  | .implied | .accumulator | .immediate => operand.remark = none
  | .relative | .absolute => operand.text = Text.address address
  | .zeroPage => address = address.toUInt8.toUInt16 ∧
      operand.text = "$" ++ Text.hexByte address.toUInt8 ∧
      operand.remark = some ("= " ++ Text.hexByte (b.byteAt address))
  | .zeroPageX | .zeroPageY | .absoluteX | .absoluteY | .indirect | .indexedIndirect
  | .indirectIndexed => operand.remark = some ("@ " ++ Text.address address)

/-- What an instruction does with the address of its operand: it accesses data there, or continues
there. Branches continue there if they are taken. -/
def Instruction.ActsAt (address : UInt16) (data : List Transfer) (r r' : Registers) :
    Instruction → Prop
  | read .. => ∃ v, data = [.read address v]
  | store .. => ∃ v, data = [.write address v]
  | modify _ .accumulator | internal _ | stack _ | rts | rti | brk => True
  | modify .. => ∃ v w, data = [.read address v, .write address w]
  | branch op => r'.pc = if op.taken r.status then address else r.pc + 2
  | jmp _ | jsr => r'.pc = address

/-! ## Answers -/

/-- A look that succeeds gives the answer that is there without failures. -/
theorem Microcode.ReadsOnly.eq_answer_of_peek {p : Microcode α} (h : p.ReadsOnly) {c : Core} {a : α}
    (hpeek : p.peek c = .ok a) : a = p.answer c :=
  (course_and_answer_of_ok (h.execute_of_peek_ok hpeek)).2

namespace AddressingMode

/-- Resolving a mode gives its effective address, whatever could not be read. -/
theorem answer_resolve (mode : AddressingMode) (c : Core) :
    mode.resolve.answer c = mode.effective c.board c.registers := by
  cases mode <;> rfl

/-- Where the operand can be resolved, its address is the effective one. -/
theorem eq_effective {mode : AddressingMode} {c : Core} {address : UInt16}
    (h : mode.resolve.peek c = .ok address) : address = mode.effective c.board c.registers := by
  rw [(Microcode.readsOnly_resolve mode).eq_answer_of_peek h, answer_resolve]

theorem readsOnly_located (mode : AddressingMode) : mode.located.ReadsOnly :=
  (Microcode.readsOnly_resolve mode).bind fun _ => Microcode.readsOnly_pure _

theorem peek_located {mode : AddressingMode} {c : Core} {address : UInt16}
    (h : mode.resolve.peek c = .ok address) : mode.located.peek c = .ok (address, mode.size) := by
  have hresolve := (Microcode.readsOnly_resolve mode).execute_of_peek_ok h
  rw [Microcode.peek, located, Microcode.execute_bind_of_ok hresolve]
  rfl

end AddressingMode

/-! ## Looking and reading -/

namespace Machine

/-- A sequence that only reads answers in full view what it answers on a copy, and neither registers
nor board change. -/
theorem unwatched_perform_of_readsOnly {p : Microcode α} (h : p.ReadsOnly) (span : Option Span)
    (m : Machine) : unwatched (perform span p m) = unwatched (observe p.peek m) := by
  rw [unwatched_perform, Core.perform, observe]
  cases hpeek : p.peek m.core with
  | ok a => rw [h.execute_of_peek_ok hpeek]; rfl
  | error e => rw [h.execute_of_peek_error hpeek]; rfl

end Machine

/-! ## Rendering -/

/-- What stands in front of a character that is no space is not dropped. -/
theorem Text.prefix_trimRight {s : String} {front back : List Char} {c : Char}
    (h : s.toList = front ++ c :: back) (hc : c ≠ ' ') : front <+: (trimRight s).toList := by
  have hlast : [c].dropWhile (· == ' ') = [c] := by simp [hc]
  have hkept : (back.reverse ++ [c]).dropWhile (· == ' ') ≠ [] := by
    rw [List.dropWhile_append, hlast]
    split <;> simp
  have hdropped : (trimRight s).toList.reverse =
      (back.reverse ++ [c]).dropWhile (· == ' ') ++ front.reverse := by
    have hreverse : s.toList.reverse = (back.reverse ++ [c]) ++ front.reverse := by simp [h]
    rw [trimRight, String.toList_ofList, List.reverse_reverse, hreverse, List.dropWhile_append,
      if_neg (by simpa using hkept)]
  rw [← List.reverse_suffix, hdropped]
  exact List.suffix_append _ _

/-- A column in the middle of a line is not cut, if something follows it. -/
theorem Text.infix_trimRight_join (a b c d column next last : String) (width : Nat) {first : Char}
    {rest : List Char} (hnext : next.toList = first :: rest) (hfirst : first ≠ ' ') :
    column.toList <:+:
      (trimRight (join " " [a, b, c, d, padRight width column, next, last])).toList := by
  have hjoin : (join " " [a, b, c, d, padRight width column, next, last]).toList =
      ((join " " [a, b, c, d, ""]).toList ++ column.toList ++
        List.replicate (width - column.length) ' ' ++ [' ']) ++
          first :: (rest ++ ' ' :: last.toList) := by
    simp [join, padRight, hnext]
  refine List.IsInfix.trans ?_ (prefix_trimRight hjoin hfirst).isInfix
  rw [List.append_assoc]
  exact List.infix_append _ _ _

/-- The register line begins with a letter. -/
theorem Registers.exists_line_eq (r : Registers) : ∃ rest, r.line.toList = 'A' :: rest := by
  simp [line, column, Text.join]

namespace Core

variable {c : Core} {mode : AddressingMode} {operand : Operand}

theorem operand_eq (c : Core) (mode : AddressingMode) :
    c.operand mode = mode.resolve.peek c >>= fun address =>
      (if mode.size = 1 then pure 0 else c.peekByte (c.registers.pc + 1)) >>= fun byte =>
      (if mode.size = 3 then c.peekWord (c.registers.pc + 1)
        else pure byte.toUInt16) >>= fun word =>
      (if mode = .zeroPage then c.peekByte address else pure 0) >>= fun content =>
        pure (.render mode byte word address content) := by
  cases mode <;> rfl

/-- An operand text that can be rendered shows the effective address. -/
theorem operand_shows (h : c.operand mode = .ok operand) :
    mode.resolve.peek c = .ok (mode.effective c.board c.registers) ∧
      operand.Shows c.board (mode.effective c.board c.registers) mode := by
  rw [operand_eq] at h
  obtain ⟨address, hresolve, h⟩ := except_bind_eq_ok.mp h
  obtain ⟨byte, hbyte, h⟩ := except_bind_eq_ok.mp h
  obtain ⟨word, hword, h⟩ := except_bind_eq_ok.mp h
  obtain ⟨content, hcontent, h⟩ := except_bind_eq_ok.mp h
  cases h
  obtain rfl := AddressingMode.eq_effective hresolve
  refine ⟨hresolve, ?_⟩
  cases mode with
  | implied | accumulator | immediate => rfl
  | relative => rfl
  | zeroPage =>
    have heffective : AddressingMode.zeroPage.effective c.board c.registers = byte.toUInt16 := by
      rw [AddressingMode.effective, Board.byteAt_of_ok hbyte]
    rw [heffective] at hcontent ⊢
    refine ⟨by simp, ?_, ?_⟩
    · simp [Operand.render]
    · rw [Board.byteAt_of_ok hcontent]
      rfl
  | absolute =>
    have hsame : word = AddressingMode.absolute.effective c.board c.registers :=
      (Microcode.readsOnly_readWord _).eq_answer_of_peek hword
    exact congrArg Text.address hsame
  | zeroPageX | zeroPageY | absoluteX | absoluteY | indirect | indexedIndirect | indirectIndexed =>
    rfl

/-- The trace line of an instruction has the text of its operand in it, with the remark. -/
theorem traceLine_shows {i : Instruction} {ticks : Nat} {line : String}
    (h : c.traceLine ticks i = .ok line) (hoperand : c.operand i.mode = .ok operand) :
    operand.annotated.toList <:+: line.toList := by
  obtain ⟨bytes, -, h⟩ := except_bind_eq_ok.mp h
  obtain ⟨operand', hoperand', h⟩ := except_bind_eq_ok.mp h
  obtain ⟨stack, -, h⟩ := except_bind_eq_ok.mp h
  obtain rfl := Except.ok.inj (hoperand.symm.trans hoperand')
  obtain ⟨registers, hregisters⟩ := c.registers.exists_line_eq
  rw [← Except.ok.inj h]
  exact Text.infix_trimRight_join _ _ _ _ _ _ _ 17 hregisters (by decide)

end Core

/-! ## What an instruction does with its operand -/

namespace Instruction

variable {i : Instruction} {c c' : Core}

/-- Whoever can execute an instruction can render its operand. -/
theorem FetchedFrom.exists_operand (h : i.FetchedFrom c)
    (hexecute : i.microcode.execute c = .ok () c') : ∃ operand, c.operand i.mode = .ok operand := by
  cases hbytes : c.instructionBytes i.size with
  | error e => cases (h.execute_of_byte_error hbytes).symm.trans hexecute
  | ok bytes =>
    cases hoperand : c.operand i.mode with
    | error e => cases (execute_of_operand_error hbytes hoperand).symm.trans hexecute
    | ok operand => exact ⟨operand, rfl⟩

/-- An instruction acts at the address that its operand resolves to. -/
theorem actsAt (hresolve : i.mode.resolve.peek c = .ok (i.mode.effective c.board c.registers))
    (hexecute : i.microcode.execute c = .ok () c') :
    i.ActsAt (i.mode.effective c.board c.registers) (i.dataAccesses c.board c.registers)
      c.registers c'.registers := by
  have hresolved := (Microcode.readsOnly_resolve i.mode).execute_of_peek_ok hresolve
  cases i with
  | read op mode => exact ⟨_, rfl⟩
  | store op mode => exact ⟨_, rfl⟩
  | modify op mode =>
    cases mode with
    | accumulator => trivial
    | _ => exact ⟨_, _, rfl⟩
  | internal op => trivial
  | stack op => trivial
  | branch op =>
    cases (Microcode.execute_bind_of_ok hresolved).symm.trans hexecute
    change Registers.pc (if _ then _ else _) = _
    rw [apply_ite Registers.pc]
    rfl
  | jmp mode =>
    cases (Microcode.execute_bind_of_ok hresolved).symm.trans hexecute
    rfl
  | jsr =>
    cases (Microcode.execute_bind_of_ok hresolved).symm.trans hexecute
    rfl
  | rts => trivial
  | rti => trivial
  | brk => trivial

end Instruction

namespace Machine

/-- In a step from `m` to `m'` the observers have looked at the operand of the instruction at the
moment `m₁`, and then it was used. -/
structure OperandAgrees (m m₁ m' : Machine) (i : Instruction) (address : UInt16) : Prop where
  resolved : observe i.mode.located.peek m₁ = .ok (address, i.size) m₁
  shown : ∃ operand, m₁.core.operand i.mode = .ok operand ∧
    operand.Shows m.board address i.mode ∧
      (m₁.tracing = true → ∃ line, trace i m₁ = .ok () (m₁.record line) ∧
        operand.annotated.toList <:+: line.toList)
  accesses : Fires (i.accesses m.board m.registers) m m'
  used : i.ActsAt address (i.dataAccesses m.board m.registers) m.registers m'.registers

theorem record_of_trace {i : Instruction} {m m' : Machine} (h : trace i m = .ok () m')
    (htracing : m.tracing = true) :
    ∃ line, m.core.traceLine m.ticks i = .ok line ∧ m' = m.record line := by
  rw [trace_apply, if_pos htracing] at h
  cases hline : m.core.traceLine m.ticks i with
  | error e => rw [bind_of_error (observe_of_error hline)] at h; cases h
  | ok line =>
    rw [bind_of_ok (observe_of_ok hline)] at h
    cases h
    exact ⟨line, rfl, rfl⟩

/-- Looking at an operand and reading it find the same address and length or fail alike, for every
mode, whatever the instruction at the program counter; neither changes registers or board, and
looking changes nothing at all. In a step that succeeds the address that was looked up for the trace
line is the address of the data accesses or the new program counter, and it is the address that the
operand text shows. -/
theorem rendered_address_is_used (m : Machine) :
    (∀ (mode : AddressingMode) (span : Option Span),
      unwatched (perform span mode.located m) = unwatched (observe mode.located.peek m) ∧
        (finalState (perform span mode.located m)).core = m.core ∧
        finalState (observe mode.located.peek m) = m) ∧
    ∀ m', step m = .ok () m' → ∃ opcode i m₁ address, fetch m = .ok opcode m₁ ∧
      Instruction.decode opcode = some i ∧ OperandAgrees m m₁ m' i address := by
  refine ⟨fun mode span => ?_, fun m' h => ?_⟩
  · have hsame := unwatched_perform_of_readsOnly mode.readsOnly_located span m
    have hcore := finalState_unwatched (perform span mode.located m)
    rw [hsame, finalState_unwatched, finalState_observe] at hcore
    exact ⟨hsame, hcore.symm, finalState_observe _ m⟩
  · obtain ⟨m₄, hcycle, rfl⟩ := step_eq_ok h
    obtain ⟨opcode, m₁, i, m₂, -, -, hfetch, hdecode, htrace, -⟩ := cycle_eq_ok_iff.mp hcycle
    obtain ⟨hread, hcore⟩ := fetch_eq_ok hfetch
    obtain ⟨j, hj, hexecute⟩ := execute_of_step_ok h
    have hfetched : i.FetchedFrom m.core := ⟨opcode, hread, hdecode⟩
    obtain rfl := hj.unique hfetched
    obtain ⟨operand, hoperand⟩ := hfetched.exists_operand hexecute
    obtain ⟨hresolve, hshows⟩ := Core.operand_shows hoperand
    rw [← hcore] at hoperand
    refine ⟨opcode, j, m₁, _, hfetch, hdecode, ?_, ⟨operand, hoperand, hshows, fun htracing => ?_⟩,
      eachMove_fires.accesses h hfetched, j.actsAt hresolve hexecute⟩
    · exact observe_of_ok (AddressingMode.peek_located (hcore ▸ hresolve))
    · obtain ⟨line, hline, rfl⟩ := record_of_trace htrace htracing
      exact ⟨line, htrace, Core.traceLine_shows hline hoperand⟩

/-- `JMP ($8003)` with a pointer to `$1234`: the trace line says where it goes. -/
theorem rendered_address_is_used_jmp :
    let m := (logging [0x6C, 0x03, 0x80, 0x34, 0x12]).setConfig { trace := true }
    ∃ m₁ m' line, fetch m = .ok 0x6C m₁ ∧ step m = .ok () m' ∧ m'.registers.pc = 0x1234 ∧
      trace (.jmp .indirect) m₁ = .ok () (m₁.record line) ∧
        "($8003) @ $1234".toList <:+: line.toList := by
  intro m
  have hrun : Succeeds (step m) ∧ (finalState (step m)).registers.pc = 0x1234 ∧
      m.core.board.read m.registers.pc = .ok 0x6C ∧
      m.core.operand .indirect = .ok ⟨"($8003)", some "@ $1234"⟩ := by decide +kernel
  obtain ⟨hsucceeds, hpc, hopcode, hoperand⟩ := hrun
  have hstep := hsucceeds.eq_ok
  obtain ⟨-, hagrees⟩ := rendered_address_is_used m
  obtain ⟨opcode, i, m₁, address, hfetch, hdecode, hboth⟩ := hagrees _ hstep
  obtain ⟨hread, hcore⟩ := fetch_eq_ok hfetch
  cases hopcode.symm.trans hread
  obtain rfl : Instruction.jmp .indirect = i := Option.some.inj hdecode
  obtain ⟨operand, hrendered, -, htrace⟩ := hboth.shown
  rw [hcore] at hrendered
  cases hoperand.symm.trans hrendered
  have htracing : m₁.tracing = true := by
    rw [tracing, (leaves_fetch.of_ok hfetch).config]
    rfl
  obtain ⟨line, hline, hinfix⟩ := htrace htracing
  exact ⟨m₁, _, line, hfetch, hstep, hpc, hline, hinfix⟩

end Machine

end Mos6502
