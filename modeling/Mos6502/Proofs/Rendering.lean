import Mos6502.Disassembly
import Mos6502.Proofs.Byte
import Mos6502.Proofs.Microcode

/-!
# Rendering fails only where execution does

A trace line or a listing line shows bytes that it must read first, and a read can fail. Every byte
that a line shows is one that the instruction reads anyway before it has any effect, or lies in RAM,
where reads never fail. So `execute_of_traceLine_error` and `execute_of_listingLine_error`: if the
line cannot be rendered, then the instruction fails with the very same error and changes nothing.
-/

namespace Mos6502

/-! ## Reads below the ROM window -/

/-- Only the ROM window of a board can fail. -/
theorem Board.exists_read_of_lt (b : Board) {address : UInt16} (h : address < 0x8000) :
    ∃ v, b.read address = .ok v := by
  cases b with
  | nrom b => exact ⟨_, rfl⟩
  | flat b => exact ⟨_, rfl⟩
  | mmc1 b =>
    simp only [Board.read, Mmc1.read, Region.of, h, if_true]
    split_ifs <;> exact ⟨_, rfl⟩

/-- The stack dump never fails: the stack lies in RAM on every board. -/
theorem Core.exists_stackText (c : Core) : ∃ text, c.stackText = .ok text := by
  have hbytes : ∃ bytes, c.stackBytes = .ok bytes := by
    refine exists_mapM_ok_iff.mpr fun address haddress => c.board.exists_read_of_lt ?_
    obtain ⟨n, hn, rfl⟩ := List.mem_map.mp haddress
    have hlt := List.mem_range.mp hn
    have hsmall : (UInt16.ofNat n).toNat = n :=
      UInt16.toNat_ofNat_of_lt' (by simp [UInt16.size]; omega)
    have hle : UInt16.ofNat n ≤ 0x1FF := by
      rw [UInt16.le_iff_toNat_le, hsmall]
      simp
      omega
    rw [UInt16.lt_iff_toNat_lt, UInt16.toNat_sub_of_le _ _ hle, hsmall]
    simp
    omega
  obtain ⟨bytes, hbytes⟩ := hbytes
  exact ⟨_, by rw [Core.stackText, hbytes]; rfl⟩

/-! ## Operand bytes -/

/-- An instruction has one to three bytes. -/
theorem AddressingMode.size_bounds (mode : AddressingMode) : 1 ≤ mode.size ∧ mode.size ≤ 3 := by
  cases mode <;> decide

namespace Instruction

/-- The only instructions with an immediate operand are those that read it. -/
theorem eq_read_of_immediate {opcode : UInt8} {i : Instruction} (hdecode : decode opcode = some i)
    (hmode : i.mode = .immediate) : ∃ op, i = .read op .immediate := by
  have hall : ∀ opcode, (decode opcode).all
      (fun i => (i matches .read ..) || i.mode != .immediate) = true :=
    Byte.forall_of_values (by decide +kernel)
  have hread := hall opcode
  rw [hdecode] at hread
  cases i <;> simp_all [mode]

variable {i : Instruction} {c : Core} {e : BoardError}

/-- Every instruction resolves its operand before anything else. -/
theorem execute_of_resolve_error (h : i.mode.resolve.execute c = .error e c) :
    i.microcode.execute c = .error e c := by
  have hsize : i.mode.size ≠ 1 := by
    intro hone
    rw [Microcode.execute_resolve_of_size_one hone] at h
    cases h
  cases i with
  | read op mode => exact Microcode.execute_bind_of_error h
  | store op mode => exact Microcode.execute_bind_of_error h
  | modify op mode =>
    cases mode with
    | accumulator => exact absurd rfl hsize
    | _ => exact Microcode.execute_bind_of_error h
  | branch op => exact Microcode.execute_bind_of_error h
  | jmp mode => exact Microcode.execute_bind_of_error h
  | jsr => exact Microcode.execute_bind_of_error h
  | internal op => exact absurd rfl hsize
  | stack op => exact absurd rfl hsize
  | rts => exact absurd rfl hsize
  | rti => exact absurd rfl hsize
  | brk => exact absurd rfl hsize

/-- The opcode of the instruction can be read at the program counter. -/
def FetchedFrom (i : Instruction) (c : Core) : Prop :=
  ∃ opcode, c.board.read c.registers.pc = .ok opcode ∧ decode opcode = some i

instance (i : Instruction) (c : Core) : Decidable (i.FetchedFrom c) :=
  match hread : c.board.read c.registers.pc with
  | .ok opcode => decidable_of_iff (decode opcode = some i) (by
      simp [FetchedFrom, hread])
  | .error e => isFalse (by simp [FetchedFrom, hread])

theorem second_byte_address (c : Core) :
    c.registers.pc + UInt16.ofNat 2 = c.registers.pc + 1 + 1 := by
  rw [UInt16.add_assoc]
  rfl

/-- A byte of the instruction that cannot be read stops the instruction. -/
theorem FetchedFrom.execute_of_byte_error (h : i.FetchedFrom c)
    (hbytes : c.instructionBytes i.size = .error e) : i.microcode.execute c = .error e c := by
  obtain ⟨opcode, hread, hdecode⟩ := h
  obtain ⟨k, hk, hbefore, hfail⟩ := mapM_range_eq_error hbytes
  have hle := i.mode.size_bounds
  have hsize : i.mode.size = i.size := rfl
  have hcases : k = 0 ∨ k = 1 ∨ k = 2 := by omega
  rcases hcases with rfl | rfl | rfl
  · have hopcode : c.peekByte (c.registers.pc + UInt16.ofNat 0) = .ok opcode := by
      rw [show c.registers.pc + UInt16.ofNat 0 = c.registers.pc from UInt16.add_zero _]
      exact hread
    rw [hopcode] at hfail
    cases hfail
  · by_cases himmediate : i.mode = .immediate
    · -- Resolving an immediate operand reads nothing; the instruction itself reads the byte.
      obtain ⟨op, rfl⟩ := eq_read_of_immediate hdecode himmediate
      have hbyte := Microcode.execute_readByte_error hfail
      exact (Microcode.execute_bind_of_ok rfl).trans (Microcode.execute_bind_of_error hbyte)
    · exact execute_of_resolve_error
        (Microcode.execute_resolve_error_first (by omega) himmediate hfail)
  · obtain ⟨v, hfirst⟩ := hbefore 1 (by decide)
    rw [second_byte_address] at hfail
    exact execute_of_resolve_error
      (Microcode.execute_resolve_error_second (by omega) hfirst hfail)

/-- The effective address of a plain page-zero operand lies in page zero. -/
theorem lt_of_resolve_zeroPage {address : UInt16}
    (h : AddressingMode.zeroPage.resolve.peek c = .ok address) : address < 0x8000 := by
  have hexecute := (Microcode.readsOnly_resolve .zeroPage).execute_of_peek_ok h
  cases hread : c.board.read (c.registers.pc + 1) with
  | error e =>
    rw [Microcode.execute_resolve_error_first (by decide) (by decide) hread] at hexecute
    cases hexecute
  | ok v =>
    have hvalue : AddressingMode.zeroPage.resolve.execute c = .ok v.toUInt16 c :=
      (Microcode.execute_bind_of_ok (Microcode.execute_getRegisters c)).trans
        (Microcode.execute_bind_of_ok (Microcode.execute_readByte_ok hread))
    cases hvalue.symm.trans hexecute
    have := v.toNat_lt
    rw [UInt16.lt_iff_toNat_lt, UInt8.toNat_toUInt16]
    exact this.trans (by decide)

/-- Once the bytes of the instruction are read, its operand text fails only where resolving the
operand does. -/
theorem resolve_of_operand_error {bytes : List UInt8}
    (hbytes : c.instructionBytes i.size = .ok bytes) (hoperand : c.operand i.mode = .error e) :
    i.mode.resolve.peek c = .error e := by
  have hread := exists_mapM_ok_iff.mp ⟨bytes, hbytes⟩
  have hfirst (hsize : i.mode.size ≠ 1) : ∃ v, c.peekByte (c.registers.pc + 1) = .ok v :=
    hread 1 (List.mem_range.mpr (by have := i.mode.size_bounds; unfold size; omega))
  have hsecond (hsize : i.mode.size = 3) : ∃ v, c.peekByte (c.registers.pc + 1 + 1) = .ok v := by
    rw [← second_byte_address]
    exact hread 2 (List.mem_range.mpr (by unfold size; omega))
  rcases except_bind_eq_error.mp hoperand with hresolve | ⟨address, hresolve, hrest⟩
  · exact hresolve
  -- The operand is resolved, so every byte that the text shows can be read.
  have hcontent (hmode : i.mode = .zeroPage) : ∃ v, c.peekByte address = .ok v := by
    rw [hmode] at hresolve
    exact c.board.exists_read_of_lt (lt_of_resolve_zeroPage hresolve)
  by_cases hone : i.mode.size = 1
  · have hzero : i.mode ≠ .zeroPage := fun hmode => by rw [hmode] at hone; cases hone
    simp [hone, hzero, Bind.bind, Except.bind, Pure.pure, Except.pure] at hrest
  obtain ⟨low, hlow⟩ := hfirst hone
  by_cases hthree : i.mode.size = 3
  · have hzero : i.mode ≠ .zeroPage := fun hmode => by rw [hmode] at hthree; cases hthree
    obtain ⟨high, hhigh⟩ := hsecond hthree
    have hword : c.peekWord (c.registers.pc + 1) = .ok (Microcode.word low high) := by
      rw [Core.peekWord, Microcode.peek, Microcode.execute_readWord_ok hlow hhigh]
    simp [hthree, hzero, hlow, hword, Bind.bind, Except.bind, Pure.pure, Except.pure] at hrest
  by_cases hzero : i.mode = .zeroPage
  · obtain ⟨v, hv⟩ := hcontent hzero
    simp [AddressingMode.size, hzero, hlow, hv, Bind.bind, Except.bind, Pure.pure,
      Except.pure] at hrest
  · simp [hone, hthree, hzero, hlow, Bind.bind, Except.bind, Pure.pure, Except.pure] at hrest

/-- Where the operand cannot be rendered, the instruction fails with the same error. -/
theorem execute_of_operand_error {bytes : List UInt8}
    (hbytes : c.instructionBytes i.size = .ok bytes) (hoperand : c.operand i.mode = .error e) :
    i.microcode.execute c = .error e c :=
  execute_of_resolve_error ((Microcode.readsOnly_resolve i.mode).execute_of_peek_error
    (resolve_of_operand_error hbytes hoperand))

/-- A trace line that cannot be rendered announces the failure of its instruction. -/
theorem FetchedFrom.execute_of_traceLine_error (h : i.FetchedFrom c) {ticks : Nat}
    (hline : c.traceLine ticks i = .error e) : i.microcode.execute c = .error e c := by
  rcases except_bind_eq_error.mp hline with hbytes | ⟨bytes, hbytes, hrest⟩
  · exact h.execute_of_byte_error hbytes
  rcases except_bind_eq_error.mp hrest with hoperand | ⟨operand, -, hrest⟩
  · exact execute_of_operand_error hbytes hoperand
  rcases except_bind_eq_error.mp hrest with hstack | ⟨stack, -, hdone⟩
  · obtain ⟨text, htext⟩ := c.exists_stackText
    exact absurd (htext.symm.trans hstack) nofun
  · cases hdone

/-- So does a listing line. -/
theorem execute_of_listingLine_error {bytes : List UInt8}
    (hbytes : c.instructionBytes i.size = .ok bytes) {offset : Nat} {shown : List UInt8}
    (hline : c.listingLine i offset shown = .error e) : i.microcode.execute c = .error e c := by
  unfold Core.listingLine at hline
  cases hoperand : c.operand i.mode with
  | ok operand => rw [hoperand] at hline; cases hline
  | error e' =>
    rw [hoperand] at hline
    cases hline
    exact execute_of_operand_error hbytes hoperand

end Instruction

end Mos6502
