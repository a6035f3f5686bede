import Mos6502.Proofs.Addressing
import Mos6502.Proofs.Unwatched

/-!
# The machine refines the reference processor

On flat memory a step of the machine is a step of the reference processor: the same opcodes are
documented, and each instruction has the documented effect on registers, flags and memory. There is
one simulation lemma for each kind of instruction.
-/

namespace Mos6502

open Reference (Mnemonic)

/-! ## Names -/

def ReadOp.reference : ReadOp → Mnemonic
  | lda => .lda | ldx => .ldx | ldy => .ldy | adc => .adc | sbc => .sbc | and => .and
  | ora => .ora | eor => .eor | bit => .bit | cmp => .cmp | cpx => .cpx | cpy => .cpy

def StoreOp.reference : StoreOp → Mnemonic
  | sta => .sta | stx => .stx | sty => .sty

def ModifyOp.reference : ModifyOp → Mnemonic
  | asl => .asl | lsr => .lsr | rol => .rol | ror => .ror | inc => .inc | dec => .dec

def RegisterOp.reference : RegisterOp → Mnemonic
  | tax => .tax | tay => .tay | txa => .txa | tya => .tya | tsx => .tsx | txs => .txs
  | inx => .inx | iny => .iny | dex => .dex | dey => .dey
  | clc => .clc | sec => .sec | cli => .cli | sei => .sei | cld => .cld | sed => .sed
  | clv => .clv | nop => .nop

def StackOp.reference : StackOp → Mnemonic
  | pha => .pha | php => .php | pla => .pla | plp => .plp

def BranchOp.reference : BranchOp → Mnemonic
  | bpl => .bpl | bmi => .bmi | bvc => .bvc | bvs => .bvs
  | bcc => .bcc | bcs => .bcs | bne => .bne | beq => .beq

def Instruction.reference : Instruction → Mnemonic
  | read op _ => op.reference
  | store op _ => op.reference
  | modify op _ => op.reference
  | internal op => op.reference
  | stack op => op.reference
  | branch op => op.reference
  | jmp _ => .jmp
  | jsr => .jsr
  | rts => .rts
  | rti => .rti
  | brk => .brk

/-- The opcode matrix is the documented one. -/
theorem decode_reference (opcode : UInt8) :
    (Instruction.decode opcode).map (fun i => (i.reference, i.mode)) =
      Reference.decode opcode.toNat := by
  revert opcode
  exact Byte.forall_of_values (by decide +kernel)

/-! ## Register updates -/

/-- The reference goes on to the next instruction as the machine does. -/
theorem view_skip (mode : AddressingMode) (r : Registers) (b : Flat) :
    view (Instruction.skip mode r) b = { view r b with pc := (view r b).next mode } := by
  cases mode <;> rfl

/-- Both describe a result by the same two flags. -/
theorem view_describe (r : Registers) (b : Flat) (v : UInt8) :
    view { r with status := r.status.describe v } b = (view r b).describe v.toNat := by
  unfold view Status.describe Reference.State.describe
  rw [Alu.beq_zero, Byte.and_top]

theorem view_skip_describe (mode : AddressingMode) (r : Registers) (b : Flat) (v : UInt8) :
    view (Instruction.skip mode { r with status := r.status.describe v }) b =
      { (view r b).describe v.toNat with pc := (view r b).next mode } := by
  rw [view_skip, view_describe]
  rfl

/-- Additions agree: as numbers, in the carry and in the overflow. -/
theorem view_add (r : Registers) (b : Flat) (v : UInt8) :
    view (ReadOp.adc.apply v r) b = (view r b).add v.toNat := by
  have hresult := Alu.toNat_add r.a v r.status
  apply Reference.State.ext
  case a => exact hresult
  case carry => exact Alu.carry_add r.a v r.status
  case overflow => exact Alu.overflow_add r.a v r.status
  case zero => exact Alu.zero_of_toNat hresult
  case negative => exact Alu.negative_of_toNat hresult
  all_goals rfl

theorem view_subtract (r : Registers) (b : Flat) (v : UInt8) :
    view (ReadOp.sbc.apply v r) b = (view r b).subtract v.toNat := by
  have hresult := Alu.toNat_subtract r.a v r.status
  apply Reference.State.ext
  case a => exact hresult
  case carry => exact Alu.carry_subtract r.a v r.status
  case overflow => exact Alu.overflow_subtract r.a v r.status
  case zero => exact Alu.zero_of_toNat hresult
  case negative => exact Alu.negative_of_toNat hresult
  all_goals rfl

theorem view_compare (r : Registers) (b : Flat) (register v : UInt8) :
    view { r with status := Alu.compare register v r.status } b =
      (view r b).compare register.toNat v.toNat := by
  have hresult := Alu.toNat_compare register v r.status
  apply Reference.State.ext
  case carry => exact Alu.carry_compare register v r.status
  case zero => exact Alu.zero_of_toNat hresult
  case negative => exact Alu.negative_of_toNat hresult
  all_goals rfl

theorem view_bitTest (r : Registers) (b : Flat) (v : UInt8) :
    view (ReadOp.bit.apply v r) b = (view r b).bitTest v.toNat := by
  apply Reference.State.ext
  case zero => exact Alu.zero_of_toNat (UInt8.toNat_and r.a v)
  case overflow => exact Byte.and_bit 6 v
  case negative => exact Byte.and_bit 7 v
  all_goals rfl

/-! ## Instructions that read -/

/-- All the operations that read agree on the operand they are given. -/
theorem view_read (op : ReadOp) (mode : AddressingMode) (r : Registers) (b : Flat) :
    view (Instruction.skip mode (op.apply (b.read (b.resolve r mode)) r)) b =
      (view r b).exec op.reference mode := by
  have hv : (b.read (b.resolve r mode)).toNat = (view r b).memory ((view r b).address mode) := by
    rw [← Flat.cells_toNat, toNat_resolve]
    rfl
  generalize b.read (b.resolve r mode) = v at hv
  unfold Reference.State.exec
  dsimp only
  rw [← hv]
  cases op with
  | lda => exact view_skip_describe mode { r with a := v } b v
  | ldx => exact view_skip_describe mode { r with x := v } b v
  | ldy => exact view_skip_describe mode { r with y := v } b v
  | adc => rw [view_skip, view_add]; rfl
  | sbc => rw [view_skip, view_subtract]; rfl
  | and =>
    have hand : (r.a &&& v).toNat = (view r b).a &&& v.toNat := UInt8.toNat_and r.a v
    rw [← hand]
    exact view_skip_describe mode { r with a := r.a &&& v } b (r.a &&& v)
  | ora =>
    have hor : (r.a ||| v).toNat = (view r b).a ||| v.toNat := UInt8.toNat_or r.a v
    rw [← hor]
    exact view_skip_describe mode { r with a := r.a ||| v } b (r.a ||| v)
  | eor =>
    have hxor : (r.a ^^^ v).toNat = (view r b).a ^^^ v.toNat := UInt8.toNat_xor r.a v
    rw [← hxor]
    exact view_skip_describe mode { r with a := r.a ^^^ v } b (r.a ^^^ v)
  | bit => rw [view_skip, view_bitTest]; rfl
  | cmp => rw [view_skip, ReadOp.apply, view_compare]; rfl
  | cpx => rw [view_skip, ReadOp.apply, view_compare]; rfl
  | cpy => rw [view_skip, ReadOp.apply, view_compare]; rfl

/-- Executed on registers and flat memory, the microcode ends in registers and flat memory that
look like a state of the reference processor. -/
def Refines (p : Microcode Unit) (r : Registers) (b : Flat) (s : Reference.State) : Prop :=
  ∃ r' b', p.execute ⟨r, .flat b⟩ = .ok () ⟨r', .flat b'⟩ ∧ view r' b' = s

/-- Instructions that read refine those of the reference. -/
theorem refines_read (op : ReadOp) (mode : AddressingMode) (r : Registers) (b : Flat) :
    Refines (Instruction.read op mode).microcode r b ((view r b).exec op.reference mode) := by
  refine ⟨_, b, ?_, view_read op mode r b⟩
  exact (Microcode.execute_bind_of_ok (execute_resolve_flat mode r b)).trans
    (Microcode.execute_bind_of_ok (execute_readByte_flat _ r b))

/-! ## Instructions that write -/

/-- Stores agree cell by cell. -/
theorem view_write (r : Registers) (b : Flat) (address : UInt16) (v : UInt8) :
    view r (b.write address v) = (view r b).store address.toNat v.toNat := by
  apply Reference.State.ext
  case memory => exact b.cells_write address v
  all_goals rfl

/-- Instructions that store refine those of the reference. -/
theorem refines_store (op : StoreOp) (mode : AddressingMode) (r : Registers) (b : Flat) :
    Refines (Instruction.store op mode).microcode r b ((view r b).exec op.reference mode) := by
  refine ⟨_, _, Microcode.execute_bind_of_ok (execute_resolve_flat mode r b), ?_⟩
  change view (Instruction.skip mode r) (b.write (b.resolve r mode) (op.source r)) = _
  rw [view_skip, view_write, toNat_resolve]
  cases op <;> rfl

/-- An operation that replaces a byte leaves all flags alone but the carry and those that describe
the new value. -/
theorem ModifyOp.apply_snd (op : ModifyOp) (v : UInt8) (s : Status) :
    (op.apply v s).2 =
      { s with carry := (op.apply v s).2.carry }.describe (op.apply v s).1 := by
  cases op <;> rfl

theorem Reference.State.carry_modify (s : Reference.State) (mode : AddressingMode) (v : Nat) :
    (s.modify mode v).carry = s.carry := by
  unfold Reference.State.modify
  split <;> rfl

/-- Both compute the same result of a shift or a count, and the same carry. -/
theorem exec_modify (op : ModifyOp) (mode : AddressingMode) (r : Registers) (b : Flat) {v : UInt8}
    (hv : v.toNat = (view r b).operand mode) :
    (view r b).exec op.reference mode =
      { (view r b).modify mode (op.apply v r.status).1.toNat with
        carry := (op.apply v r.status).2.carry } := by
  have withCarry {n : Nat} {c c' : Bool} (hc : c' = c) :
      { (view r b).modify mode n with carry := c } =
        { (view r b).modify mode n with carry := c' } := by
    rw [hc]
  unfold Reference.State.exec
  dsimp only
  rw [← hv]
  cases op with
  | asl =>
    rw [ModifyOp.apply, Alu.toNat_shiftLeft]
    exact withCarry (Byte.and_bit 7 v)
  | lsr =>
    rw [ModifyOp.apply, Alu.toNat_shiftRight]
    exact withCarry (Byte.and_lowest v)
  | rol =>
    rw [ModifyOp.apply, Alu.toNat_rotateLeft]
    exact withCarry (Byte.and_bit 7 v)
  | ror =>
    rw [ModifyOp.apply, Alu.toNat_rotateRight]
    exact withCarry (Byte.and_lowest v)
  | inc =>
    -- Counting leaves the carry as it is.
    have hresult : (ModifyOp.inc.apply v r.status).1.toNat = _ := Alu.toNat_add_one v
    rw [hresult]
    exact withCarry ((view r b).carry_modify mode _).symm
  | dec =>
    have hresult : (ModifyOp.dec.apply v r.status).1.toNat = _ := Alu.toNat_sub_one v
    rw [hresult]
    exact withCarry ((view r b).carry_modify mode _).symm

theorem view_modify_accumulator (r : Registers) (b : Flat) (v : UInt8) (c : Bool) :
    view (Instruction.skip .accumulator
        { r with a := v, status := { r.status with carry := c }.describe v }) b =
      { (view r b).modify .accumulator v.toNat with carry := c } :=
  view_skip_describe .accumulator { r with a := v, status := { r.status with carry := c } } b v

/-- A result that goes back to memory is found there by both. -/
theorem view_modify {mode : AddressingMode} (hmode : mode ≠ .accumulator) (r : Registers) (b : Flat)
    (v : UInt8) (c : Bool) :
    view (Instruction.skip mode { r with status := { r.status with carry := c }.describe v })
        (b.write (b.resolve r mode) v) =
      { (view r b).modify mode v.toNat with carry := c } := by
  have hskip := view_skip_describe mode { r with status := { r.status with carry := c } }
    (b.write (b.resolve r mode) v) v
  refine hskip.trans ?_
  rw [view_write, toNat_resolve, Reference.State.modify, if_neg hmode]
  rfl

theorem refines_modify_accumulator (op : ModifyOp) (r : Registers) (b : Flat) :
    Refines (Instruction.modify op .accumulator).microcode r b
      ((view r b).exec op.reference .accumulator) := by
  refine ⟨_, b, rfl, ?_⟩
  change view (Instruction.skip .accumulator { r with
    a := (op.apply r.a r.status).1, status := (op.apply r.a r.status).2 }) b = _
  rw [exec_modify op .accumulator r b (v := r.a) rfl, ← view_modify_accumulator,
    ← ModifyOp.apply_snd]

/-- Instructions that modify memory refine those of the reference. -/
theorem refines_modify (op : ModifyOp) {mode : AddressingMode} (hmode : mode ≠ .accumulator)
    (r : Registers) (b : Flat) :
    Refines (Instruction.modify op mode).microcode r b ((view r b).exec op.reference mode) := by
  have hv : (b.read (b.resolve r mode)).toNat = (view r b).operand mode := by
    rw [← Flat.cells_toNat, toNat_resolve, Reference.State.operand, if_neg hmode]
    rfl
  have hmicrocode : (Instruction.modify op mode).microcode = (do
      let address ← mode.resolve
      let v ← Microcode.readByte address
      let r ← Microcode.getRegisters
      let result := op.apply v r.status
      Microcode.assign { r with status := result.2 } (Microcode.writeByte address result.1)
      Microcode.modifyRegisters (Instruction.skip mode)) := by
    cases mode with
    | accumulator => exact absurd rfl hmode
    | _ => rfl
  rw [hmicrocode]
  refine ⟨_, _, (Microcode.execute_bind_of_ok (execute_resolve_flat mode r b)).trans
    (Microcode.execute_bind_of_ok (execute_readByte_flat _ r b)), ?_⟩
  rw [exec_modify op mode r b hv, ← view_modify hmode, ← ModifyOp.apply_snd]

/-! ## Instructions off the bus -/

theorem refines_internal (op : RegisterOp) (r : Registers) (b : Flat) :
    Refines (Instruction.internal op).microcode r b ((view r b).exec op.reference .implied) := by
  refine ⟨_, b, rfl, ?_⟩
  change view (Instruction.skip .implied (op.apply r)) b = _
  have described := fun r => view_skip_describe .implied r b
  unfold Reference.State.exec
  dsimp only
  cases op with
  | tax => exact described { r with x := r.a } r.a
  | tay => exact described { r with y := r.a } r.a
  | txa => exact described { r with a := r.x } r.x
  | tya => exact described { r with a := r.y } r.y
  | tsx => exact described { r with x := r.sp } r.sp
  | inx =>
    have hx : (r.x + 1).toNat = ((view r b).x + 1) % 256 := Alu.toNat_add_one r.x
    rw [← hx]
    exact described { r with x := r.x + 1 } (r.x + 1)
  | iny =>
    have hy : (r.y + 1).toNat = ((view r b).y + 1) % 256 := Alu.toNat_add_one r.y
    rw [← hy]
    exact described { r with y := r.y + 1 } (r.y + 1)
  | dex =>
    have hx : (r.x - 1).toNat = ((view r b).x + 255) % 256 := Alu.toNat_sub_one r.x
    rw [← hx]
    exact described { r with x := r.x - 1 } (r.x - 1)
  | dey =>
    have hy : (r.y - 1).toNat = ((view r b).y + 255) % 256 := Alu.toNat_sub_one r.y
    rw [← hy]
    exact described { r with y := r.y - 1 } (r.y - 1)
  | txs | clc | sec | cli | sei | cld | sed | clv | nop => rw [view_skip]; rfl

/-! ## Control flow -/

theorem exec_branch (op : BranchOp) (r : Registers) (b : Flat) :
    (view r b).exec op.reference .relative = (view r b).branch (op.taken r.status) := by
  cases op with
  | bmi | bvs | bcs | beq => exact congrArg (view r b).branch (beq_true _).symm
  | bpl | bvc | bcc | bne => exact congrArg (view r b).branch (beq_false _).symm

theorem refines_branch (op : BranchOp) (r : Registers) (b : Flat) :
    Refines (Instruction.branch op).microcode r b ((view r b).exec op.reference .relative) := by
  refine ⟨_, b, Microcode.execute_bind_of_ok (execute_resolve_flat .relative r b), ?_⟩
  rw [exec_branch, Reference.State.branch]
  change view (if op.taken r.status then { r with pc := b.resolve r .relative }
    else Instruction.skip .relative r) b = _
  cases op.taken r.status with
  | true => rw [← toNat_resolve]; rfl
  | false => exact view_skip .relative r b

theorem refines_jmp (mode : AddressingMode) (r : Registers) (b : Flat) :
    Refines (Instruction.jmp mode).microcode r b ((view r b).exec .jmp mode) := by
  refine ⟨_, b, Microcode.execute_bind_of_ok (execute_resolve_flat mode r b), ?_⟩
  rw [Reference.State.exec, ← toNat_resolve]
  rfl

/-! ## The stack -/

theorem toNat_stackAddress (r : Registers) : r.stackAddress.toNat = 256 + r.sp.toNat :=
  Byte.forall_of_values (P := fun sp => (0x0100 ||| sp.toUInt16).toNat = 256 + sp.toNat)
    (by decide +kernel) r.sp

theorem Refines.bind {p q : Microcode Unit} {r : Registers} {b : Flat} {s t : Reference.State}
    (hp : Refines p r b s) (hq : ∀ r' b', view r' b' = s → Refines q r' b' t) :
    Refines (p >>= fun _ => q) r b t := by
  obtain ⟨r', b', hexecute, hview⟩ := hp
  obtain ⟨r'', b'', hrest, hend⟩ := hq r' b' hview
  exact ⟨r'', b'', (Microcode.execute_bind_of_ok hexecute).trans hrest, hend⟩

theorem Refines.skip {p : Microcode Unit} {r : Registers} {b : Flat} {s : Reference.State}
    (h : Refines p r b s) (mode : AddressingMode) :
    Refines (p >>= fun _ => Microcode.modifyRegisters (Instruction.skip mode)) r b
      { s with pc := s.next mode } := by
  refine h.bind fun r' b' hview => ⟨_, b', rfl, ?_⟩
  rw [← hview]
  exact view_skip mode r' b'

/-- A push stores at the same cell and wraps alike. -/
theorem refines_push (v : UInt8) (r : Registers) (b : Flat) :
    Refines (Microcode.push v) r b ((view r b).push v.toNat) := by
  refine ⟨{ r with sp := r.sp - 1 }, b.write r.stackAddress v, rfl, ?_⟩
  rw [view_write, toNat_stackAddress, Reference.State.push]
  apply Reference.State.ext
  case sp => exact Alu.toNat_sub_one r.sp
  all_goals rfl

theorem refines_pushWord (v : UInt16) (r : Registers) (b : Flat) :
    Refines (Microcode.pushWord v) r b ((view r b).pushWord v.toNat) := by
  have hhigh : (v >>> 8).toUInt8.toNat = v.toNat / 256 := by
    have hv := v.toNat_lt
    rw [UInt16.toNat_toUInt8, UInt16.toNat_shiftRight]
    change v.toNat >>> 8 % 2 ^ 8 = _
    rw [Nat.shiftRight_eq_div_pow]
    omega
  have hlow : v.toUInt8.toNat = v.toNat % 256 := UInt16.toNat_toUInt8 v
  refine (refines_push (v >>> 8).toUInt8 r b).bind fun r' b' hview => ?_
  rw [Reference.State.pushWord, ← hhigh, ← hlow, ← hview]
  exact refines_push v.toUInt8 r' b'

def Flat.top (b : Flat) (r : Registers) : UInt8 :=
  b.read { r with sp := r.sp + 1 }.stackAddress

/-- A pull takes the byte above the pointer. -/
theorem execute_pull_flat (r : Registers) (b : Flat) :
    Microcode.pull.execute ⟨r, .flat b⟩ = .ok (b.top r) ⟨{ r with sp := r.sp + 1 }, .flat b⟩ :=
  (Microcode.execute_bind_of_ok rfl).trans (execute_readByte_flat _ { r with sp := r.sp + 1 } b)

theorem toNat_top (r : Registers) (b : Flat) : (b.top r).toNat = (view r b).top := by
  rw [Flat.top, ← Flat.cells_toNat, toNat_stackAddress, Alu.toNat_add_one]
  rfl

theorem view_drop (r : Registers) (b : Flat) :
    view { r with sp := r.sp + 1 } b = (view r b).drop := by
  apply Reference.State.ext
  case sp => exact Alu.toNat_add_one r.sp
  all_goals rfl

/-- A pulled status byte is taken apart alike. -/
theorem view_pullStatus (r : Registers) (b : Flat) :
    view { r with sp := r.sp + 1, status := .ofPulled (b.top r) } b =
      (view r b).drop.loadStatus (view r b).top := by
  rw [← toNat_top, ← view_drop, Status.ofPulled_eq]
  rfl

/-- Stack instructions refine those of the reference. -/
theorem refines_stack (op : StackOp) (r : Registers) (b : Flat) :
    Refines (Instruction.stack op).microcode r b ((view r b).exec op.reference .implied) := by
  cases op with
  | pha =>
    have hpush : Refines StackOp.pha.microcode r b ((view r b).push (view r b).a) :=
      refines_push r.a r b
    exact hpush.skip .implied
  | php =>
    have hpush : Refines StackOp.php.microcode r b ((view r b).push (view r b).statusByte) := by
      have hstatus : r.status.pushedBySoftware.toNat = (view r b).statusByte :=
        Status.toNat_pushedBySoftware r.status
      rw [← hstatus]
      exact refines_push r.status.pushedBySoftware r b
    exact hpush.skip .implied
  | pla =>
    have hpull : Refines StackOp.pla.microcode r b
        { (view r b).drop.describe (view r b).top with a := (view r b).top } := by
      refine ⟨_, b, Microcode.execute_bind_of_ok (execute_pull_flat r b), ?_⟩
      rw [← toNat_top, ← view_drop]
      exact view_describe { r with sp := r.sp + 1, a := b.top r } b (b.top r)
    exact hpull.skip .implied
  | plp =>
    have hpull : Refines StackOp.plp.microcode r b ((view r b).drop.loadStatus (view r b).top) :=
      ⟨_, b, Microcode.execute_bind_of_ok (execute_pull_flat r b), view_pullStatus r b⟩
    exact hpull.skip .implied

/-! ## Calls and interrupts -/

theorem execute_pullWord_flat (r : Registers) (b : Flat) :
    Microcode.pullWord.execute ⟨r, .flat b⟩ =
      .ok (Microcode.word (b.top r) (b.top { r with sp := r.sp + 1 }))
        ⟨{ r with sp := r.sp + 1 + 1 }, .flat b⟩ :=
  (Microcode.execute_bind_of_ok (execute_pull_flat r b)).trans
    (Microcode.execute_bind_of_ok (execute_pull_flat { r with sp := r.sp + 1 } b))

/-- Returning goes to the word on the stack, or right behind it. -/
theorem refines_goBack (distance : UInt16) (r : Registers) (b : Flat) :
    Refines (Microcode.pullWord >>= fun target =>
        Microcode.modifyRegisters fun r => { r with pc := target + distance }) r b
      ((view r b).goBack distance.toNat) := by
  refine ⟨_, b, Microcode.execute_bind_of_ok (execute_pullWord_flat r b), ?_⟩
  have htarget : (Microcode.word (b.top r) (b.top { r with sp := r.sp + 1 }) + distance).toNat =
      ((view r b).top + 256 * (view r b).drop.top + distance.toNat) % 65536 := by
    rw [UInt16.toNat_add, Microcode.toNat_word, toNat_top, toNat_top, view_drop]
  unfold Reference.State.goBack
  rw [← htarget, ← view_drop, ← view_drop]
  rfl

/-- The return from a subroutine goes behind the call. -/
theorem refines_rts (r : Registers) (b : Flat) :
    Refines Instruction.rts.microcode r b ((view r b).exec .rts .implied) :=
  refines_goBack 1 r b

theorem refines_rti (r : Registers) (b : Flat) :
    Refines Instruction.rti.microcode r b ((view r b).exec .rti .implied) := by
  obtain ⟨r', b', hback, hview⟩ :=
    refines_goBack 0 { r with sp := r.sp + 1, status := .ofPulled (b.top r) } b
  simp only [UInt16.add_zero] at hback
  refine ⟨r', b', (Microcode.execute_bind_of_ok (execute_pull_flat r b)).trans hback, ?_⟩
  rw [hview, view_pullStatus]
  rfl

/-- A call pushes the address of its own last byte. -/
theorem refines_jsr (r : Registers) (b : Flat) :
    Refines Instruction.jsr.microcode r b ((view r b).exec .jsr .absolute) := by
  have hreturn : (r.pc + 2).toNat = ((view r b).pc + 2) % 65536 := UInt16.toNat_add r.pc 2
  obtain ⟨r', b', hpush, hview⟩ := refines_pushWord (r.pc + 2) r b
  refine ⟨{ r' with pc := b.resolve r .absolute }, b',
    (Microcode.execute_bind_of_ok (execute_resolve_flat .absolute r b)).trans
      (Microcode.execute_bind_of_ok hpush), ?_⟩
  rw [Reference.State.exec, ← hreturn, ← hview, ← toNat_resolve]
  rfl

theorem refines_brk (r : Registers) (b : Flat) :
    Refines Instruction.brk.microcode r b ((view r b).exec .brk .implied) := by
  have hreturn : (r.pc + 2).toNat = ((view r b).pc + 2) % 65536 := UInt16.toNat_add r.pc 2
  have hstatus : r.status.pushedBySoftware.toNat = (view r b).statusByte :=
    Status.toNat_pushedBySoftware r.status
  obtain ⟨r₁, b₁, hpushWord, hview₁⟩ := refines_pushWord (r.pc + 2) r b
  obtain ⟨r₂, b₂, hpush, hview₂⟩ := refines_push r.status.pushedBySoftware r₁ b₁
  have hvector : (b₂.word Interrupt.irq.vector).toNat = (view r₂ b₂).word 0xFFFE :=
    toNat_flatWord rfl r₂ b₂
  refine ⟨_, b₂, (Microcode.execute_bind_of_ok hpushWord).trans
    ((Microcode.execute_bind_of_ok hpush).trans
      (Microcode.execute_bind_of_ok (execute_readWord_flat Interrupt.irq.vector _ b₂))), ?_⟩
  rw [Reference.State.exec, ← hreturn, ← hstatus, ← hview₁, ← hview₂, ← hvector]
  rfl

/-! ## The step -/

/-- Every instruction has its documented effect. -/
theorem refines_microcode (i : Instruction) (r : Registers) (b : Flat) :
    Refines i.microcode r b ((view r b).exec i.reference i.mode) := by
  cases i with
  | read op mode => exact refines_read op mode r b
  | store op mode => exact refines_store op mode r b
  | modify op mode =>
    by_cases hmode : mode = .accumulator
    · subst hmode
      exact refines_modify_accumulator op r b
    · exact refines_modify op hmode r b
  | internal op => exact refines_internal op r b
  | stack op => exact refines_stack op r b
  | branch op => exact refines_branch op r b
  | jmp mode => exact refines_jmp mode r b
  | jsr => exact refines_jsr r b
  | rts => exact refines_rts r b
  | rti => exact refines_rti r b
  | brk => exact refines_brk r b

namespace Machine

/-- With neither breakpoints nor a code/data log, fetching is reading. -/
theorem fetch_of_unwatched {m : Machine} (hbreakpoints : m.breakpoints.isEmpty = true)
    (hlog : m.config.codeDataLog = false) {opcode : UInt8}
    (hread : m.core.board.read m.registers.pc = .ok opcode) : fetch m = .ok opcode m := by
  have hfire : ∀ events address value, m.fire events address value = m := by
    intro events address value
    rw [fire, if_pos hbreakpoints]
  have hmark : ∀ span address, m.markRead span address = m := by
    intro span address
    rw [markRead, hlog, Bool.false_and, if_neg Bool.false_ne_true]
  have hperform : perform (some ⟨m.registers.pc, 1⟩) (Microcode.readByte m.registers.pc) m =
      .ok opcode m := by
    simp only [Microcode.readByte, perform, hread, hmark, hfire]
  rw [fetch, get_bind_apply, bind_of_ok hperform, modify_bind_apply, hfire]
  rfl

/-- An instruction that can be decoded is executed as the reference processor executes it. -/
theorem step_of_decode_some {m : Machine} {b : Flat} (hboard : m.board = .flat b)
    (hstuck : m.config.checkStuck = false) {i : Instruction}
    (hdecode : Instruction.decode (b.read m.registers.pc) = some i) :
    ∃ m' b', step m = .ok () m' ∧ m'.board = .flat b' ∧
      view m'.registers b' = (view m.registers b).exec i.reference i.mode := by
  obtain ⟨r', b', hexecute, hview⟩ := refines_microcode i m.registers b
  have hcore : m.core = ⟨m.registers, .flat b⟩ := by rw [← hboard]; rfl
  have hcycle : Core.cycle m.core = .ok () ⟨r', .flat b'⟩ := by
    simp only [Core.cycle, hcore, Board.read, hdecode, Core.perform, hexecute]
  have hunstuck : Core.step false m.core = .ok () ⟨r', .flat b'⟩ := by
    simp only [Core.step, hcycle, Bool.false_and, Bool.false_eq_true, if_false]
  have hstep := unwatched_step m
  rw [hstuck, hunstuck] at hstep
  cases h : step m with
  | error e m' => rw [h] at hstep; cases hstep
  | ok u m' =>
    rw [h] at hstep
    injection hstep with _ hcore'
    refine ⟨m', b', rfl, ?_, ?_⟩
    · rw [board, hcore']
    · rw [registers, hcore', hview]

/-- A byte that encodes no instruction is reported with its address; the machine stays as it is. -/
theorem step_of_decode_none {m : Machine} {b : Flat} (hboard : m.board = .flat b)
    (hbreakpoints : m.breakpoints.isEmpty = true) (hlog : m.config.codeDataLog = false)
    (hdecode : Instruction.decode (b.read m.registers.pc) = none) :
    step m = .error (.unimplementedOpcode m.registers.pc (b.read m.registers.pc)) m := by
  have hread : m.core.board.read m.registers.pc = .ok (b.read m.registers.pc) := by
    change m.board.read m.registers.pc = _
    rw [hboard]
    rfl
  have hcycle : cycle m =
      .error (.unimplementedOpcode m.registers.pc (b.read m.registers.pc)) m := by
    rw [cycle, bind_of_ok (fetch_of_unwatched hbreakpoints hlog hread),
      bind_of_error (decode_of_none hdecode m)]
  rw [step_apply, hcycle]

/-- A step of a machine on flat memory that nothing watches is a step of the reference processor.
An undocumented opcode fails with its address and changes nothing at all. -/
theorem step_refines_reference (m : Machine) (b : Flat) (hboard : m.board = .flat b)
    (hbreakpoints : m.breakpoints.isEmpty = true) (hlog : m.config.codeDataLog = false)
    (hstuck : m.config.checkStuck = false) :
    match (view m.registers b).step with
    | .ok s => ∃ m' b', step m = .ok () m' ∧ m'.board = .flat b' ∧ view m'.registers b' = s
    | .error failure => ∃ address opcode, step m = .error (.unimplementedOpcode address opcode) m ∧
        address.toNat = failure.address ∧ opcode.toNat = failure.opcode := by
  have hopcode : (view m.registers b).byte (view m.registers b).pc =
      (b.read m.registers.pc).toNat := (toNat_read (toNat_mod m.registers.pc) m.registers b).symm
  have hdecode := decode_reference (b.read m.registers.pc)
  unfold Reference.State.step
  rw [hopcode, ← hdecode]
  cases h : Instruction.decode (b.read m.registers.pc) with
  | some i => exact step_of_decode_some hboard hstuck h
  | none => exact ⟨_, _, step_of_decode_none hboard hbreakpoints hlog h, rfl, rfl⟩

def blank : Machine where
  core := ⟨.powerOn, .flat ⟨Vector.replicate flatSize 0⟩⟩
  config := {}
  history := .ofCapacity 0

theorem step_blank_refines_reference :
    match (view blank.registers ⟨Vector.replicate flatSize 0⟩).step with
    | .ok s => ∃ m' b', step blank = .ok () m' ∧ m'.board = .flat b' ∧ view m'.registers b' = s
    | .error failure =>
      ∃ address opcode, step blank = .error (.unimplementedOpcode address opcode) blank ∧
        address.toNat = failure.address ∧ opcode.toNat = failure.opcode :=
  step_refines_reference blank ⟨Vector.replicate flatSize 0⟩ rfl rfl rfl rfl

end Machine

end Mos6502
