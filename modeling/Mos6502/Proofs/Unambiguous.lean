import Mos6502.Proofs.LongArithmetic
import Mos6502.Proofs.OperandAgreement
import Mos6502.Proofs.VisitedListing
import Mos6502.Text.Unsigned

/-!
# The text of an instruction tells its bytes

The text of an operand is a number between the signs of its mode, in a fixed number of digits. With
all digits made alike, mnemonic and signs are still different for each opcode; this outline is the
key by which a text is decoded (`opcode_of_outline`). Then the digits give back the operand bytes,
and the target of a branch gives back the distance, because a byte is known by its value modulo 256.
So the text depends on nothing but the program counter and the bytes of the instruction, and at one
program counter different bytes have different texts (`text_determines_bytes`).
-/

namespace Mos6502

/-! ## Digits -/

namespace Text

theorem hexDigit_injective : ∀ m < 16, ∀ n < 16, hexDigit m = hexDigit n → m = n := by decide

/-- Numbers of a given width are known from their digits. -/
theorem hexDigits_injective {width m n : Nat} (hm : m < 16 ^ width) (hn : n < 16 ^ width)
    (h : hexDigits width m = hexDigits width n) : m = n := by
  induction width generalizing m n with
  | zero => rw [Nat.lt_one_iff.mp hm, Nat.lt_one_iff.mp hn]
  | succ width ih =>
    obtain ⟨hfront, hlast⟩ := List.append_inj' h rfl
    rw [Nat.pow_succ] at hm hn
    have hquotient : m / 16 = n / 16 :=
      ih (Nat.div_lt_of_lt_mul (by omega)) (Nat.div_lt_of_lt_mul (by omega)) hfront
    have hremainder : m % 16 = n % 16 :=
      hexDigit_injective _ (m.mod_lt (by decide)) _ (n.mod_lt (by decide))
        (List.singleton_inj.mp hlast)
    omega

/-- A text with all its hexadecimal digits made alike. -/
def outline (s : String) : List Char :=
  s.toList.map fun c => if (digit? 16 c).isSome then '0' else c

theorem outline_append (s t : String) : outline (s ++ t) = outline s ++ outline t := by
  rw [outline, String.toList_append, List.map_append, ← outline, ← outline]

/-- Digits all look alike in an outline. -/
theorem outline_hexDigits (width n : Nat) :
    outline (String.ofList (hexDigits width n)) = List.replicate width '0' := by
  have hdigit : ∀ d < 16, (digit? 16 (hexDigit d)).isSome := by decide
  rw [outline, String.toList_ofList]
  induction width generalizing n with
  | zero => rfl
  | succ width ih =>
    rw [hexDigits, List.map_append, ih, List.map_singleton,
      if_pos (hdigit _ (n.mod_lt (by decide))), List.replicate_succ']

/-- Nothing is dropped from a text at the end of which there is no space. -/
theorem trimRight_append {s t : String} (ht : t ≠ "") (hspace : ' ' ∉ t.toList) :
    trimRight (s ++ t) = s ++ t := by
  have hne : t.toList.reverse.isEmpty = false := by simpa using ht
  rw [trimRight, String.toList_append, List.reverse_append, List.dropWhile_append,
    dropWhile_reverse hspace, hne, if_neg Bool.false_ne_true, ← List.reverse_append,
    List.reverse_reverse, ← String.toList_append, String.ofList_toList]

/-- A space behind a word is dropped. -/
theorem trimRight_space {word : String} (h : ' ' ∉ word.toList) :
    trimRight (word ++ " ") = word := by
  have hreverse : (word ++ " ").toList.reverse = ' ' :: word.toList.reverse := by simp
  rw [trimRight, hreverse, List.dropWhile_cons_of_pos (by decide),
    dropWhile_reverse h, List.reverse_reverse, String.ofList_toList]

end Text

/-! ## The shape of an operand -/

/-- What stands around the digits of an operand, and how many digits it has. -/
structure OperandForm where
  front : String := ""
  digits : Nat := 0
  back : String := ""

namespace OperandForm

/-- The operand of this form with this number. -/
def write (form : OperandForm) (n : Nat) : String :=
  form.front ++ String.ofList (Text.hexDigits form.digits n) ++ form.back

/-- A number is known from the operand text that it is written into. -/
theorem write_injective {form : OperandForm} {m n : Nat} (hm : m < 16 ^ form.digits)
    (hn : n < 16 ^ form.digits) (h : form.write m = form.write n) : m = n := by
  have hlist := congrArg String.toList h
  simp only [write, String.toList_append, String.toList_ofList] at hlist
  exact Text.hexDigits_injective hm hn (List.append_cancel_left (List.append_cancel_right hlist))

/-- The outline of an operand does not show its number. -/
theorem outline_write (form : OperandForm) (n : Nat) :
    Text.outline (form.write n) = Text.outline (form.write 0) := by
  simp only [write, Text.outline_append, Text.outline_hexDigits]

end OperandForm

namespace AddressingMode

/-- How the operands of a mode are written. A branch is written as the address where it goes. -/
def form : AddressingMode → OperandForm
  | implied => { }
  | accumulator => { front := "A" }
  | immediate => { front := "#$", digits := 2 }
  | relative | absolute => { front := "$", digits := 4 }
  | zeroPage => { front := "$", digits := 2 }
  | zeroPageX => { front := "$", digits := 2, back := ",X" }
  | zeroPageY => { front := "$", digits := 2, back := ",Y" }
  | absoluteX => { front := "$", digits := 4, back := ",X" }
  | absoluteY => { front := "$", digits := 4, back := ",Y" }
  | indirect => { front := "($", digits := 4, back := ")" }
  | indexedIndirect => { front := "($", digits := 2, back := ",X)" }
  | indirectIndexed => { front := "($", digits := 2, back := "),Y" }

/-- The number that an operand with these bytes is written as; the instruction is at `pc`. -/
def shown (mode : AddressingMode) (pc : UInt16) (bytes : List UInt8) : Nat :=
  if mode = .relative then (Alu.branchTarget pc (bytes.headD 0)).toNat
  else LittleEndian.number bytes

/-- No operand has a space in it. -/
theorem space_not_mem_write (mode : AddressingMode) (n : Nat) :
    ' ' ∉ (mode.form.write n).toList := by
  have hdigits := Text.space_not_mem_hexDigits mode.form.digits n
  have hsigns : ' ' ∉ mode.form.front.toList ∧ ' ' ∉ mode.form.back.toList := by
    cases mode <;> decide
  simp only [OperandForm.write, String.toList_append, String.toList_ofList, List.mem_append, not_or]
  exact ⟨⟨hsigns.1, hdigits⟩, hsigns.2⟩

/-- Two digits for each byte, and four for the target of a branch. -/
theorem shown_lt {mode : AddressingMode} {bytes : List UInt8} (h : bytes.length + 1 = mode.size)
    (pc : UInt16) : mode.shown pc bytes < 16 ^ mode.form.digits := by
  rw [shown]
  split
  next hmode =>
    subst hmode
    exact (Alu.branchTarget pc _).toNat_lt
  next hmode =>
    have hdigits : mode.form.digits = 2 * bytes.length := by
      rw [← Nat.add_right_cancel_iff (n := 2), ← Nat.mul_succ, Nat.succ_eq_add_one, h]
      cases mode <;> first | rfl | exact absurd rfl hmode
    rw [hdigits, Nat.pow_mul]
    exact LittleEndian.number_lt bytes

/-- The distance of a branch is what lies between its end and its target, modulo 256. -/
theorem toUInt8_branchTarget_sub (pc : UInt16) (offset : UInt8) :
    (Alu.branchTarget pc offset - (pc + 2)).toUInt8 = offset := by
  have hextend : ∀ offset : UInt8, (Alu.signExtend offset).toUInt8 = offset :=
    Byte.forall_of_values (by decide +kernel)
  rw [Alu.branchTarget, UInt16.add_comm (pc + 2), UInt16.add_sub_cancel, hextend]

/-- The operand bytes are known from the number that is shown for them. -/
theorem shown_injective {mode : AddressingMode} {pc : UInt16} {bytes bytes' : List UInt8}
    (hbytes : bytes.length + 1 = mode.size) (hbytes' : bytes'.length + 1 = mode.size)
    (h : mode.shown pc bytes = mode.shown pc bytes') : bytes = bytes' := by
  have hlength : bytes.length = bytes'.length := Nat.succ_injective (hbytes.trans hbytes'.symm)
  rw [shown, shown] at h
  split at h
  next hmode =>
    subst hmode
    obtain ⟨offset, rfl⟩ := List.length_eq_one_iff.mp (Nat.succ_injective hbytes)
    obtain ⟨offset', rfl⟩ := List.length_eq_one_iff.mp (Nat.succ_injective hbytes')
    have htarget := UInt16.toNat_inj.mp h
    rw [← toUInt8_branchTarget_sub pc offset, ← toUInt8_branchTarget_sub pc offset']
    exact congrArg (fun target => [(target - (pc + 2)).toUInt8]) htarget
  next => exact LittleEndian.number_injective hlength h

end AddressingMode

/-! ## Decoding a text -/

namespace Instruction

/-- The outline of an instruction as text. The mnemonic is left as it is: without its letters `ADC`
and `BCC` would be alike. -/
def outline (i : Instruction) : String :=
  i.mnemonic ++ " " ++ String.ofList (Text.outline (i.mode.form.write 0))

/-- No two opcodes have the same outline, over all 256. -/
theorem nodup_outline : ((List.range 256).filterMap fun n =>
    (decode (UInt8.ofNat n)).map outline).Nodup := by decide +kernel

/-- No two opcodes have instructions of one outline. -/
theorem opcode_of_outline {opcode opcode' : UInt8} {i i' : Instruction}
    (hi : decode opcode = some i) (hi' : decode opcode' = some i') (h : i.outline = i'.outline) :
    opcode = opcode' := by
  have hsymm : Std.Symm fun m n => ∀ s, (decode (UInt8.ofNat m)).map outline = some s →
      ∀ t, (decode (UInt8.ofNat n)).map outline = some t → s ≠ t :=
    ⟨fun m n hunlike s hs t ht => (hunlike t ht s hs).symm⟩
  by_contra hne
  refine (List.pairwise_filterMap.mp nodup_outline).forall (List.mem_range.mpr opcode.toNat_lt)
    (List.mem_range.mpr opcode'.toNat_lt) (UInt8.toNat_inj.not.mpr hne) i.outline ?_ i'.outline ?_ h
  · rw [UInt8.ofNat_toNat, hi, Option.map_some]
  · rw [UInt8.ofNat_toNat, hi', Option.map_some]

end Instruction

namespace Core

variable {c : Core} {i : Instruction} {operand : Operand}

theorem peekWord_eq_ok {address w : UInt16} (h : c.peekWord address = .ok w) :
    ∃ low high, c.peekByte address = .ok low ∧ c.peekByte (address + 1) = .ok high ∧
      w = Microcode.word low high := by
  rw [peekWord, Microcode.peek] at h
  cases hlow : c.peekByte address with
  | error e => rw [Microcode.execute_readWord_error_low hlow] at h; cases h
  | ok low =>
    cases hhigh : c.peekByte (address + 1) with
    | error e => rw [Microcode.execute_readWord_error_high hlow hhigh] at h; cases h
    | ok high =>
      rw [Microcode.execute_readWord_ok hlow hhigh] at h
      cases h
      exact ⟨low, high, rfl, rfl, rfl⟩

/-- The text of an operand is the number that its mode shows, written in its form. -/
theorem text_render (mode : AddressingMode) (byte : UInt8) (word address : UInt16)
    (content : UInt8) :
    (Operand.render mode byte word address content).text = mode.form.write
      (if mode = .relative then address.toNat
        else if mode.size = 3 then word.toNat else byte.toNat) := by
  rw [← String.toList_inj]
  cases mode with
  | implied | accumulator => rfl
  | _ =>
    simp [Operand.render, AddressingMode.form, OperandForm.write, AddressingMode.size,
      Text.hexByte, Text.hexWord, Text.address]

/-- What the text of an operand shows are the bytes behind the opcode. -/
theorem exists_bytes_of_operand (hfetched : i.FetchedFrom c) (h : c.operand i.mode = .ok operand) :
    ∃ opcode bytes, Instruction.decode opcode = some i ∧
      c.instructionBytes i.size = .ok (opcode :: bytes) ∧ bytes.length + 1 = i.mode.size ∧
      operand.text = i.mode.form.write (i.mode.shown c.registers.pc bytes) := by
  obtain ⟨opcode, hopcode, hdecode⟩ := hfetched
  have hfirst : c.peekByte (c.registers.pc + UInt16.ofNat 0) = .ok opcode := by
    rw [show c.registers.pc + UInt16.ofNat 0 = c.registers.pc from UInt16.add_zero _]
    exact hopcode
  rw [operand_eq] at h
  obtain ⟨address, hresolve, h⟩ := except_bind_eq_ok.mp h
  obtain ⟨byte, hbyte, h⟩ := except_bind_eq_ok.mp h
  obtain ⟨word, hword, h⟩ := except_bind_eq_ok.mp h
  obtain ⟨content, -, h⟩ := except_bind_eq_ok.mp h
  cases h
  obtain rfl := AddressingMode.eq_effective hresolve
  rw [text_render, Instruction.size]
  refine ⟨opcode, ?_⟩
  -- Whatever else resolving the operand reads, the text has only these bytes in it.
  have hbounds := i.mode.size_bounds
  by_cases hone : i.mode.size = 1
  · have hshown : i.mode.form.digits = 0 := by
      generalize i.mode = mode at hone
      cases mode <;> first | rfl | cases hone
    refine ⟨[], hdecode, ?_, hone.symm, by rw [OperandForm.write, OperandForm.write, hshown]; rfl⟩
    rw [hone]
    exact mapM_eq_ok_of_forall₂ (.cons hfirst .nil)
  rw [if_neg hone] at hbyte
  by_cases hthree : i.mode.size = 3
  · have hmode : i.mode ≠ .relative := fun hrelative => by rw [hrelative] at hthree; cases hthree
    rw [if_pos hthree] at hword
    obtain ⟨low, high, hlow, hhigh, rfl⟩ := peekWord_eq_ok hword
    refine ⟨[low, high], hdecode, ?_, hthree.symm, ?_⟩
    · rw [← Instruction.second_byte_address] at hhigh
      rw [hthree]
      exact mapM_eq_ok_of_forall₂ (.cons hfirst (.cons hlow (.cons hhigh .nil)))
    · rw [AddressingMode.shown, if_neg hmode, if_neg hmode, if_pos hthree, Microcode.toNat_word]
      rfl
  · have htwo : i.mode.size = 2 := by omega
    refine ⟨[byte], hdecode, ?_, htwo.symm, ?_⟩
    · rw [htwo]
      exact mapM_eq_ok_of_forall₂ (.cons hfirst (.cons hbyte .nil))
    · rw [AddressingMode.shown, if_neg hthree]
      split
      next hmode =>
        rw [hmode, AddressingMode.effective, Board.byteAt_of_ok hbyte]
        rfl
      next => rfl

end Core

/-! ## The text of an instruction -/

namespace Text

/-- A text is cut in one way at its first space. -/
theorem append_space_inj {word word' : String} (hword : ' ' ∉ word.toList)
    (hword' : ' ' ∉ word'.toList) {text text' : String} :
    word ++ " " ++ text = word' ++ " " ++ text' ↔ word = word' ∧ text = text' := by
  refine ⟨fun h => ?_, fun ⟨hfirst, hrest⟩ => by rw [hfirst, hrest]⟩
  have hlist : word.toList ++ ' ' :: text.toList = word'.toList ++ ' ' :: text'.toList := by
    simpa using congrArg String.toList h
  have hsplit := congrArg (splitOn ' ') hlist
  rw [splitOn_append hword, splitOn_append hword'] at hsplit
  have hfirst := (List.cons.inj hsplit).1
  rw [hfirst] at hlist
  have hrest := (List.cons.inj (List.append_cancel_left hlist)).2
  exact ⟨String.toList_inj.mp hfirst, String.toList_inj.mp hrest⟩

end Text

namespace Core

variable {c c' : Core} {i i' : Instruction} {operand operand' : Operand}

/-- Without an operand no space follows the mnemonic. -/
theorem source_eq (i : Instruction) (hspace : ' ' ∉ operand.text.toList) :
    source i operand =
      if operand.text = "" then i.mnemonic else i.mnemonic ++ " " ++ operand.text := by
  rw [source]
  split
  next hempty =>
    rw [hempty, String.append_empty]
    exact Text.trimRight_space i.space_not_mem_mnemonic
  next hne => exact Text.trimRight_append hne hspace

/-- Two instructions have the same source only if mnemonics and operands are the same: a mnemonic
that stands alone has no space in it. -/
theorem source_inj (hspace : ' ' ∉ operand.text.toList) (hspace' : ' ' ∉ operand'.text.toList) :
    source i operand = source i' operand' ↔
      i.mnemonic = i'.mnemonic ∧ operand.text = operand'.text := by
  have halone {i i' : Instruction} {text : String} : i.mnemonic ≠ i'.mnemonic ++ " " ++ text := by
    intro h
    apply i.space_not_mem_mnemonic
    rw [h]
    simp
  rw [source_eq i hspace, source_eq i' hspace']
  split <;> split
  next hempty hempty' => rw [hempty, hempty']; exact (and_iff_left rfl).symm
  next hempty hne' =>
    exact iff_of_false halone fun h => hne' (h.2 ▸ hempty)
  next hne hempty' =>
    exact iff_of_false halone.symm fun h => hne (h.2 ▸ hempty')
  next => exact Text.append_space_inj i.space_not_mem_mnemonic i'.space_not_mem_mnemonic

/-- An instruction with the digits of its operand made alike. -/
theorem outline_eq {n : Nat} (h : operand.text = i.mode.form.write n) :
    i.outline = i.mnemonic ++ " " ++ String.ofList (Text.outline operand.text) := by
  rw [Instruction.outline, h, OperandForm.outline_write _ n]

/-- At one program counter instructions with the same text have the same bytes, and instructions
with the same bytes have the same text, whatever registers and other bytes there are. Trimming the
text loses nothing. The target of a branch gives back the distance. -/
theorem text_determines_bytes (hpc : c.registers.pc = c'.registers.pc)
    (hi : i.FetchedFrom c) (hi' : i'.FetchedFrom c')
    (h : c.operand i.mode = .ok operand) (h' : c'.operand i'.mode = .ok operand') :
    ∃ bytes bytes', c.instructionBytes i.size = .ok bytes ∧ bytes.length = i.size ∧
      c'.instructionBytes i'.size = .ok bytes' ∧ bytes'.length = i'.size ∧
      (i.mnemonic ++ " " ++ operand.text = i'.mnemonic ++ " " ++ operand'.text ↔ bytes = bytes') ∧
      (source i operand = source i' operand' ↔ bytes = bytes') ∧
      (i.mode = .relative → ∃ opcode target, operand.text = Text.address target ∧
        bytes = [opcode, (target - (c.registers.pc + 2)).toUInt8]) := by
  obtain ⟨opcode, bytes, hdecode, hbytes, hsize, htext⟩ := exists_bytes_of_operand hi h
  obtain ⟨opcode', bytes', hdecode', hbytes', hsize', htext'⟩ := exists_bytes_of_operand hi' h'
  have hspace := i.mode.space_not_mem_write (i.mode.shown c.registers.pc bytes)
  have hspace' := i'.mode.space_not_mem_write (i'.mode.shown c'.registers.pc bytes')
  rw [← htext] at hspace
  rw [← htext'] at hspace'
  have hsame : i.mnemonic = i'.mnemonic ∧ operand.text = operand'.text ↔
      opcode :: bytes = opcode' :: bytes' := by
    constructor
    · rintro ⟨hmnemonic, hoperand⟩
      -- The digits are put aside to find the opcode; then they are compared under one mode.
      have houtline : i.outline = i'.outline := by
        rw [outline_eq htext, outline_eq htext', hmnemonic, hoperand]
      obtain rfl := Instruction.opcode_of_outline hdecode hdecode' houtline
      obtain rfl := Option.some.inj (hdecode.symm.trans hdecode')
      rw [htext, htext', ← hpc] at hoperand
      have hshown := OperandForm.write_injective (AddressingMode.shown_lt hsize _)
        (AddressingMode.shown_lt hsize' _) hoperand
      rw [AddressingMode.shown_injective hsize hsize' hshown]
    · intro hall
      obtain ⟨rfl, rfl⟩ := List.cons.inj hall
      obtain rfl := Option.some.inj (hdecode.symm.trans hdecode')
      rw [htext, htext', hpc]
      exact ⟨rfl, rfl⟩
  refine ⟨_, _, hbytes, hsize, hbytes', hsize', ?_, ?_, fun hrelative => ?_⟩
  · rw [Text.append_space_inj i.space_not_mem_mnemonic i'.space_not_mem_mnemonic, hsame]
  · rw [source_inj hspace hspace', hsame]
  · rw [hrelative] at hsize htext
    obtain ⟨offset, rfl⟩ := List.length_eq_one_iff.mp (Nat.succ_injective hsize)
    refine ⟨opcode, Alu.branchTarget c.registers.pc offset, htext.trans String.append_empty, ?_⟩
    rw [AddressingMode.toUInt8_branchTarget_sub]

/-- `BPL` to itself at `$8000`: other registers and another byte behind it make no difference. -/
theorem text_determines_bytes_branch :
    let c := (Machine.logging [0x10, 0xFE, 0x00]).core
    let c' := { (Machine.logging [0x10, 0xFE, 0xEA]).core with
      registers := { c.registers with x := 0x42, sp := 0x10 } }
    Instruction.FetchedFrom (.branch .bpl) c ∧ c.operand .relative = .ok ⟨"$8000", some "(-2)"⟩ ∧
      c.instructionBytes 2 = .ok [0x10, 0xFE] ∧ c'.instructionBytes 2 = .ok [0x10, 0xFE] := by
  intro c c'
  have hboth : Instruction.FetchedFrom (.branch .bpl) c ∧
      Instruction.FetchedFrom (.branch .bpl) c' ∧
      c.operand .relative = .ok ⟨"$8000", some "(-2)"⟩ ∧
      c'.operand .relative = .ok ⟨"$8000", some "(-2)"⟩ ∧
      c.instructionBytes 2 = .ok [0x10, 0xFE] := by decide +kernel
  obtain ⟨hbpl, hbpl', hoperand, hoperand', hc⟩ := hboth
  have hpc : c.registers.pc = c'.registers.pc := rfl
  obtain ⟨bytes, bytes', hbytes, -, hbytes', -, htext, -⟩ :=
    text_determines_bytes hpc hbpl hbpl' hoperand hoperand'
  obtain rfl := Except.ok.inj (hc.symm.trans hbytes)
  exact ⟨hbpl, hoperand, hc, htext.mp rfl ▸ hbytes'⟩

end Core

end Mos6502
