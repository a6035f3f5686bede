import Mathlib.Data.List.Infix
import Mos6502.Proofs.Brackets

/-!
# The stack as a list

From outside of an instruction bytes and words are pushed and pulled one call at a time. Seen from
where the calls began, the stack is a list of bytes with the newest in front (`Represents`), and
each call does to it what a list does (`execute_of_represents`). That goes well as long as no more
is taken than was put there and the page is not overfull, wherever the stack pointer begins and
however often it wraps (`stack_calls_act_on_list`). Nothing but the stack pointer and the bytes
behind the stack page changes.
-/

namespace Mos6502

/-- A call that uses the stack from outside of an instruction. -/
inductive StackCall where
  | pushByte (v : UInt8)
  | pullByte
  | pushWord (v : UInt16)
  | pullWord
deriving DecidableEq

inductive StackAnswer where
  | pushed
  | byte (v : UInt8)
  | word (v : UInt16)
deriving DecidableEq

namespace StackCall

def microcode : StackCall → Microcode StackAnswer
  | pushByte v => do
    Microcode.push v
    return .pushed
  | pullByte => return .byte (← Microcode.pull)
  | pushWord v => do
    Microcode.pushWord v
    return .pushed
  | pullWord => return .word (← Microcode.pullWord)

/-- By how many bytes a call deepens the stack. -/
def growth : StackCall → Int
  | pushByte _ => 1
  | pullByte => -1
  | pushWord _ => 2
  | pullWord => -2

/-- How many bytes lie on the stack behind some calls, from where they began. -/
def depth (calls : List StackCall) : Int := (calls.map growth).sum

/-- What a call does to a list of bytes, the newest in front. The high byte of a word is pushed
first, so that the low byte is pulled first. Nothing is pulled off too short a list. -/
def onList : StackCall → StateT (List UInt8) Option StackAnswer
  | pushByte v => fun bytes => some (.pushed, v :: bytes)
  | pullByte => fun
    | v :: bytes => some (.byte v, bytes)
    | [] => none
  | pushWord v => fun bytes => some (.pushed, v.toUInt8 :: (v >>> 8).toUInt8 :: bytes)
  | pullWord => fun
    | low :: high :: bytes => some (.word (Microcode.word low high), bytes)
    | [_] | [] => none

/-- A list takes a call that does not take more than there is. -/
theorem exists_onList {call : StackCall} {bytes : List UInt8} (h : 0 ≤ bytes.length + call.growth) :
    ∃ answer rest, call.onList bytes = some (answer, rest) ∧
      (rest.length : Int) = bytes.length + call.growth := by
  cases call with
  | pushByte v => exact ⟨.pushed, v :: bytes, rfl, by simp [growth]⟩
  | pushWord v =>
    exact ⟨.pushed, v.toUInt8 :: (v >>> 8).toUInt8 :: bytes, rfl, by simp [growth]; omega⟩
  | pullByte =>
    cases bytes with
    | nil => simp [growth] at h
    | cons v bytes => exact ⟨.byte v, bytes, rfl, by simp [growth]⟩
  | pullWord =>
    match bytes with
    | [] | [_] => simp [growth] at h
    | low :: high :: bytes => exact ⟨.word _, bytes, rfl, by simp [growth]; omega⟩

end StackCall

/-! ## What the stack is kept in -/

/-- The place in a RAM store lies behind the stack page. -/
def InStackPage (i : Nat) : Prop := 0x100 ≤ i ∧ i < 0x200

/-- The boards differ in no byte but those behind the stack page, and in no bank register. -/
def Board.SameOutsideStack : Board → Board → Prop
  | flat b, flat b' => ∀ i : Fin flatSize, ¬InStackPage i → b'.memory[i] = b.memory[i]
  | nrom b, nrom b' => b'.prg = b.prg ∧ b'.cartRam = b.cartRam ∧
      ∀ i : Fin workRamSize, ¬InStackPage i → b'.ram.bytes[i] = b.ram.bytes[i]
  | mmc1 b, mmc1 b' => b'.prg = b.prg ∧ b'.banks = b.banks ∧ b'.cartRam = b.cartRam ∧
      ∀ i : Fin workRamSize, ¬InStackPage i → b'.ram.bytes[i] = b.ram.bytes[i]
  | _, _ => False

instance : IsPreorder Board Board.SameOutsideStack where
  refl b := by cases b <;> simp [Board.SameOutsideStack]
  trans b b' b'' h k := by
    cases b <;> cases b' <;> cases b'' <;> simp_all [Board.SameOutsideStack]

theorem inStackPage_stackSlot (s : UInt8) : InStackPage (stackSlot s).toNat := by
  have hs := s.toNat_lt
  rw [toNat_stackSlot]
  exact ⟨by omega, by omega⟩

/-- A write to a slot is one inside the stack page. -/
theorem Board.sameOutsideStack_write (b : Board) (s v : UInt8) :
    b.SameOutsideStack (b.write (stackSlot s) v) := by
  have hpage := inStackPage_stackSlot s
  have hram (ram : WorkRam) (i : Fin workRamSize) (hi : ¬InStackPage i) :
      (ram.write (stackSlot s) v).bytes[i] = ram.bytes[i] := by
    have hcell : InStackPage (WorkRam.index (stackSlot s)) := by
      change InStackPage ((stackSlot s).toNat % workRamSize)
      rwa [Nat.mod_eq_of_lt (hpage.2.trans (by decide))]
    exact Vector.getElem_set_ne (Fin.isLt _) i.isLt fun heq => hi (heq ▸ hcell)
  cases b with
  | nrom b =>
    simp only [write, Nrom.write, Region.of_stackSlot]
    exact ⟨rfl, rfl, hram b.ram⟩
  | mmc1 b =>
    simp only [write, Mmc1.write, Region.of_stackSlot]
    exact ⟨rfl, rfl, rfl, hram b.ram⟩
  | flat b =>
    intro i hi
    exact Vector.getElem_set_ne (UInt16.toNat_lt _) i.isLt fun heq => hi (heq ▸ hpage)

/-- Only the stack pointer and the bytes behind the stack page have changed. -/
structure Core.OnlyStack (c c' : Core) : Prop where
  registers : c'.registers = { c.registers with sp := c'.registers.sp }
  board : c.board.SameOutsideStack c'.board

instance : IsPreorder Core Core.OnlyStack where
  refl c := ⟨rfl, refl c.board⟩
  trans _ _ _ h k := ⟨by rw [k.registers, h.registers], IsTrans.trans _ _ _ h.board k.board⟩

/-- A push touches the stack and its pointer only. -/
theorem Core.onlyStack_pushed (c : Core) (v : UInt8) : c.OnlyStack (c.pushed v) :=
  ⟨rfl, c.board.sameOutsideStack_write c.registers.sp v⟩

/-! ## One call -/

/-- The bytes above the stack pointer, up to where it was at first, are these. -/
structure Core.Represents (c : Core) (start : UInt8) (bytes : List UInt8) : Prop where
  sp : c.registers.sp = start - UInt8.ofNat bytes.length
  stack : c.stack bytes.length = bytes

namespace Core.Represents

variable {c c' : Core} {start v low high : UInt8} {bytes frame : List UInt8}

/-- An empty stack is represented wherever the pointer is. -/
theorem nil (c : Core) : c.Represents c.registers.sp [] := ⟨(UInt8.sub_zero _).symm, rfl⟩

/-- What is pushed comes in front, as long as the page has room for it. -/
theorem push (h : c.Represents start bytes) (hpush : Pushes frame c c')
    (hroom : bytes.length + frame.length ≤ 256) : c'.Represents start (frame ++ bytes) where
  sp := by
    rw [hpush.sp, h.sp, List.length_append, UInt8.ofNat_add]
    grind
  stack := by
    rw [List.length_append, Nat.add_comm, hpush.stack _ hroom, h.stack]

/-- The newest byte stands above the stack pointer. -/
theorem pull (h : c.Represents start (v :: bytes)) :
    c.board.stackByte (c.registers.sp + 1) = v ∧
      Represents ⟨{ c.registers with sp := c.registers.sp + 1 }, c.board⟩ start bytes := by
  obtain ⟨hbyte, hrest⟩ := List.cons.inj h.stack
  refine ⟨hbyte, ?_, hrest⟩
  change c.registers.sp + 1 = _
  rw [h.sp, List.length_cons, UInt8.ofNat_add]
  grind

end Core.Represents

namespace StackCall

/-- A call does to the stack what it does to the list that the stack represents. -/
theorem execute_of_represents {call : StackCall} {c : Core} {start : UInt8}
    {bytes rest : List UInt8} {answer : StackAnswer} (h : c.Represents start bytes)
    (hlist : call.onList bytes = some (answer, rest)) (hroom : rest.length ≤ 256) :
    ∃ c', call.microcode.execute c = .ok answer c' ∧ c'.Represents start rest ∧ c.OnlyStack c' := by
  cases call with
  | pushByte v =>
    cases hlist
    exact ⟨c.pushed v, rfl, h.push (c.pushes_pushed v) hroom, c.onlyStack_pushed v⟩
  | pushWord v =>
    cases hlist
    exact ⟨_, rfl, h.push (c.pushes_word v) hroom,
      IsTrans.trans _ _ _ (c.onlyStack_pushed _) (Core.onlyStack_pushed _ _)⟩
  | pullByte =>
    cases bytes with
    | nil => cases hlist
    | cons v bytes =>
      cases hlist
      obtain ⟨rfl, hrest⟩ := h.pull
      exact ⟨_, Microcode.execute_bind_of_ok (Microcode.execute_pull c), hrest, rfl, refl _⟩
  | pullWord =>
    match bytes with
    | [] | [_] => cases hlist
    | low :: high :: bytes =>
      cases hlist
      obtain ⟨rfl, hhigh⟩ := h.pull
      obtain ⟨rfl, hrest⟩ := hhigh.pull
      exact ⟨_, Microcode.execute_bind_of_ok (Microcode.execute_pullWord c), hrest, rfl, refl _⟩

end StackCall

namespace Machine

/-! ## Any number of calls -/

def callAll (calls : List StackCall) : EStateM ExecutionError Machine (List StackAnswer) :=
  calls.mapM fun call => perform none call.microcode

end Machine

namespace StackCall

/-- At no moment has more been pulled than pushed, or more pushed than the page has room for. -/
def Fitting (calls : List StackCall) : Prop :=
  ∀ earlier, earlier <+: calls → 0 ≤ depth earlier ∧ depth earlier ≤ 256

/-- Calls act on the machine as they do on the list, by induction on them; that the bytes stay
within the page is what lets the list be represented. -/
theorem callAll_of_represents {calls : List StackCall} {m : Machine} {start : UInt8}
    {bytes : List UInt8} (h : m.core.Represents start bytes)
    (hfits : ∀ earlier, earlier <+: calls →
      0 ≤ bytes.length + depth earlier ∧ bytes.length + depth earlier ≤ 256) :
    ∃ answers rest m', Machine.callAll calls m = .ok answers m' ∧
      calls.mapM onList bytes = some (answers, rest) ∧ m'.core.Represents start rest ∧
      (rest.length : Int) = bytes.length + depth calls ∧ m.core.OnlyStack m'.core := by
  induction calls generalizing m bytes with
  | nil => exact ⟨[], bytes, m, rfl, rfl, h, by simp [depth], refl _⟩
  | cons call calls ih =>
    have hdepth (earlier : List StackCall) :
        depth (call :: earlier) = call.growth + depth earlier := rfl
    have hfirst := hfits [call] (by simp)
    rw [hdepth] at hfirst
    have hnil : depth [] = 0 := rfl
    -- The prefix of the first call alone says that it finds its bytes and has room for them.
    obtain ⟨answer, between, hlist, hlength⟩ := @exists_onList call bytes (by omega)
    obtain ⟨c, hexecute, hrepresents, honly⟩ := execute_of_represents h hlist (by omega)
    obtain ⟨m₁, hperform, rfl⟩ := Machine.perform_of_execute none hexecute
    obtain ⟨answers, rest, m', hcalls, hlists, hrest, hdeep, hrestOnly⟩ :=
      ih hrepresents fun earlier hearlier => by
        have hfit := hfits (call :: earlier) ((List.prefix_cons_inj call).mpr hearlier)
        rw [hdepth] at hfit
        omega
    refine ⟨answer :: answers, rest, m', ?_, ?_, hrest, ?_, IsTrans.trans _ _ _ honly hrestOnly⟩
    · rw [Machine.callAll, List.mapM_cons, bind_of_ok hperform]
      exact bind_of_ok hcalls
    · simp only [List.mapM_cons, bind, StateT.bind, hlist, hlists, Option.bind_some]
      rfl
    · rw [hdepth]
      omega

end StackCall

namespace Machine

/-- Pushes and pulls, of bytes and of words in any mixture, act on the stack as on a list, as long
as the list neither runs out nor outgrows the page. At every moment all calls have succeeded with
the answers that the list gives, the stack pointer is as far below its start as the list is long,
and nothing else in registers and board has changed but the bytes behind the stack page. -/
theorem stack_calls_act_on_list (m : Machine) {calls : List StackCall}
    (hfits : StackCall.Fitting calls) :
    ∀ earlier, earlier <+: calls → ∃ answers bytes m',
      callAll earlier m = .ok answers m' ∧
      earlier.mapM StackCall.onList [] = some (answers, bytes) ∧
      (m'.registers.sp.toNat : Int) = (m.registers.sp.toNat - StackCall.depth earlier) % 256 ∧
      m.core.OnlyStack m'.core := by
  intro earlier hearlier
  have hroom : ∀ before, before <+: earlier →
      0 ≤ ([] : List UInt8).length + StackCall.depth before ∧
        ([] : List UInt8).length + StackCall.depth before ≤ 256 := fun before hbefore => by
    simpa using hfits before (hbefore.trans hearlier)
  obtain ⟨answers, bytes, m', hcalls, hlist, hrepresents, hlength, honly⟩ :=
    StackCall.callAll_of_represents (.nil m.core) hroom
  refine ⟨answers, bytes, m', hcalls, hlist, ?_, honly⟩
  have hsp : m'.registers.sp = m.registers.sp - UInt8.ofNat bytes.length := hrepresents.sp
  rw [hsp, UInt8.toNat_sub, UInt8.toNat_ofNat']
  have hlt := m.registers.sp.toNat_lt
  simp at hlength
  omega

/-- A word in every place of the page, and all of them taken off again, from the middle of the page
around its end. -/
theorem stack_calls_act_on_list_full_page :
    let m := (logging []).setRegisters { Registers.powerOn with sp := 0x80 }
    let calls := List.replicate 128 (StackCall.pushWord 0xBEEF) ++ List.replicate 128 .pullWord
    StackCall.Fitting calls ∧ ∃ answers m', callAll calls m = .ok answers m' ∧
      answers = List.replicate 128 .pushed ++ List.replicate 128 (.word 0xBEEF) ∧
      m'.registers.sp = 0x80 := by
  intro m calls
  have hfits : StackCall.Fitting calls := by
    have hall : ∀ earlier ∈ calls.inits,
        0 ≤ StackCall.depth earlier ∧ StackCall.depth earlier ≤ 256 := by decide +kernel
    exact fun earlier hearlier => hall earlier ((List.mem_inits earlier calls).mpr hearlier)
  have hlists : calls.mapM StackCall.onList [] =
      some (List.replicate 128 .pushed ++ List.replicate 128 (.word 0xBEEF), []) := by
    decide +kernel
  obtain ⟨answers, bytes, m', hcalls, hlist, hsp, -⟩ :=
    stack_calls_act_on_list m hfits calls List.prefix_rfl
  cases hlists.symm.trans hlist
  have hdepth : StackCall.depth calls = 0 := by decide +kernel
  rw [hdepth] at hsp
  refine ⟨hfits, _, m', hcalls, rfl, UInt8.toNat_inj.mp ?_⟩
  exact Int.ofNat.inj hsp

end Machine

end Mos6502
