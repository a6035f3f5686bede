import Mathlib.Data.Nat.Digits.Lemmas
import Mos6502.Board.Mmc1
import Mos6502.Proofs.Byte

/-!
# The serial port read off the list of writes

The bank registers are programmed one bit at a time, so what they hold is a function of the whole
list of writes since power-on. `scan` is that function at the level of lists: it knows groups of
bits and commits, but no shift register. `banks_eq_scan` says that the board holds exactly what the
scan finds, however groups are spread over windows, abandoned, or interleaved with RAM writes.
-/

namespace Mos6502.SerialPort

abbrev Write := UInt16 × UInt8

/-- The registers behind the port. -/
inductive Target where
  | control | chr0 | chr1 | prg
deriving DecidableEq

/-- The register that the address of a fifth write selects. -/
def Target.of (address : Nat) : Target :=
  if address < 0xA000 then .control
  else if address < 0xC000 then .chr0
  else if address < 0xE000 then .chr1
  else .prg

/-- What a list of writes has delivered: the commits, oldest first, and the bits of the group in
progress, the first bit first. -/
structure Delivery where
  commits : List (Target × Nat) := []
  group : List Nat := []

namespace Delivery

def take (d : Delivery) (w : Write) : Delivery :=
  if 0x80 ≤ w.2.toNat then { d with group := [] }
  else
    let group := d.group ++ [w.2.toNat % 2]
    if group.length = 5 then
      { commits := d.commits ++ [(Target.of w.1.toNat, Nat.ofDigits 2 group)], group := [] }
    else { d with group := group }

def last? (d : Delivery) (target : Target) : Option Nat :=
  ((d.commits.filter fun commit => commit.1 = target).getLast?).map Prod.snd

/-- The bank registers after these commits, with the group in progress in the shift register. -/
def banks (hasRam : Bool) (d : Delivery) : BankConfig where
  mirroring := UInt8.ofNat ((d.last? .control).elim 0 (· % 4))
  prgMode := UInt8.ofNat ((d.last? .control).elim 3 (· / 4 % 4))
  chrMode := UInt8.ofNat ((d.last? .control).elim 0 (· / 16))
  chrBank0 := UInt8.ofNat ((d.last? .chr0).getD 0)
  chrBank1 := UInt8.ofNat ((d.last? .chr1).getD 0)
  prgBank := UInt8.ofNat ((d.last? .prg).elim 0 (· % 16))
  hasRam := hasRam || d.commits.any fun commit => commit.1 = .prg && 16 ≤ commit.2
  shift := UInt8.ofNat (Nat.ofDigits 2 d.group)
  shiftCount := UInt8.ofNat d.group.length

/-- A group in progress has at most four bits. -/
structure Open (d : Delivery) : Prop where
  length_le : d.group.length ≤ 4
  bits : ∀ bit ∈ d.group, bit < 2

end Delivery

/-- Read a list of writes: those below the ROM window never reach the port. -/
def scan (writes : List Write) : Delivery :=
  (writes.filter fun w => 0x8000 ≤ w.1.toNat).foldl Delivery.take {}

/-! ## One write -/

/-- Shifting a bit in above the bits of the group adds its weight. -/
theorem toNat_shifted {c : BankConfig} (hcount : c.shiftCount.toNat ≤ 4)
    (hshift : c.shift.toNat < 2 ^ c.shiftCount.toNat) (v : UInt8) :
    (c.shifted v).toNat = c.shift.toNat + 2 ^ c.shiftCount.toNat * (v.toNat % 2) := by
  have hmod : c.shiftCount.toNat % 8 = c.shiftCount.toNat := Nat.mod_eq_of_lt (by omega)
  have hpow : 2 ^ c.shiftCount.toNat ≤ 2 ^ 4 := Nat.pow_le_pow_right (by decide) hcount
  have hbit : 2 ^ c.shiftCount.toNat * (v.toNat % 2) ≤ 2 ^ 4 :=
    (Nat.mul_le_mul hpow (by omega : v.toNat % 2 ≤ 1)).trans (by decide)
  rw [BankConfig.shifted, UInt8.toNat_or, UInt8.toNat_shiftLeft, UInt8.toNat_and, hmod]
  change c.shift.toNat ||| (v.toNat &&& 1) <<< _ % _ = _
  rw [Nat.and_one_is_mod, Nat.shiftLeft_eq, Nat.mul_comm, Nat.mod_eq_of_lt (by omega),
    Nat.or_comm, ← Nat.two_pow_add_eq_or_of_lt hshift, Nat.add_comm]

/-- The fields of the registers, cut out of five bits. -/
theorem fields_of_five : ∀ five : UInt8, five.toNat < 32 →
    five &&& 3 = UInt8.ofNat (five.toNat % 4) ∧
    (five >>> 2) &&& 3 = UInt8.ofNat (five.toNat / 4 % 4) ∧
    (five >>> 4) &&& 1 = UInt8.ofNat (five.toNat / 16) ∧
    five &&& 0x0F = UInt8.ofNat (five.toNat % 16) ∧
    (five &&& 0x10 != 0) = decide (16 ≤ five.toNat) :=
  Byte.forall_of_values (by decide +kernel)

/-- The window of the address alone chooses the register of a commit. -/
theorem commit_eq (c : BankConfig) (address : UInt16) (five : UInt8) :
    c.commit address five =
      match Target.of address.toNat with
      | .control =>
        { c with
          mirroring := five &&& 3
          prgMode := (five >>> 2) &&& 3
          chrMode := (five >>> 4) &&& 1 }
      | .chr0 => { c with chrBank0 := five }
      | .chr1 => { c with chrBank1 := five }
      | .prg => { c with prgBank := five &&& 0x0F, hasRam := c.hasRam || five &&& 0x10 != 0 } := by
  simp only [BankConfig.commit, Target.of, UInt16.lt_iff_toNat_lt, UInt16.reduceToNat]
  split_ifs <;> rfl

namespace Delivery

/-- The last number delivered to a target, after one more delivery. -/
theorem last?_append (d : Delivery) (target other : Target) (n : Nat) (group : List Nat) :
    last? { commits := d.commits ++ [(target, n)], group := group } other =
      if target = other then some n else d.last? other := by
  by_cases h : target = other <;> simp [last?, List.filter_append, h]

variable {d : Delivery}

theorem Open.number_lt (h : d.Open) : Nat.ofDigits 2 d.group < 2 ^ d.group.length :=
  Nat.ofDigits_lt_base_pow_length (by decide) h.bits

theorem Open.bits_append (h : d.Open) (v : UInt8) :
    ∀ bit ∈ d.group ++ [v.toNat % 2], bit < 2 := by
  intro bit hbit
  rcases List.mem_append.mp hbit with hold | hnew
  · exact h.bits bit hold
  · rw [List.mem_singleton.mp hnew]
    exact Nat.mod_lt _ (by decide)

/-- The shift register holds the bits of the open group. -/
theorem Open.shift_banks (h : d.Open) (hasRam : Bool) :
    (d.banks hasRam).shift.toNat = Nat.ofDigits 2 d.group := by
  have hpow : 2 ^ d.group.length ≤ 2 ^ 4 := Nat.pow_le_pow_right (by decide) h.length_le
  exact UInt8.toNat_ofNat_of_lt' ((h.number_lt.trans_le hpow).trans (by decide))

theorem Open.shiftCount_banks (h : d.Open) (hasRam : Bool) :
    (d.banks hasRam).shiftCount.toNat = d.group.length :=
  UInt8.toNat_ofNat_of_lt' (h.length_le.trans_lt (by decide))

/-- The shift register of the board after one more bit is the number of the longer group. -/
theorem Open.shifted_banks (h : d.Open) (hasRam : Bool) (v : UInt8) :
    ((d.banks hasRam).shifted v).toNat = Nat.ofDigits 2 (d.group ++ [v.toNat % 2]) := by
  have hcount := h.shiftCount_banks hasRam
  have hshift := h.shift_banks hasRam
  rw [toNat_shifted (by rw [hcount]; exact h.length_le) (by rw [hcount, hshift]; exact h.number_lt),
    hcount, hshift, Nat.ofDigits_append, Nat.ofDigits_singleton]

/-- A commit reaches the register of its window, and the group starts anew. -/
theorem commit_banks (d : Delivery) (hasRam : Bool) (address : UInt16) {five : UInt8}
    (hfive : five.toNat < 32) :
    ((d.banks hasRam).commit address five).abandon = banks hasRam
      { commits := d.commits ++ [(Target.of address.toNat, five.toNat)], group := [] } := by
  obtain ⟨hmirror, hmode, hchr, hbank, hram⟩ := fields_of_five five hfive
  rw [commit_eq]
  cases Target.of address.toNat with
  | control => simp [banks, BankConfig.abandon, last?_append, hmirror, hmode, hchr]
  | chr0 => simp [banks, BankConfig.abandon, last?_append]
  | chr1 => simp [banks, BankConfig.abandon, last?_append]
  | prg => simp [banks, BankConfig.abandon, last?_append, hbank, hram, Bool.or_assoc]

/-- Four bits of the delivered number choose the bank. -/
theorem prgBank_banks_lt (d : Delivery) (hasRam : Bool) : (d.banks hasRam).prgBank.toNat < 16 := by
  cases h : d.last? .prg with
  | none => simp [banks, h]
  | some five => simp [banks, h]; omega

theorem prgMode_banks_le (d : Delivery) (hasRam : Bool) : (d.banks hasRam).prgMode ≤ 3 := by
  rw [UInt8.le_iff_toNat_le]
  cases h : d.last? .control with
  | none => simp [banks, h]
  | some five => simp [banks, h]; omega

/-- One write to the port does to the registers what it does to the list. -/
theorem Open.feed_banks (h : d.Open) (hasRam : Bool) (w : Write) :
    (d.banks hasRam).feed w.1 w.2 = (d.take w).banks hasRam := by
  have hcount := h.shiftCount_banks hasRam
  have hlast : (d.banks hasRam).shiftCount = 4 ↔ d.group.length = 4 := by
    rw [← UInt8.toNat_inj, hcount]
    rfl
  by_cases htop : 0x80 ≤ w.2.toNat
  · rw [BankConfig.feed, if_pos ((Byte.and_top_ne_zero _).mpr htop), take, if_pos htop]
    rfl
  have hzero : w.2 &&& 0x80 = 0 := by
    simpa [htop] using (Byte.and_top_ne_zero w.2).not
  have hnumber := h.shifted_banks hasRam w.2
  rw [BankConfig.feed, if_neg (not_not_intro hzero), take, if_neg htop]
  by_cases hfull : d.group.length = 4
  · have hfive : Nat.ofDigits 2 (d.group ++ [w.2.toNat % 2]) < 32 := by
      have := Nat.ofDigits_lt_base_pow_length (by decide) (h.bits_append w.2)
      simpa [hfull] using this
    have hcut : ((d.banks hasRam).shifted w.2 &&& 0x1F).toNat =
        Nat.ofDigits 2 (d.group ++ [w.2.toNat % 2]) := by
      rw [UInt8.toNat_and, hnumber]
      exact (Nat.and_two_pow_sub_one_eq_mod _ 5).trans (Nat.mod_eq_of_lt hfive)
    simp only [BankConfig.completed?, hzero, hlast.mpr hfull, and_self, if_true, List.length_append,
      hfull, List.length_singleton]
    rw [commit_banks d hasRam w.1 (by rw [hcut]; exact hfive), hcut]
  · have hshift : (d.banks hasRam).shifted w.2 =
        UInt8.ofNat (Nat.ofDigits 2 (d.group ++ [w.2.toNat % 2])) := by
      rw [← hnumber, UInt8.ofNat_toNat]
    have hnext : (d.banks hasRam).shiftCount + 1 = UInt8.ofNat (d.group.length + 1) :=
      (UInt8.ofNat_add d.group.length 1).symm
    simp only [BankConfig.completed?, hlast, hfull, and_false, if_false, List.length_append,
      List.length_singleton, Nat.reduceEqDiff, hshift, hnext]
    simp [banks, last?]

/-- A write leaves a group of at most four bits open. -/
theorem Open.take (h : d.Open) (w : Write) : (d.take w).Open := by
  unfold Delivery.take
  split
  next => exact ⟨Nat.zero_le _, by simp⟩
  next =>
    have hlength := h.length_le
    dsimp only
    split
    next => exact ⟨Nat.zero_le _, by simp⟩
    next hnot =>
      refine ⟨?_, h.bits_append w.2⟩
      simp only [List.length_append, List.length_singleton] at hnot ⊢
      omega

end Delivery

/-- At power-on nothing was delivered yet. -/
theorem powerOn_eq_banks (hasRam : Bool) :
    BankConfig.powerOn hasRam = Delivery.banks hasRam {} := by
  simp [Delivery.banks, Delivery.last?, BankConfig.powerOn]

/-! ## All writes -/

/-- Only the port of a board changes its bank registers. -/
theorem banks_write (b : Mmc1) (w : Write) :
    (b.write w.1 w.2).banks =
      if 0x8000 ≤ w.1.toNat then b.banks.feed w.1 w.2 else b.banks := by
  simp only [Mmc1.write, Region.of, UInt16.lt_iff_toNat_lt, UInt16.reduceToNat]
  split_ifs <;> first | omega | rfl

/-- The board and the scan go through a list of writes side by side. -/
theorem banks_foldl (hasRam : Bool) (writes : List Write) (b : Mmc1) (d : Delivery)
    (hopen : d.Open) (hbanks : b.banks = d.banks hasRam) :
    let last := (writes.filter fun w => 0x8000 ≤ w.1.toNat).foldl Delivery.take d
    last.Open ∧ (writes.foldl (fun b w => b.write w.1 w.2) b).banks = last.banks hasRam := by
  induction writes generalizing b d with
  | nil => exact ⟨hopen, hbanks⟩
  | cons w rest ih =>
    simp only [List.filter_cons, List.foldl_cons]
    by_cases hport : 0x8000 ≤ w.1.toNat
    · rw [if_pos (decide_eq_true hport)]
      refine ih _ _ (hopen.take w) ?_
      rw [banks_write, if_pos hport, hbanks, hopen.feed_banks]
    · rw [if_neg (by simpa using hport)]
      refine ih _ _ hopen ?_
      rw [banks_write, if_neg hport, hbanks]

/-- From power-on, the bank registers are what the scan of the writes says, whatever the image:
each field shows the last commit to its register, cartridge RAM stays enabled once a commit
enabled it, and the shift register holds exactly the bits of the unfinished group. -/
theorem banks_eq_scan (prg : Array UInt8) (hasRam : Bool) (b : Mmc1)
    (hpower : Mmc1.ofImage prg hasRam = .ok b) (writes : List Write) :
    let banks := (writes.foldl (fun b w => b.write w.1 w.2) b).banks
    banks = (scan writes).banks hasRam ∧
      banks.shift.toNat = Nat.ofDigits 2 (scan writes).group ∧
      banks.shiftCount.toNat = (scan writes).group.length ∧
      (scan writes).group.length ≤ 4 ∧
      banks.shift.toNat < 2 ^ banks.shiftCount.toNat := by
  have hstart : b.banks = Delivery.banks hasRam {} := by
    unfold Mmc1.ofImage at hpower
    split at hpower
    next => cases hpower; simp [Delivery.banks, Delivery.last?, BankConfig.powerOn]
    next => cases hpower
  obtain ⟨hopen, hbanks⟩ := banks_foldl hasRam writes b {} ⟨Nat.zero_le _, by simp⟩ hstart
  change (scan writes).Open at hopen
  change _ = (scan writes).banks hasRam at hbanks
  have hshift := hopen.shift_banks hasRam
  have hcount := hopen.shiftCount_banks hasRam
  dsimp only
  rw [hbanks, hshift, hcount]
  exact ⟨rfl, rfl, rfl, hopen.length_le, hopen.number_lt⟩

/-- A group is abandoned after one bit, the next one is spread over all four registers and
interrupted by a RAM write, and a third has begun: bank 13 is selected and RAM enabled. -/
theorem banks_eq_scan_spread_group :
    ∃ b, Mmc1.ofImage (Array.replicate 0x4000 0) false = .ok b ∧
      ([(0x8000, 1), (0xA000, 0x80), (0x8000, 1), (0x6000, 0xFF), (0x9000, 0), (0xC000, 1),
        (0xA000, 1), (0xE123, 1),
        (0xFFFF, 1)].foldl (fun b (w : Write) => b.write w.1 w.2) b).banks =
      { BankConfig.powerOn true with prgBank := 13, shift := 1, shiftCount := 1 } := by
  have hpower : Mmc1.ofImage (Array.replicate 0x4000 0) false = .ok _ :=
    dif_pos ⟨by simp, by simp⟩
  exact ⟨_, hpower, (banks_eq_scan _ false _ hpower _).1.trans (by decide)⟩

end Mos6502.SerialPort
