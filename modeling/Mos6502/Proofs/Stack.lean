import Mos6502.Proofs.AddressSpace
import Mos6502.Proofs.Arithmetic
import Mos6502.Proofs.Traffic

/-!
# The stack on a board

The stack is page one, and page one is RAM on every board, so a stack byte can always be read. Seen
from the stack pointer the stack is a list: a push puts a byte in front of it and a pull takes the
first one away, through every wrap of the stack pointer, as long as no more than 256 bytes are
looked at. Other writes leave the list alone unless they reach one of its bytes, which work RAM
shows at more than one address.
-/

namespace Mos6502

def stackSlot (s : UInt8) : UInt16 := 0x0100 ||| s.toUInt16

theorem toNat_stackSlot (s : UInt8) : (stackSlot s).toNat = 0x100 + s.toNat := by
  revert s
  exact Byte.forall_of_values (by decide +kernel)

theorem stackSlot_inj {s t : UInt8} : stackSlot s = stackSlot t ↔ s = t := by
  rw [← UInt16.toNat_inj, toNat_stackSlot, toNat_stackSlot, Nat.add_left_cancel_iff,
    UInt8.toNat_inj]

/-- The stack page is work RAM on every board with a cartridge. -/
theorem Region.of_stackSlot (s : UInt8) : Region.of (stackSlot s) = .workRam := by
  revert s
  exact Byte.forall_of_values (by decide +kernel)

/-- The slots above a slot, the nearest first. They wrap at the top of the stack page. -/
def slotsAbove (s : UInt8) : Nat → List UInt8
  | 0 => []
  | n + 1 => (s + 1) :: slotsAbove (s + 1) n

theorem exists_of_mem_slotsAbove {s t : UInt8} {n : Nat} (h : t ∈ slotsAbove s n) :
    ∃ k, 1 ≤ k ∧ k ≤ n ∧ t = s + UInt8.ofNat k := by
  induction n generalizing s with
  | zero => simp [slotsAbove] at h
  | succ n ih =>
    rcases List.mem_cons.mp h with rfl | hrest
    · exact ⟨1, le_refl 1, by omega, rfl⟩
    · obtain ⟨k, hk, hkn, rfl⟩ := ih hrest
      refine ⟨k + 1, by omega, by omega, ?_⟩
      rw [UInt8.ofNat_add, UInt8.add_assoc, UInt8.add_comm 1]
      rfl

theorem slotsAbove_add (s : UInt8) (n k : Nat) :
    slotsAbove s (n + k) = slotsAbove s k ++ slotsAbove (s + UInt8.ofNat k) n := by
  induction k generalizing s with
  | zero => exact congrArg (slotsAbove · n) (UInt8.add_zero s).symm
  | succ k ih =>
    have hslot : s + 1 + UInt8.ofNat k = s + UInt8.ofNat (k + 1) := by
      rw [UInt8.ofNat_add, UInt8.add_assoc, UInt8.add_comm 1]
      rfl
    rw [← Nat.add_assoc, slotsAbove, slotsAbove, ih, hslot]
    rfl

theorem length_slotsAbove (s : UInt8) (n : Nat) : (slotsAbove s n).length = n := by
  induction n generalizing s with
  | zero => rfl
  | succ n ih => rw [slotsAbove, List.length_cons, ih]

/-- As long as the page is not exceeded, a slot is not above itself. -/
theorem not_mem_slotsAbove (s : UInt8) {n : Nat} (h : n < 256) : s ∉ slotsAbove s n := by
  intro hmem
  obtain ⟨k, hk, hkn, heq⟩ := exists_of_mem_slotsAbove hmem
  have hwrap := congrArg UInt8.toNat heq
  rw [UInt8.toNat_add, UInt8.toNat_ofNat'] at hwrap
  have hs := s.toNat_lt
  omega

namespace Board

def stackByte (b : Board) (s : UInt8) : UInt8 :=
  match b with
  | nrom b => b.ram.read (stackSlot s)
  | mmc1 b => b.ram.read (stackSlot s)
  | flat b => b.read (stackSlot s)

/-- A write to the address reaches the byte in a stack slot. -/
def Backs (b : Board) (address : UInt16) (s : UInt8) : Prop :=
  match b with
  | nrom _ | mmc1 _ => address.toNat < 0x2000 ∧ address.toNat % workRamSize = (stackSlot s).toNat
  | flat _ => address = stackSlot s

instance (b : Board) (address : UInt16) (s : UInt8) : Decidable (b.Backs address s) :=
  match b with
  | nrom _ | mmc1 _ => inferInstanceAs (Decidable (_ ∧ _))
  | flat _ => inferInstanceAs (Decidable (_ = _))

/-- The bytes above a stack slot, the nearest first. -/
def stackAbove (b : Board) (s : UInt8) (n : Nat) : List UInt8 := (slotsAbove s n).map b.stackByte

theorem stackAbove_add (b : Board) (s : UInt8) (n k : Nat) :
    b.stackAbove s (n + k) = b.stackAbove s k ++ b.stackAbove (s + UInt8.ofNat k) n := by
  rw [stackAbove, slotsAbove_add, List.map_append]
  rfl

theorem length_stackAbove (b : Board) (s : UInt8) (n : Nat) : (b.stackAbove s n).length = n := by
  rw [stackAbove, List.length_map, length_slotsAbove]

/-- The stack can be read on every board. -/
theorem read_stackSlot (b : Board) (s : UInt8) : b.read (stackSlot s) = .ok (b.stackByte s) := by
  cases b with
  | nrom b => simp only [read, Nrom.read, Region.of_stackSlot, stackByte]
  | mmc1 b => simp only [read, Mmc1.read, Region.of_stackSlot, stackByte]
  | flat b => rfl

/-! ## Writes -/

/-- Within the page every slot is backed by a byte of its own. -/
theorem backs_stackSlot (b : Board) (s t : UInt8) : b.Backs (stackSlot s) t ↔ s = t := by
  have hs := s.toNat_lt
  have hsmall : (stackSlot s).toNat < 0x2000 ∧ (stackSlot s).toNat % workRamSize =
      (stackSlot s).toNat := by
    rw [toNat_stackSlot]
    unfold workRamSize
    omega
  cases b with
  | flat b => exact stackSlot_inj
  | nrom b | mmc1 b =>
    unfold Backs
    rw [hsmall.2, UInt16.toNat_inj, stackSlot_inj]
    exact and_iff_right hsmall.1

/-- Which bytes back an address does not change by writes. -/
theorem backs_write (b : Board) (address : UInt16) (v : UInt8) :
    (b.write address v).Backs = b.Backs := by
  cases b <;> rfl

theorem read_write_workRam (ram : WorkRam) (address : UInt16) (v s : UInt8) :
    (ram.write address v).read (stackSlot s) =
      if address.toNat % workRamSize = (stackSlot s).toNat then v else ram.read (stackSlot s) := by
  have hs := s.toNat_lt
  have hsmall : (stackSlot s).toNat % workRamSize = (stackSlot s).toNat := by
    rw [toNat_stackSlot]
    unfold workRamSize
    omega
  rw [WorkRam.read_write, hsmall]

/-- On a cartridge board a write reaches a stack slot through the window of the work RAM only. -/
theorem not_backs_of_region {address : UInt16} (h : Region.of address ≠ .workRam) (s : UInt8) :
    (∀ b, ¬ (nrom b).Backs address s) ∧ ∀ b, ¬ (mmc1 b).Backs address s := by
  have houtside : ¬ address.toNat < 0x2000 := by
    have hregion := Region.of_spec address
    cases hof : Region.of address <;> rw [hof] at hregion h <;> dsimp only at hregion
    case workRam => exact absurd rfl h
    all_goals omega
  exact ⟨fun _ hbacks => houtside hbacks.1, fun _ hbacks => houtside hbacks.1⟩

/-- A write changes the byte in the slot that it reaches, and in no other. -/
theorem stackByte_write (b : Board) (address : UInt16) (v s : UInt8) :
    (b.write address v).stackByte s = if b.Backs address s then v else b.stackByte s := by
  have hregion := Region.of_spec address
  have houtside := fun h : Region.of address ≠ .workRam => not_backs_of_region h s
  cases b with
  | flat b => exact Flat.read_write b address (stackSlot s) v
  | nrom b =>
    simp only [write, Nrom.write]
    cases hof : Region.of address <;> rw [hof] at hregion houtside
    case workRam =>
      refine (read_write_workRam b.ram address v s).trans (if_congr ?_ rfl rfl)
      exact (and_iff_right hregion).symm
    all_goals exact (if_neg ((houtside (by decide)).1 b)).symm
  | mmc1 b =>
    simp only [write, Mmc1.write]
    cases hof : Region.of address <;> rw [hof] at hregion houtside
    case workRam =>
      refine (read_write_workRam b.ram address v s).trans (if_congr ?_ rfl rfl)
      exact (and_iff_right hregion).symm
    case cartRam =>
      rw [if_neg ((houtside (by decide)).2 b)]
      dsimp only
      split <;> rfl
    all_goals exact (if_neg ((houtside (by decide)).2 b)).symm

/-- Writes that reach none of the bytes above a slot leave them alone. -/
theorem stackAbove_write (b : Board) {address : UInt16} {s : UInt8} {n : Nat} (v : UInt8)
    (h : ∀ t ∈ slotsAbove s n, ¬ b.Backs address t) :
    (b.write address v).stackAbove s n = b.stackAbove s n := by
  refine List.map_congr_left fun t ht => ?_
  rw [stackByte_write, if_neg (h t ht)]

/-- A byte that is put into a slot stands in front of the bytes above the slot. -/
theorem stackAbove_push (b : Board) (s v : UInt8) {n : Nat} (h : n < 256) :
    (b.write (stackSlot s) v).stackAbove (s - 1) (n + 1) = v :: b.stackAbove s n := by
  have hrest : (b.write (stackSlot s) v).stackAbove s n = b.stackAbove s n := by
    refine b.stackAbove_write v fun t ht hbacks => ?_
    obtain rfl := (b.backs_stackSlot s t).mp hbacks
    exact not_mem_slotsAbove s h ht
  have hslots : slotsAbove (s - 1) (n + 1) = s :: slotsAbove s n := by
    rw [slotsAbove, UInt8.sub_add_cancel]
  rw [stackAbove, hslots, List.map_cons, ← stackAbove, hrest, stackByte_write,
    if_pos ((b.backs_stackSlot s s).mpr rfl)]

end Board

/-- The transfer writes to the byte in a stack slot. -/
def Transfer.Overwrites (b : Board) (s : UInt8) : Transfer → Prop
  | write address _ => b.Backs address s
  | read .. | execute .. => False

instance (b : Board) (s : UInt8) : DecidablePred (Transfer.Overwrites b s)
  | .write address _ => inferInstanceAs (Decidable (b.Backs address s))
  | .read .. | .execute .. => isFalse id

/-- Bytes on the stack stay there while nothing overwrites them. -/
theorem Board.stackAbove_replay (b : Board) {ts : List Transfer} {s : UInt8} {n : Nat}
    (h : ∀ t ∈ ts, ∀ slot ∈ slotsAbove s n, ¬ t.Overwrites b slot) :
    (b.replay ts).stackAbove s n = b.stackAbove s n := by
  induction ts generalizing b with
  | nil => rfl
  | cons t rest ih =>
    have hfirst := h t List.mem_cons_self
    have hrest := fun u hu => h u (List.mem_cons_of_mem t hu)
    cases t with
    | read address v => exact ih b hrest
    | execute address v => exact ih b hrest
    | write address v =>
      have hkeep : ∀ u ∈ rest, ∀ slot ∈ slotsAbove s n,
          ¬ u.Overwrites (b.write address v) slot := by
        intro u hu slot hslot hover
        refine hrest u hu slot hslot ?_
        cases u with
        | write a w => rwa [Transfer.Overwrites, b.backs_write] at hover
        | read | execute => exact hover
      exact (ih (b.write address v) hkeep).trans (b.stackAbove_write v hfirst)

/-! ## The stack of a processor -/

namespace Core

def stack (c : Core) (n : Nat) : List UInt8 := c.board.stackAbove c.registers.sp n

end Core

namespace Microcode

/-- A pull always succeeds, and takes the byte above the pointer. -/
theorem execute_pull (c : Core) :
    pull.execute c = .ok (c.board.stackByte (c.registers.sp + 1))
      ⟨{ c.registers with sp := c.registers.sp + 1 }, c.board⟩ := by
  have hread := c.board.read_stackSlot (c.registers.sp + 1)
  refine (execute_bind_of_ok rfl).trans ?_
  exact execute_readByte_ok hread

/-- A word is the word of its two bytes. -/
theorem word_bytes (v : UInt16) : word v.toUInt8 (v >>> 8).toUInt8 = v := by
  have hv := v.toNat_lt
  have hhigh : (v >>> 8).toUInt8.toNat = v.toNat / 256 := by
    rw [UInt16.toNat_toUInt8, UInt16.toNat_shiftRight]
    change v.toNat >>> 8 % 2 ^ 8 = _
    rw [Nat.shiftRight_eq_div_pow]
    omega
  rw [← UInt16.toNat_inj, toNat_word, hhigh, UInt16.toNat_toUInt8]
  omega

end Microcode

end Mos6502
