import Mos6502.Proofs.SerialPort

/-!
# The windows of the ROM

The upper half of the address space shows two banks of the image. `BankConfig.selectedBank` reads
off the bank registers which ones, and `windows_show_selected_banks` says that this is what every
address there means, or fails to mean when the image has no such bank. The board adds, multiplies
and subtracts 32-bit words to find an offset; `BankConfig.offset?` is the same computation with each
of these operations checked, and it always goes through.
-/

namespace Mos6502

open SerialPort (Write Delivery scan)

/-- The number of the bank that an address of the ROM window shows, on a board with `n` banks.
Modes 0 and 1 show a pair of banks, mode 2 fixes the first bank low, mode 3 the last bank high. -/
def BankConfig.selectedBank (c : BankConfig) (n address : Nat) : Nat :=
  let bank := c.prgBank.toNat
  if c.prgMode ≤ 1 then if address < 0xC000 then bank &&& 14 else (bank &&& 14) + 1
  else if c.prgMode = 2 then if address < 0xC000 then 0 else bank
  else if address < 0xC000 then bank else n - 1

/-- The offset in the image of the cell that an address shows of a bank. -/
def bankOffset (bank : Nat) (address : UInt16) : Nat := bank * bankSize + address.toNat % bankSize

/-! ## Arithmetic on 32-bit words -/

namespace Word32

/-- A number, if a word can hold it. -/
def ofNat? (a : Nat) : Option Nat := if a < 2 ^ 32 then some a else none

def add? (a b : Nat) : Option Nat := ofNat? (a + b)

def sub? (a b : Nat) : Option Nat := if b ≤ a then some (a - b) else none

def mul? (a b : Nat) : Option Nat := ofNat? (a * b)

theorem ofNat?_eq_some {a : Nat} (h : a < 2 ^ 32) : ofNat? a = some a := if_pos h

theorem add?_eq_some {a b : Nat} (h : a + b < 2 ^ 32) : add? a b = some (a + b) := if_pos h

theorem sub?_eq_some {a b : Nat} (h : b ≤ a) : sub? a b = some (a - b) := if_pos h

theorem mul?_eq_some {a b : Nat} (h : a * b < 2 ^ 32) : mul? a b = some (a * b) := if_pos h

end Word32

/-- The number of the last bank of an image of this size, found without leaving 32-bit words. -/
def lastBank? (size : Nat) : Option Nat := do
  let size ← Word32.ofNat? size
  Word32.sub? (size / bankSize) 1

/-- The offset that the bank registers give an address in an image of this size, found without
leaving 32-bit words. -/
def BankConfig.offset? (c : BankConfig) (size : Nat) (address : UInt16) : Option Nat := do
  let distance ← Word32.sub? address.toNat 0x8000
  let bank := c.prgBank.toNat
  if c.prgMode ≤ 1 then Word32.add? (← Word32.mul? (bank &&& 0x0E) bankSize) distance
  else if c.prgMode = 2 then
    if distance < bankSize then pure distance
    else Word32.add? (← Word32.mul? bank bankSize) (← Word32.sub? distance bankSize)
  else
    if distance < bankSize then Word32.add? (← Word32.mul? bank bankSize) distance
    else
      Word32.add? (← Word32.mul? (← lastBank? size) bankSize) (← Word32.sub? distance bankSize)

namespace Mmc1

/-- The offset of an address, found without leaving 32-bit words. -/
def wordOffset? (b : Mmc1) (address : UInt16) : Option Nat := b.banks.offset? b.prg.size address

/-! ## Offsets -/

/-- The arithmetic of offsets puts the distance into the window behind the selected bank. -/
theorem romOffset_eq (b : Mmc1) {n : Nat} (hsize : b.prg.size = n * bankSize) {address : UInt16}
    (h : 0x8000 ≤ address.toNat) :
    b.romOffset address = bankOffset (b.banks.selectedBank n address.toNat) address := by
  have hlt := address.toNat_lt
  have hlast : b.lastBank = n - 1 := by
    rw [lastBank, hsize, Nat.mul_div_cancel n (by decide)]
  unfold romOffset BankConfig.selectedBank bankOffset
  rw [hlast]
  unfold bankSize
  dsimp only
  split_ifs <;> omega

/-- An offset lies in the image exactly if its bank does. -/
theorem romOffset_lt_iff (b : Mmc1) {n : Nat} (hsize : b.prg.size = n * bankSize)
    {address : UInt16} (h : 0x8000 ≤ address.toNat) :
    b.romOffset address < b.prg.size ↔ b.banks.selectedBank n address.toNat < n := by
  rw [romOffset_eq b hsize h, hsize]
  unfold bankOffset bankSize
  omega

/-- Nothing wraps on the way to an offset, as long as the size of the image is a 32-bit word. -/
theorem wordOffset?_eq (b : Mmc1) (hsize : b.prg.size < 2 ^ 32) {address : UInt16}
    (h : 0x8000 ≤ address.toNat) : b.wordOffset? address = some (b.romOffset address) := by
  have hbank := b.banks.prgBank.toNat_lt
  have hlt := address.toNat_lt
  have hpos := b.size_pos
  have hwhole := b.size_mod
  have heven : b.banks.prgBank.toNat &&& 0x0E < 16 :=
    Nat.and_lt_two_pow _ (by decide : 0x0E < 2 ^ 4)
  have hlast : lastBank? b.prg.size = some b.lastBank := by
    rw [lastBank?, Word32.ofNat?_eq_some hsize]
    exact Word32.sub?_eq_some (by unfold bankSize at hwhole ⊢; omega)
  have hend : b.lastBank * bankSize + bankSize = b.prg.size := by
    unfold lastBank bankSize at *
    omega
  rw [wordOffset?, BankConfig.offset?, Word32.sub?_eq_some h, romOffset]
  simp only [Option.bind_eq_bind, Option.bind_some, hlast]
  split_ifs
  · rw [Word32.mul?_eq_some (by unfold bankSize; omega), Option.bind_some,
      Word32.add?_eq_some (by unfold bankSize; omega)]
  · rfl
  · rw [Word32.mul?_eq_some (by unfold bankSize; omega), Option.bind_some,
      Word32.sub?_eq_some (by omega), Option.bind_some,
      Word32.add?_eq_some (by unfold bankSize; omega)]
  · rw [Word32.mul?_eq_some (by unfold bankSize; omega), Option.bind_some,
      Word32.add?_eq_some (by unfold bankSize; omega)]
  · rw [Word32.mul?_eq_some (by omega), Option.bind_some, Word32.sub?_eq_some (by omega),
      Option.bind_some, Word32.add?_eq_some (by unfold bankSize at hend ⊢; omega)]

/-! ## Reachable boards -/

theorem prg_write (b : Mmc1) (address : UInt16) (v : UInt8) : (b.write address v).prg = b.prg := by
  unfold write
  split
  next => rfl
  next => rfl
  next => split <;> rfl
  next => rfl

theorem prg_foldl_write (writes : List Write) (b : Mmc1) :
    (writes.foldl (fun b w => b.write w.1 w.2) b).prg = b.prg := by
  induction writes generalizing b with
  | nil => rfl
  | cons w rest ih => exact (ih _).trans (prg_write b w.1 w.2)

/-- A board around an image powers on with zeroed RAM. -/
theorem eq_of_ofImage {prg : Array UInt8} {hasRam : Bool} {b : Mmc1}
    (hpower : ofImage prg hasRam = .ok b) :
    b.prg = prg ∧ b.banks = .powerOn hasRam ∧ b.ram = .zeros ∧ b.cartRam = .zeros := by
  unfold ofImage at hpower
  split at hpower
  next => cases hpower; exact ⟨rfl, rfl, rfl, rfl⟩
  next => cases hpower

/-- The bank registers of a board that was powered on and written to. -/
theorem banks_of_writes {prg : Array UInt8} {hasRam : Bool} {b : Mmc1}
    (hpower : ofImage prg hasRam = .ok b) (writes : List Write) :
    (writes.foldl (fun b w => b.write w.1 w.2) b).banks = (scan writes).banks hasRam := by
  refine (SerialPort.banks_foldl hasRam writes b {} ⟨Nat.zero_le _, by simp⟩ ?_).2
  rw [(eq_of_ofImage hpower).2.1, SerialPort.powerOn_eq_banks]

end Mmc1

/-! ## What the windows mean -/

theorem Region.of_eq_cartRom {address : UInt16} (h : 0x8000 ≤ address.toNat) :
    Region.of address = .cartRom := by
  simp only [Region.of, UInt16.lt_iff_toNat_lt, UInt16.reduceToNat]
  split_ifs <;> first | omega | rfl

namespace Mmc1

/-- An address of the ROM window means its place in bank `bank` of `n`. If there is no such bank,
reading and locating fail alike. -/
structure ShowsBank (b : Mmc1) (n bank : Nat) (address : UInt16) : Prop where
  present : bank < n → ∃ h : bankOffset bank address < b.prg.size,
    b.locate address = .ok ⟨bankOffset bank address, true⟩ ∧
      b.read address = .ok b.prg[bankOffset bank address]
  absent : n ≤ bank →
    b.locate address =
        .error (.offsetOutOfRange address (bankOffset bank address) b.prg.size b.banks) ∧
      b.read address =
        .error (.offsetOutOfRange address (bankOffset bank address) b.prg.size b.banks)

/-- In the ROM window a read finds a byte of the image, or fails where the offset is past its end.
-/
theorem read_of_rom (b : Mmc1) {address : UInt16} (h : 0x8000 ≤ address.toNat) :
    b.read address =
      if h : b.romOffset address < b.prg.size then .ok b.prg[b.romOffset address]
      else .error (b.outOfRange address) := by
  simp only [read, Region.of_eq_cartRom h]

/-- In the ROM window an address is located under the same condition as it is read. -/
theorem locate_of_rom (b : Mmc1) {address : UInt16} (h : 0x8000 ≤ address.toNat) :
    b.locate address =
      if b.romOffset address < b.prg.size then .ok ⟨b.romOffset address, true⟩
      else .error (b.outOfRange address) := by
  have hnot : ¬ address < 0x8000 := by
    rw [UInt16.lt_iff_toNat_lt]
    exact Nat.not_lt.mpr h
  rw [locate, if_neg hnot]

/-- Every address of the ROM window shows the bank that is selected for it. -/
theorem showsBank (b : Mmc1) {n : Nat} (hsize : b.prg.size = n * bankSize) {address : UInt16}
    (h : 0x8000 ≤ address.toNat) :
    b.ShowsBank n (b.banks.selectedBank n address.toNat) address := by
  have hoffset := romOffset_eq b hsize h
  have hlt := romOffset_lt_iff b hsize h
  constructor
  · intro hbank
    have hinside := hlt.mpr hbank
    rw [read_of_rom b h, locate_of_rom b h, if_pos hinside, dif_pos hinside]
    simp only [← hoffset]
    exact ⟨hinside, trivial, trivial⟩
  · intro hbank
    have houtside := mt hlt.mp (Nat.not_lt.mpr hbank)
    rw [read_of_rom b h, locate_of_rom b h, if_neg houtside, dif_neg houtside, outOfRange, hoffset]
    exact ⟨rfl, rfl⟩

end Mmc1

/-- The selected bank exists if a fixed window is asked for, or if there are as many banks as four
bits can name. -/
theorem BankConfig.selectedBank_lt (c : BankConfig) (hbank : c.prgBank.toNat < 16) {n : Nat}
    (hn : 1 ≤ n) (address : Nat) :
    (c.prgMode = 2 → address < 0xC000 → c.selectedBank n address < n) ∧
    (c.prgMode = 3 → 0xC000 ≤ address → c.selectedBank n address < n) ∧
    (16 ≤ n → c.selectedBank n address < n) := by
  have heven : c.prgBank.toNat &&& 14 ≤ 14 := Nat.and_le_right
  unfold selectedBank
  refine ⟨?_, ?_, ?_⟩
  · intro hmode haddress
    simp [hmode, haddress]
    omega
  · intro hmode haddress
    simp [hmode, Nat.not_lt.mpr haddress]
    omega
  · intro hmany
    dsimp only
    split_ifs <;> omega

/-- Every address of the ROM window shows the bank that the registers select, on every image of
whole banks and after every sequence of writes; where that bank does not exist, reads fail with the
offset that they would have gone to. The fixed windows and images of 16 banks never fail, and no
32-bit operation on the way wraps. -/
theorem windows_show_selected_banks (n : Nat) (hn : 1 ≤ n) (prg : Array UInt8)
    (hsize : prg.size = n * bankSize) (hword : prg.size < 2 ^ 32) (hasRam : Bool) :
    ∃ b₀, Mmc1.ofImage prg hasRam = .ok b₀ ∧
      ∀ (writes : List Write) (address : UInt16), 0x8000 ≤ address.toNat →
        let b := writes.foldl (fun b w => b.write w.1 w.2) b₀
        let bank := b.banks.selectedBank n address.toNat
        b.prg = prg ∧ b.banks.prgMode ≤ 3 ∧ b.ShowsBank n bank address ∧
          (b.banks.prgMode = 2 → address.toNat < 0xC000 → bank < n) ∧
          (b.banks.prgMode = 3 → 0xC000 ≤ address.toNat → bank < n) ∧
          (16 ≤ n → bank < n) ∧
          b.wordOffset? address = some (bankOffset bank address) := by
  obtain ⟨b₀, hpower⟩ : ∃ b₀, Mmc1.ofImage prg hasRam = .ok b₀ :=
    ⟨_, dif_pos ⟨by rw [hsize]; unfold bankSize; omega, by rw [hsize]; exact Nat.mul_mod_left n _⟩⟩
  refine ⟨b₀, hpower, fun writes address haddress => ?_⟩
  have hprg := (Mmc1.prg_foldl_write writes b₀).trans (Mmc1.eq_of_ofImage hpower).1
  have hbanks := Mmc1.banks_of_writes hpower writes
  have hbank := (scan writes).prgBank_banks_lt hasRam
  have hmode := (scan writes).prgMode_banks_le hasRam
  generalize writes.foldl (fun b w => b.write w.1 w.2) b₀ = b at hprg hbanks ⊢
  rw [← hbanks] at hbank hmode
  rw [← hprg] at hsize hword
  obtain ⟨hlow, hhigh, hmany⟩ := b.banks.selectedBank_lt hbank hn address.toNat
  refine ⟨hprg, hmode, b.showsBank hsize haddress, hlow, hhigh, hmany, ?_⟩
  rw [b.wordOffset?_eq hword haddress, b.romOffset_eq hsize haddress]

/-- With bank 5 selected on a board of three banks, the switched window fails and the fixed one
shows the last bank. -/
theorem windows_of_three_banks :
    ∃ b₀, Mmc1.ofImage (Array.replicate 0xC000 0) false = .ok b₀ ∧
      let b := [(0xE000, 1), (0xE000, 0), (0xE000, 1), (0xE000, 0), (0xE000, 0)].foldl
        (fun b (w : Write) => b.write w.1 w.2) b₀
      b.read 0x8123 = .error (.offsetOutOfRange 0x8123 0x14123 0xC000
          { BankConfig.powerOn false with prgBank := 5 }) ∧
        b.locate 0xC123 = .ok ⟨0x8123, true⟩ ∧
        b.wordOffset? 0x8123 = some 0x14123 := by
  have hsize : (Array.replicate 0xC000 (0 : UInt8)).size = 3 * bankSize := Array.size_replicate
  obtain ⟨b₀, hpower, hwindows⟩ := windows_show_selected_banks 3 (by decide) _ hsize
    (by rw [hsize]; decide) false
  refine ⟨b₀, hpower, ?_⟩
  have hbanks := Mmc1.banks_of_writes hpower
    [(0xE000, 1), (0xE000, 0), (0xE000, 1), (0xE000, 0), (0xE000, 0)]
  obtain ⟨hprg, -, hlow, -, -, -, hword⟩ := hwindows _ 0x8123 (by decide)
  obtain ⟨-, -, hhigh, -⟩ := hwindows _ 0xC123 (by decide)
  dsimp only at hbanks hprg hlow hhigh hword ⊢
  rw [hbanks] at hlow hhigh hword
  refine ⟨?_, ?_, ?_⟩
  · refine (hlow.absent (by decide)).2.trans ?_
    rw [hprg, hsize, hbanks]
    decide
  · obtain ⟨-, hlocate, -⟩ := hhigh.present (by decide)
    exact hlocate.trans (by decide)
  · exact hword.trans (by decide)

end Mos6502
