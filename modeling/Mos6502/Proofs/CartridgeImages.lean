import Mos6502.Cartridge
import Mos6502.Machine.Basic
import Mos6502.Proofs.AddressSpace
import Mos6502.Proofs.Addressing

/-!
# Cartridge images by position

The loader reads the header into fields and cuts the program ROM out of the image.
`load_by_position` says what comes of it in terms of the bytes of the image alone: which images are
refused and with what error, which byte of the image every address of the board shows, and which
bytes make no difference. A machine can be put around every board that is loaded.
-/

namespace Mos6502

namespace CartridgeImage

/-- The byte at a position, zero behind the end. -/
def byteAt (data : Array UInt8) (n : Nat) : UInt8 := data[n]?.getD 0

/-- The image begins with the letters NES and the character that ends a file. -/
def HasMagic (data : Array UInt8) : Prop :=
  byteAt data 0 = 0x4E ∧ byteAt data 1 = 0x45 ∧ byteAt data 2 = 0x53 ∧ byteAt data 3 = 0x1A

instance (data : Array UInt8) : Decidable (HasMagic data) := inferInstanceAs (Decidable (_ ∧ _))

def mapperId (data : Array UInt8) : UInt8 :=
  (byteAt data 7 &&& (0xF0 : UInt8)) ||| (byteAt data 6 >>> (4 : UInt8))

def romSize (data : Array UInt8) : Nat := (byteAt data 4).toNat * 16384

/-- The ROM begins behind the header, or behind the trainer if bit 2 of the flags announces one. -/
def romStart (data : Array UInt8) : Nat := if (byteAt data 6).toNat.testBit 2 then 528 else 16

def romEnd (data : Array UInt8) : Nat := romStart data + romSize data

def rom (data : Array UInt8) : Array UInt8 := data.extract (romStart data) (romEnd data)

/-- The ROM has a size that no board of the kind takes. -/
def MisfitRom (data : Array UInt8) : Prop :=
  mapperId data = 0 ∧ romSize data ≠ 16384 ∧ romSize data ≠ 32768 ∨
    mapperId data = 1 ∧ romSize data = 0

instance (data : Array UInt8) : Decidable (MisfitRom data) :=
  inferInstanceAs (Decidable (_ ∨ _))

/-- The reason to refuse an image, the first one that applies. -/
def refusal? (data : Array UInt8) : Option CartridgeError :=
  if data.size < 16 then some (.tooShort data.size)
  else if ¬ HasMagic data then some .badMagic
  else if data.size < romEnd data then some (.truncated (romEnd data) data.size)
  else if 1 < mapperId data then some (.unsupportedMapper (mapperId data))
  else if MisfitRom data then some (.board (.romSize (romSize data)))
  else none

/-- The position of the byte that an address of the ROM window shows at power-on. Board 0 repeats
its ROM; board 1 shows the first bank low and the last bank high. -/
def position (data : Array UInt8) (address : UInt16) : Nat :=
  let distance := address.toNat - 0x8000
  if mapperId data = 0 then romStart data + distance % romSize data
  else if distance < 16384 then romStart data + distance
  else romEnd data - 16384 + (distance - 16384)

/-- The board that an image describes, as it powers on. -/
structure Describes (data : Array UInt8) (b : Board) : Prop where
  /-- The image names the kind of board. All RAM is zero, and there is cartridge RAM. -/
  snapshot : b.snapshot =
    if mapperId data = 0 then .nrom (Array.replicate 0x800 0) (some (Array.replicate 0x2000 0))
    else .mmc1 (.powerOn true) (Array.replicate 0x800 0) (Array.replicate 0x2000 0)
  zero : ∀ address, address.toNat < 0x8000 → b.read address = .ok 0
  keeps : ∀ address v, 0x6000 ≤ address.toNat → address.toNat < 0x8000 →
    (b.write address v).read address = .ok v
  rom : b.store? 0x8000 = some (rom data)
  shows : ∀ address, 0x8000 ≤ address.toNat →
    romStart data ≤ position data address ∧ position data address < romEnd data ∧
      b.read address = .ok (byteAt data (position data address))

/-- The positions that the loader looks at. -/
def Counts (data : Array UInt8) (n : Nat) : Prop :=
  n < 5 ∨ n = 6 ∨ n = 7 ∨ romStart data ≤ n ∧ n < romEnd data

/-- Two images differ at most in their lengths and in bytes that the loader does not look at, and
each is complete if the other one is. -/
structure Agree (data data' : Array UInt8) : Prop where
  header : data'.size < 16 ↔ data.size < 16
  complete : data'.size < romEnd data ↔ data.size < romEnd data
  byteAt : ∀ n, Counts data n → n < data.size → n < data'.size → byteAt data' n = byteAt data n

end CartridgeImage

/-- The same error for an image of another length. -/
def CartridgeError.atLength (length : Nat) : CartridgeError → CartridgeError
  | tooShort _ => tooShort length
  | truncated needed _ => truncated needed length
  | e => e

/-! ## Fresh boards -/

theorem WorkRam.read_zeros (address : UInt16) : zeros.read address = 0 := by simp [read, zeros]

theorem CartRam.read_zeros (address : UInt16) : zeros.read address = 0 := by simp [read, zeros]

theorem CartRam.read_write_self (ram : CartRam) (address : UInt16) (v : UInt8) :
    (ram.write address v).read address = v := by
  simp [read, write]

/-- The cartridge RAM lies between the two bounds, at the addresses from `$6000` to `$7FFF`. -/
theorem Region.of_eq_cartRam {address : UInt16} (hlow : 0x6000 ≤ address.toNat)
    (hhigh : address.toNat < 0x8000) : Region.of address = .cartRam := by
  simp only [Region.of, UInt16.lt_iff_toNat_lt, UInt16.reduceToNat]
  split_ifs <;> first | omega | rfl

/-- Below the ROM window there is nothing but RAM and the open bus. -/
theorem Region.of_ne_cartRom {address : UInt16} (h : address.toNat < 0x8000) :
    Region.of address ≠ .cartRom := by
  intro hof
  have hregion := Region.of_spec address
  rw [hof] at hregion
  exact Nat.not_lt.mpr hregion h

namespace Nrom

variable {prg : Array UInt8} {hasRam : Bool} {b : Nrom}

/-- A fresh board has the image it was given, and memory full of zeros. -/
theorem eq_of_ofImage (h : ofImage prg hasRam = .ok b) :
    b.prg = prg ∧ b.ram = .zeros ∧ b.cartRam = if hasRam then some .zeros else none := by
  unfold ofImage at h
  split at h
  next => cases h; exact ⟨rfl, rfl, rfl⟩
  next => cases h

/-- Below the ROM window a fresh board reads zeros, whether there is memory or not. -/
theorem read_ram_of_ofImage (h : ofImage prg hasRam = .ok b) {address : UInt16}
    (haddress : address.toNat < 0x8000) : b.read address = 0 := by
  obtain ⟨-, hram, hcartRam⟩ := eq_of_ofImage h
  have hnot := Region.of_ne_cartRom haddress
  cases hof : Region.of address with
  | workRam => simp only [read, hof, hram, WorkRam.read_zeros]
  | openBus => simp only [read, hof, openBus]
  | cartRam => cases hasRam <;> simp [read, hof, hcartRam, CartRam.read_zeros, openBus]
  | cartRom => exact absurd hof hnot

theorem read_write_cartRam {ram : CartRam} (hram : b.cartRam = some ram) {address : UInt16}
    (hof : Region.of address = .cartRam) (v : UInt8) : (b.write address v).read address = v := by
  simp [read, write, hof, hram, CartRam.read_write_self]

/-- The image repeats in the ROM window: a multiple of its size lies in front of the window. -/
theorem read_rom (b : Nrom) {address : UInt16} {distance : Nat}
    (h : address.toNat = 0x8000 + distance) :
    ∃ hlt : distance % b.prg.size < b.prg.size, b.read address = b.prg[distance % b.prg.size] := by
  have hindex : address.toNat % b.prg.size = distance % b.prg.size := by
    rw [h]
    rcases b.size_prg with hsize | hsize <;> rw [hsize] <;> omega
  refine ⟨Nat.mod_lt _ (by rcases b.size_prg with hsize | hsize <;> omega), ?_⟩
  rw [read, Region.of_eq_cartRom (h ▸ Nat.le_add_right _ _)]
  simp only [romIndex, Fin.getElem_fin, hindex]

end Nrom

namespace Mmc1

variable {prg : Array UInt8} {hasRam : Bool} {b : Mmc1}

/-- Below the ROM window a fresh board reads zeros: its cartridge RAM is enabled. -/
theorem read_ram_of_ofImage (h : ofImage prg hasRam = .ok b) {address : UInt16}
    (haddress : address.toNat < 0x8000) : b.read address = .ok 0 := by
  obtain ⟨-, -, hram, hcartRam⟩ := eq_of_ofImage h
  have hnot := Region.of_ne_cartRom haddress
  cases hof : Region.of address with
  | workRam => simp only [read, hof, hram, WorkRam.read_zeros]
  | openBus => simp only [read, hof, openBus]
  | cartRam => simp only [read, hof, hcartRam, CartRam.read_zeros, openBus, ite_self]
  | cartRom => exact absurd hof hnot

theorem read_write_cartRam (henabled : b.banks.hasRam = true) {address : UInt16}
    (hof : Region.of address = .cartRam) (v : UInt8) :
    (b.write address v).read address = .ok v := by
  simp [read, write, hof, henabled, CartRam.read_write_self]

/-- The offset that an address of the ROM window has at power-on: the first bank is low, the last
one high. -/
def freshOffset (size : Nat) (address : UInt16) : Nat :=
  let distance := address.toNat - 0x8000
  if distance < bankSize then distance else size - bankSize + (distance - bankSize)

/-- A fresh board shows its first and its last bank, and no address lies past the image. -/
theorem read_rom_of_ofImage (h : ofImage prg hasRam = .ok b) {address : UInt16}
    (haddress : 0x8000 ≤ address.toNat) :
    ∃ hlt : freshOffset prg.size address < prg.size,
      b.read address = .ok prg[freshOffset prg.size address] := by
  obtain ⟨rfl, hbanks, -, -⟩ := eq_of_ofImage h
  have hwhole : b.lastBank * bankSize = b.prg.size - bankSize ∧ bankSize ≤ b.prg.size := by
    have hmod := b.size_mod
    have hpos := b.size_pos
    unfold lastBank bankSize at *
    omega
  have hoffset : b.romOffset address = freshOffset b.prg.size address := by
    simp [romOffset, freshOffset, hbanks, BankConfig.powerOn, hwhole.1]
  have hlt : b.romOffset address < b.prg.size := by
    have hword := address.toNat_lt
    have hsize := hwhole.2
    rw [hoffset, freshOffset]
    unfold bankSize at *
    split <;> omega
  rw [read_of_rom b haddress, dif_pos hlt]
  simp only [← hoffset]
  exact ⟨hlt, trivial⟩

end Mmc1

/-! ## Reading an image -/

namespace CartridgeImage

variable {data data' : Array UInt8}

theorem getElem_eq_byteAt {n : Nat} (h : n < data.size) : data[n] = byteAt data n := by
  rw [byteAt, Array.getElem?_eq_getElem h, Option.getD_some]

/-- The header of a long enough image. -/
def header (data : Array UInt8) : Cartridge.Header :=
  .ofFlags (byteAt data 4) (byteAt data 6) (byteAt data 7)

theorem prgStart_header (data : Array UInt8) : (header data).prgStart = romStart data := by
  have hbit : ∀ v : UInt8, (v &&& 0x04 != 0) = v.toNat.testBit 2 :=
    Byte.forall_of_values (by decide +kernel)
  simp only [Cartridge.Header.prgStart, header, Cartridge.Header.ofFlags, hbit, romStart]
  split <;> rfl

/-- A header that is long enough is refused only for the magic number. -/
theorem ofBytes_header (h : 16 ≤ data.size) :
    Cartridge.Header.ofBytes data =
      if HasMagic data then .ok (header data) else .error .badMagic := by
  have hlong : ¬ data.size < Cartridge.headerSize := Nat.not_lt.mpr h
  rw [Cartridge.Header.ofBytes, dif_neg hlong]
  simp only [getElem_eq_byteAt, header]
  rfl

/-- The decisions of loading, in their order. -/
theorem load_eq (data : Array UInt8) :
    Cartridge.load data =
      if data.size < 16 then .error (.tooShort data.size)
      else if ¬ HasMagic data then .error .badMagic
      else if data.size < romEnd data then .error (.truncated (romEnd data) data.size)
      else Cartridge.board ⟨header data, rom data⟩ := by
  have hneeded : (header data).prgStart + (header data).prgSize = romEnd data := by
    rw [prgStart_header]
    rfl
  unfold Cartridge.load Cartridge.ofBytes
  by_cases hshort : data.size < 16
  · have hheader : Cartridge.Header.ofBytes data = .error (.tooShort data.size) := dif_pos hshort
    rw [if_pos hshort, hheader]
    rfl
  rw [if_neg hshort, ofBytes_header (Nat.le_of_not_lt hshort)]
  by_cases hmagic : HasMagic data
  · rw [if_pos hmagic, if_neg (not_not_intro hmagic)]
    simp only [Bind.bind, Except.bind, hneeded]
    by_cases htruncated : data.size < romEnd data
    · simp only [if_pos htruncated]
    · simp only [if_neg htruncated, prgStart_header, rom]
  · rw [if_neg hmagic, if_pos hmagic]
    rfl

/-! ## The board of an image -/

theorem size_rom (h : romEnd data ≤ data.size) : (rom data).size = romSize data := by
  rw [rom, Array.size_extract, Nat.min_eq_left h, romEnd, Nat.add_sub_cancel_left]

/-- The image is a slice of the file. -/
theorem getElem_rom {n : Nat} (hn : n < (rom data).size) :
    (rom data)[n] = byteAt data (romStart data + n) := by
  rw [rom] at hn
  simp only [rom, Array.getElem_extract]
  exact getElem_eq_byteAt _

/-- A board shows a byte of the ROM, if the position of an address is the place of the byte. -/
theorem shows_of_place (hend : romEnd data ≤ data.size) {b : Board} {address : UInt16} {n : Nat}
    (hn : n < (rom data).size) (hposition : position data address = romStart data + n)
    (hread : b.read address = .ok (rom data)[n]) :
    romStart data ≤ position data address ∧ position data address < romEnd data ∧
      b.read address = .ok (byteAt data (position data address)) := by
  rw [hposition, ← getElem_rom hn]
  refine ⟨Nat.le_add_right _ _, ?_, hread⟩
  rw [size_rom hend] at hn
  exact Nat.add_lt_add_left hn _

theorem romSize_mod (data : Array UInt8) : romSize data % bankSize = 0 := Nat.mul_mod_left _ _

theorem describes_nrom (hend : romEnd data ≤ data.size) (hid : mapperId data = 0) {b : Nrom}
    (h : Nrom.ofImage (rom data) true = .ok b) : Describes data (.nrom b) := by
  obtain ⟨hprg, hram, hcartRam⟩ := Nrom.eq_of_ofImage h
  have hsize : b.prg.size = romSize data := by rw [hprg, size_rom hend]
  refine ⟨?_, fun address haddress => ?_, fun address v hlow hhigh => ?_, ?_,
    fun address haddress => ?_⟩
  · rw [if_pos hid, Board.snapshot, hram, hcartRam]
    rfl
  · exact congrArg Except.ok (Nrom.read_ram_of_ofImage h haddress)
  · exact congrArg Except.ok
      (Nrom.read_write_cartRam hcartRam (Region.of_eq_cartRam hlow hhigh) v)
  · exact congrArg some hprg
  · obtain ⟨hlt, hread⟩ := b.read_rom (Nat.add_sub_of_le haddress).symm
    refine shows_of_place hend (n := (address.toNat - 0x8000) % b.prg.size) (hprg ▸ hlt) ?_ ?_
    · rw [hsize]
      exact if_pos hid
    · simp only [← hprg]
      exact congrArg Except.ok hread

theorem describes_mmc1 (hend : romEnd data ≤ data.size) (hid : mapperId data ≠ 0) {b : Mmc1}
    (h : Mmc1.ofImage (rom data) true = .ok b) : Describes data (.mmc1 b) := by
  obtain ⟨hprg, hbanks, hram, hcartRam⟩ := Mmc1.eq_of_ofImage h
  have hsize := size_rom hend
  refine ⟨?_, fun address haddress => Mmc1.read_ram_of_ofImage h haddress,
    fun address v hlow hhigh => ?_, congrArg some hprg, fun address haddress => ?_⟩
  · rw [if_neg hid, Board.snapshot, hbanks, hram, hcartRam]
    rfl
  · exact Mmc1.read_write_cartRam (by rw [hbanks]; rfl) (Region.of_eq_cartRam hlow hhigh) v
  · obtain ⟨hlt, hread⟩ := Mmc1.read_rom_of_ofImage h haddress
    have hbank : bankSize ≤ romSize data := by
      have hpos := b.size_pos
      rw [hprg, hsize] at hpos
      exact Nat.le_of_dvd hpos (Nat.dvd_of_mod_eq_zero (romSize_mod data))
    refine shows_of_place hend hlt ?_ hread
    rw [hsize, position, if_neg hid, Mmc1.freshOffset, romEnd]
    unfold bankSize at *
    split <;> omega

theorem board_of_unsupported (hid : 1 < mapperId data) (prg : Array UInt8) :
    Cartridge.board ⟨header data, prg⟩ = .error (.unsupportedMapper (mapperId data)) := by
  have h0 : mapperId data ≠ 0 := fun h => absurd (h ▸ hid) (by decide)
  have h1 : mapperId data ≠ 1 := fun h => absurd (h ▸ hid) (by decide)
  exact (if_neg h0).trans (if_neg h1)

/-- An image that its board cannot show is refused with its size. -/
theorem board_of_misfit (hend : romEnd data ≤ data.size) (h : MisfitRom data) :
    Cartridge.board ⟨header data, rom data⟩ = .error (.board (.romSize (romSize data))) := by
  have hsize := size_rom hend
  rcases h with ⟨hid, hsmall, hlarge⟩ | ⟨hid, hempty⟩
  · have himage : Nrom.ofImage (rom data) true = .error (.romSize (rom data).size) :=
      dif_neg (by rw [hsize]; exact not_or.mpr ⟨hsmall, hlarge⟩)
    refine (if_pos hid).trans ?_
    rw [himage, hsize]
    rfl
  · have himage : Mmc1.ofImage (rom data) true = .error (.romSize (rom data).size) :=
      dif_neg (by rw [hsize, hempty]; exact fun h => Nat.lt_irrefl 0 h.1)
    refine (if_neg fun h => ?_).trans ((if_pos hid).trans ?_)
    · rw [show (header data).mapperId = mapperId data from rfl, hid] at h
      cases h
    · rw [himage, hsize]
      rfl

/-- Nothing else stands between a header that was accepted and its board. -/
theorem exists_board_of_fits (hend : romEnd data ≤ data.size) (hid : ¬ 1 < mapperId data)
    (hfits : ¬ MisfitRom data) :
    ∃ b, Cartridge.board ⟨header data, rom data⟩ = .ok b ∧ Describes data b := by
  have hsize := size_rom hend
  by_cases h0 : mapperId data = 0
  · have hok : (rom data).size = 0x4000 ∨ (rom data).size = 0x8000 := by
      by_contra hother
      rw [hsize] at hother
      exact hfits (.inl ⟨h0, not_or.mp hother⟩)
    obtain ⟨b, himage⟩ : ∃ b, Nrom.ofImage (rom data) true = .ok b := ⟨_, dif_pos hok⟩
    refine ⟨.nrom b, (if_pos h0).trans ?_, describes_nrom hend h0 himage⟩
    rw [himage]
    rfl
  · have h1 : mapperId data = 1 := by
      simp only [UInt8.lt_iff_toNat_lt, ← UInt8.toNat_inj, UInt8.reduceToNat] at hid h0 ⊢
      omega
    have hok : 0 < (rom data).size ∧ (rom data).size % bankSize = 0 := by
      rw [hsize]
      exact ⟨Nat.pos_of_ne_zero fun hempty => hfits (.inr ⟨h1, hempty⟩), romSize_mod data⟩
    obtain ⟨b, himage⟩ : ∃ b, Mmc1.ofImage (rom data) true = .ok b := ⟨_, dif_pos hok⟩
    refine ⟨.mmc1 b, (if_neg h0).trans ((if_pos h1).trans ?_), describes_mmc1 hend h0 himage⟩
    rw [himage]
    rfl

/-- Every image is refused with the first reason that applies, or gives the board it describes. -/
theorem load_cases (data : Array UInt8) :
    (∃ e, refusal? data = some e ∧ Cartridge.load data = .error e) ∨
      refusal? data = none ∧ ∃ b, Cartridge.load data = .ok b ∧ Describes data b := by
  rw [load_eq, refusal?]
  by_cases hshort : data.size < 16
  · exact .inl ⟨_, if_pos hshort, if_pos hshort⟩
  rw [if_neg hshort, if_neg hshort]
  by_cases hmagic : ¬ HasMagic data
  · exact .inl ⟨_, if_pos hmagic, if_pos hmagic⟩
  rw [if_neg hmagic, if_neg hmagic]
  by_cases htruncated : data.size < romEnd data
  · exact .inl ⟨_, if_pos htruncated, if_pos htruncated⟩
  rw [if_neg htruncated, if_neg htruncated]
  have hend := Nat.le_of_not_lt htruncated
  by_cases hid : 1 < mapperId data
  · exact .inl ⟨_, if_pos hid, board_of_unsupported hid _⟩
  rw [if_neg hid]
  by_cases hmisfit : MisfitRom data
  · exact .inl ⟨_, if_pos hmisfit, board_of_misfit hend hmisfit⟩
  · exact .inr ⟨if_neg hmisfit, exists_board_of_fits hend hid hmisfit⟩

/-! ## What does not count -/

/-- The errors of a board do not speak of the length of the image. -/
theorem mapError_board (length : Nat) (cartridge : Cartridge) :
    cartridge.board.mapError (·.atLength length) = cartridge.board := by
  unfold Cartridge.board
  split
  · cases Nrom.ofImage cartridge.prg true <;> rfl
  · split
    · cases Mmc1.ofImage cartridge.prg true <;> rfl
    · rfl

/-- Images that agree are read alike. -/
theorem load_of_agree (h : Agree data data') :
    Cartridge.load data' = (Cartridge.load data).mapError (·.atLength data'.size) := by
  rw [load_eq data, load_eq data']
  by_cases hshort : data.size < 16
  · rw [if_pos hshort, if_pos (h.header.mpr hshort)]
    rfl
  have hshort' := mt h.header.mp hshort
  -- Byte 5 counts banks of the other ROM, and nobody looks at it.
  have hbyte : ∀ n, n < 5 ∨ n = 6 ∨ n = 7 → byteAt data' n = byteAt data n := by
    intro n hn
    refine h.byteAt n ?_ (by omega) (by omega)
    rcases hn with hn | hn | hn
    exacts [.inl hn, .inr (.inl hn), .inr (.inr (.inl hn))]
  have hmagic : HasMagic data' ↔ HasMagic data := by
    simp only [HasMagic, hbyte 0 (by decide), hbyte 1 (by decide), hbyte 2 (by decide),
      hbyte 3 (by decide)]
  have hheader : header data' = header data := by
    rw [header, header, hbyte 4 (by decide), hbyte 6 (by decide), hbyte 7 (by decide)]
  have hstart : romStart data' = romStart data := by
    rw [← prgStart_header, hheader, prgStart_header]
  have hromEnd : romEnd data' = romEnd data := by
    rw [romEnd, romEnd, hstart, romSize, romSize, hbyte 4 (by decide)]
  rw [if_neg hshort, if_neg hshort', hromEnd, hheader]
  simp only [hmagic, h.complete]
  split
  next => rfl
  split
  next => rfl
  next hcomplete =>
    have hend := Nat.le_of_not_lt hcomplete
    have hend' := Nat.le_of_not_lt (mt h.complete.mp hcomplete)
    have hsize : (rom data').size = romSize data' := size_rom (hromEnd ▸ hend')
    have hrom : rom data' = rom data := by
      refine Array.ext (by rw [hsize, size_rom hend, romSize, romSize, hbyte 4 (by decide)]) ?_
      intro n hn' hn
      have hinside : romStart data + n < romEnd data := by
        rw [size_rom hend] at hn
        exact Nat.add_lt_add_left hn _
      rw [getElem_rom, getElem_rom, hstart]
      exact h.byteAt _ (.inr (.inr (.inr ⟨Nat.le_add_right _ _, hinside⟩)))
        (Nat.lt_of_lt_of_le hinside hend) (Nat.lt_of_lt_of_le hinside hend')
    rw [hrom, mapError_board]

/-! ## Machines around boards -/

/-- A board that was loaded can be read all over the ROM window, the vectors included. -/
theorem Describes.exists_read {b : Board} (h : Describes data b) {address : UInt16}
    (haddress : 0x8000 ≤ address.toNat) : ∃ v, b.read address = .ok v :=
  ⟨_, (h.shows address haddress).2.2⟩

theorem exists_read_of_load {b : Board} (h : Cartridge.load data = .ok b) {address : UInt16}
    (haddress : 0x8000 ≤ address.toNat) : ∃ v, b.read address = .ok v := by
  obtain ⟨e, -, hload⟩ | ⟨-, b', hload, hdescribes⟩ := load_cases data
  · cases h.symm.trans hload
  · cases h.symm.trans hload
    exact hdescribes.exists_read haddress

end CartridgeImage

theorem Core.exists_peekWord {c : Core} {address : UInt16} {low high : UInt8}
    (hlow : c.board.read address = .ok low) (hhigh : c.board.read (address + 1) = .ok high) :
    ∃ v, c.peekWord address = .ok v := by
  rw [Core.peekWord, Microcode.peek, Microcode.execute_readWord_ok hlow hhigh]
  exact ⟨_, rfl⟩

/-- A machine can be put around every board whose ROM window can be read. -/
theorem Machine.exists_powerOn {b : Board}
    (hread : ∀ address : UInt16, 0x8000 ≤ address.toNat → ∃ v, b.read address = .ok v)
    (config : Config) : ∃ m, Machine.powerOn b config = .ok m ∧ m.board = b := by
  obtain ⟨low, hlow⟩ := hread Interrupt.reset.vector (by decide)
  obtain ⟨high, hhigh⟩ := hread (Interrupt.reset.vector + 1) (by decide)
  obtain ⟨pc, hpc⟩ := Core.exists_peekWord (c := ⟨.powerOn, b⟩) hlow hhigh
  rw [Machine.powerOn, hpc]
  exact ⟨_, rfl, rfl⟩

namespace CartridgeImage

/-- What comes of an image, by the positions of its bytes. It is refused with the first reason that
applies; otherwise the board is the one it describes, and a machine can be put around it. Images
that agree at the positions that count have the same board or the same error, up to their length. -/
theorem load_by_position (data : Array UInt8) :
    (∀ e, Cartridge.load data = .error e ↔ refusal? data = some e) ∧
      (refusal? data = none → ∃ b, Cartridge.load data = .ok b ∧ Describes data b ∧
        ∀ config, ∃ m, Machine.powerOn b config = .ok m ∧ m.board = b) ∧
      ∀ data', Agree data data' →
        Cartridge.load data' = (Cartridge.load data).mapError (·.atLength data'.size) := by
  refine ⟨fun e => ?_, fun haccepted => ?_, fun data' h => load_of_agree h⟩
  · obtain ⟨e', hrefusal, hload⟩ | ⟨haccepted, b, hload, -⟩ := load_cases data
    · simp [hrefusal, hload]
    · simp [haccepted, hload]
  · obtain ⟨e, hrefusal, -⟩ | ⟨-, b, hload, hdescribes⟩ := load_cases data
    · cases haccepted.symm.trans hrefusal
    · exact ⟨b, hload, hdescribes, Machine.exists_powerOn fun _ h => hdescribes.exists_read h⟩

/-- An image of one bank of opcodes $EA, with a trainer. The rest of it, down to unused bytes of the
header and bytes behind the ROM, is filler. -/
def trained (filler : UInt8) (rest : Nat) : Array UInt8 :=
  #[0x4E, 0x45, 0x53, 0x1A, 1, filler, 0x04, 0] ++ Array.replicate 520 filler ++
    Array.replicate 16384 0xEA ++ Array.replicate rest filler

section Trained

variable (filler : UInt8) (rest : Nat)

theorem size_trained : (trained filler rest).size = 16912 + rest := by
  simp [trained]
  omega

/-- The header of the sample says one bank, a trainer and mapper 0. -/
theorem byteAt_trained_flags {n : Nat} (h : n < 8) :
    byteAt (trained filler rest) n =
      (#[0x4E, 0x45, 0x53, 0x1A, 1, filler, 0x04, 0] : Array UInt8)[n] := by
  simp [byteAt, trained, Array.getElem?_append, h]

theorem byteAt_trained_rom {n : Nat} (hlow : 528 ≤ n) (hhigh : n < 16912) :
    byteAt (trained filler rest) n = 0xEA := by
  have hplace : ¬ n < 8 ∧ ¬ n - 8 < 520 ∧ n - 8 - 520 < 16384 := by omega
  simp [byteAt, trained, Array.getElem?_append, hplace]

theorem mapperId_trained : mapperId (trained filler rest) = 0 := by
  have h6 : byteAt (trained filler rest) 6 = 4 := byteAt_trained_flags _ _ (by decide)
  have h7 : byteAt (trained filler rest) 7 = 0 := byteAt_trained_flags _ _ (by decide)
  rw [mapperId, h6, h7]
  decide

theorem romStart_trained : romStart (trained filler rest) = 528 := by
  have h6 : byteAt (trained filler rest) 6 = 4 := byteAt_trained_flags _ _ (by decide)
  rw [romStart, h6]
  decide

theorem romSize_trained : romSize (trained filler rest) = 16384 := by
  have h4 : byteAt (trained filler rest) 4 = 1 := byteAt_trained_flags _ _ (by decide)
  rw [romSize, h4]
  decide

theorem romEnd_trained : romEnd (trained filler rest) = 16912 := by
  rw [romEnd, romStart_trained, romSize_trained]

theorem refusal?_trained : refusal? (trained filler rest) = none := by
  have hmagic : HasMagic (trained filler rest) := by
    simp [HasMagic, byteAt_trained_flags]
  have hfits : ¬ MisfitRom (trained filler rest) := by
    simp [MisfitRom, mapperId_trained, romSize_trained]
  simp [refusal?, size_trained, hmagic, romEnd_trained, mapperId_trained, hfits]
  omega

/-- Filler and what follows the ROM do not count. -/
theorem agree_trained (filler' : UInt8) (rest' : Nat) :
    Agree (trained filler rest) (trained filler' rest') := by
  refine ⟨?_, ?_, fun n hn _ _ => ?_⟩
  · rw [size_trained, size_trained]
    omega
  · rw [size_trained, size_trained, romEnd_trained]
    omega
  · rw [Counts, romStart_trained, romEnd_trained] at hn
    by_cases hrom : 528 ≤ n
    · rw [byteAt_trained_rom _ _ hrom (by omega), byteAt_trained_rom _ _ hrom (by omega)]
    · have hflags : n < 8 := by omega
      rw [byteAt_trained_flags _ _ hflags, byteAt_trained_flags _ _ hflags]
      obtain hlow | rfl | rfl : n < 5 ∨ n = 6 ∨ n = 7 := by omega
      · interval_cases n <;> rfl
      · rfl
      · rfl

end Trained

/-- Such an image is loaded, a machine can be put around its board, and other filler gives the same
board. -/
theorem load_trained :
    ∃ b, Cartridge.load (trained 0 0) = .ok b ∧ Cartridge.load (trained 0xFF 100) = .ok b ∧
      b.read 0xC000 = .ok 0xEA ∧ ∀ config, ∃ m, Machine.powerOn b config = .ok m := by
  obtain ⟨-, haccepted, hagree⟩ := load_by_position (trained 0 0)
  obtain ⟨b, hload, hdescribes, hmachine⟩ := haccepted (refusal?_trained 0 0)
  refine ⟨b, hload, ?_, ?_, fun config => ?_⟩
  · rw [hagree _ (agree_trained 0 0 0xFF 100), hload]
    rfl
  · obtain ⟨hlow, hhigh, hread⟩ := hdescribes.shows 0xC000 (by decide)
    rw [romEnd_trained] at hhigh
    rw [romStart_trained] at hlow
    rw [hread, byteAt_trained_rom 0 0 hlow hhigh]
  · obtain ⟨m, hm, -⟩ := hmachine config
    exact ⟨m, hm⟩

end CartridgeImage

end Mos6502
