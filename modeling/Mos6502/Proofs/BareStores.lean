import Mos6502.Proofs.AddressSpace
import Mos6502.Proofs.Restore

/-!
# Boards as bare stores

The type of a board fixes the sizes of its stores, and its indices are remainders. A raw board has
neither: its stores are arrays of any size, its indices come out of plain arithmetic on words, and
there is a fault when an index lies outside of its store, when a store is overwritten from one of
another size, or when a number leaves its word. A raw board does what its board does, and without a
fault, as long as the size of the image is a word and the port counts at most four bits
(`Board.InWords`).
-/

namespace Mos6502

/-! ## Raw boards -/

namespace Store

def put? (store : Array UInt8) (i : Nat) (v : UInt8) : Option (Array UInt8) :=
  if h : i < store.size then some (store.set i v) else none

def copy? (store bytes : Array UInt8) : Option (Array UInt8) :=
  if bytes.size = store.size then some bytes else none

def clear (store : Array UInt8) : Array UInt8 := store.map fun _ => 0

end Store

/-- The index of an address in work RAM: its low eleven bits. -/
def workIndex (address : UInt16) : Nat := address.toNat &&& (workRamSize - 1)

/-- The index of an address in cartridge RAM: its distance into the window. -/
def cartIndex? (address : UInt16) : Option Nat := Word32.sub? address.toNat 0x6000

/-- The place of an address below the ROM window. -/
def ramLocation? (address : UInt16) : Option Location :=
  match Region.of address with
  | .workRam => some ⟨workIndex address, false⟩
  | .cartRam => (cartIndex? address).map (⟨·, false⟩)
  | .openBus | .cartRom => some ⟨address.toNat, false⟩

/-- The index of an address in an image of this size that fills the ROM window without banks. -/
def fixedIndex? (size : Nat) (address : UInt16) : Option Nat := do
  return (← Word32.sub? address.toNat 0x8000) &&& (← Word32.sub? size 1)

namespace BankConfig

/-- The index of an address in an image of this size, or the error of one past its end. -/
def bankedIndex? (c : BankConfig) (size : Nat) (address : UInt16) :
    Option (Except BoardError Nat) :=
  (c.offset? size address).map fun offset =>
    if offset < size then .ok offset else .error (.offsetOutOfRange address offset size c)

/-- One write to the serial port. The bit must not be shifted out of its byte. -/
def feed? (c : BankConfig) (address : UInt16) (v : UInt8) : Option BankConfig :=
  if v &&& 0x80 ≠ 0 then some c.abandon
  else if 8 ≤ c.shiftCount then none
  else
    let c := { c with shift := c.shifted v, shiftCount := c.shiftCount + 1 }
    if c.shiftCount = 5 then some (c.commit address (c.shift &&& 0x1F)).abandon else some c

end BankConfig

/-- A board as bare stores. -/
inductive RawBoard where
  | nrom (prg ram : Array UInt8) (cartRam : Option (Array UInt8))
  | mmc1 (prg : Array UInt8) (banks : BankConfig) (ram cartRam : Array UInt8)
  | flat (memory : Array UInt8)

def Board.raw : Board → RawBoard
  | nrom b => .nrom b.prg b.ram.bytes.toArray (b.cartRam.map (·.bytes.toArray))
  | mmc1 b => .mmc1 b.prg b.banks b.ram.bytes.toArray b.cartRam.bytes.toArray
  | flat b => .flat b.memory.toArray

namespace RawBoard

def kind : RawBoard → BoardKind
  | nrom .. => .nrom
  | mmc1 .. => .mmc1
  | flat _ => .flat

/-- The RAM has the sizes of the chips. -/
def Sized : RawBoard → Prop
  | nrom _ ram cartRam => ram.size = 0x800 ∧ ∀ store ∈ cartRam, store.size = 0x2000
  | mmc1 _ _ ram cartRam => ram.size = 0x800 ∧ cartRam.size = 0x2000
  | flat memory => memory.size = 0x10000

/-- The store behind an address, whether it answers at present or not. -/
def store? (b : RawBoard) (address : UInt16) : Option (Array UInt8) :=
  match b, Region.of address with
  | flat memory, _ => some memory
  | nrom _ ram _, .workRam | mmc1 _ _ ram _, .workRam => some ram
  | nrom _ _ cartRam, .cartRam => cartRam
  | mmc1 _ _ _ cartRam, .cartRam => some cartRam
  | nrom prg _ _, .cartRom | mmc1 prg _ _ _, .cartRom => some prg
  | nrom .., .openBus | mmc1 .., .openBus => none

def read? (b : RawBoard) (address : UInt16) : Option (Except BoardError UInt8) :=
  match b with
  | nrom prg ram cartRam =>
    match Region.of address, cartRam with
    | .workRam, _ => ram[workIndex address]?.map .ok
    | .cartRam, some store => do store[← cartIndex? address]?.map .ok
    | .cartRom, _ => do prg[← fixedIndex? prg.size address]?.map .ok
    | .cartRam, none | .openBus, _ => some (.ok openBus)
  | mmc1 prg banks ram cartRam =>
    match Region.of address with
    | .workRam => ram[workIndex address]?.map .ok
    | .openBus => some (.ok openBus)
    | .cartRam =>
      if banks.hasRam then do cartRam[← cartIndex? address]?.map .ok else some (.ok openBus)
    | .cartRom => do
      match ← banks.bankedIndex? prg.size address with
      | .ok i => prg[i]?.map .ok
      | .error e => some (.error e)
  | flat memory => memory[address.toNat]?.map .ok

def write? (b : RawBoard) (address : UInt16) (v : UInt8) : Option RawBoard :=
  match b with
  | nrom prg ram cartRam =>
    match Region.of address, cartRam with
    | .workRam, _ => (Store.put? ram (workIndex address) v).map (nrom prg · cartRam)
    | .cartRam, some store => do
      return nrom prg ram (some (← Store.put? store (← cartIndex? address) v))
    | .cartRam, none | .openBus, _ | .cartRom, _ => some b
  | mmc1 prg banks ram cartRam =>
    match Region.of address with
    | .workRam => (Store.put? ram (workIndex address) v).map (mmc1 prg banks · cartRam)
    | .openBus => some b
    | .cartRam =>
      if banks.hasRam then do
        return mmc1 prg banks ram (← Store.put? cartRam (← cartIndex? address) v)
      else some b
    | .cartRom => (banks.feed? address v).map (mmc1 prg · ram cartRam)
  | flat memory => (Store.put? memory address.toNat v).map flat

def locate? (b : RawBoard) (address : UInt16) : Option (Except BoardError Location) :=
  match b with
  | nrom prg _ _ =>
    if address < 0x8000 then (ramLocation? address).map .ok
    else (fixedIndex? prg.size address).map fun i => .ok ⟨i, true⟩
  | mmc1 prg banks _ _ =>
    if address < 0x8000 then (ramLocation? address).map .ok
    else (banks.bankedIndex? prg.size address).map (Except.map (⟨·, true⟩))
  | flat _ => some (.ok ⟨address.toNat, true⟩)

def clearRam : RawBoard → RawBoard
  | nrom prg ram cartRam => nrom prg (Store.clear ram) (cartRam.map Store.clear)
  | mmc1 prg banks ram cartRam => mmc1 prg banks (Store.clear ram) (Store.clear cartRam)
  | flat memory => flat memory

def restoreRam? (prg ram : Array UInt8) (cartRam : Option (Array UInt8)) (saved : Array UInt8) :
    Option (Except BoardError Unit × RawBoard) :=
  if saved.size = workRamSize then do
    return (.ok (), nrom prg (← Store.copy? ram saved) cartRam)
  else some (.error (.stateRamSize ram.size saved.size), nrom prg ram cartRam)

/-- Put a snapshot back. The answer says what became of it; the board is as it has left it. -/
def restore? (b : RawBoard) (s : Snapshot) : Option (Except BoardError Unit × RawBoard) :=
  match b, s with
  | nrom prg ram live, .nrom savedRam saved =>
    match live, saved with
    | some store, some bytes =>
      if store.size = bytes.size then do
        restoreRam? prg ram (some (← Store.copy? store bytes)) savedRam
      else some (.error (.stateRamSize store.size bytes.size), b)
    | none, none => restoreRam? prg ram none savedRam
    | some store, none => some (.error (.stateRamSize store.size 0), b)
    | none, some bytes => some (.error (.stateRamSize 0 bytes.size), b)
  | mmc1 prg _ ram cartRam, .mmc1 banks savedRam savedCartRam =>
    if savedCartRam.size ≠ cartRamSize then
      some (.error (.stateRamSize cartRamSize savedCartRam.size), b)
    else if savedRam.size ≠ workRamSize then
      some (.error (.stateRamSize ram.size savedRam.size), b)
    else do
      let ram ← Store.copy? ram savedRam
      return (.ok (), mmc1 prg banks ram (← Store.copy? cartRam savedCartRam))
  | flat memory, .flat saved =>
    if saved.size ≠ flatSize then some (.error (.stateRamSize flatSize saved.size), b)
    else do return (.ok (), flat (← Store.copy? memory saved))
  | b, _ => some (.error (.stateMismatch b.kind), b)

end RawBoard

/-! ## Indices -/

/-- The low eleven bits are the remainder. -/
theorem workIndex_eq (address : UInt16) : workIndex address = (WorkRam.index address : Nat) :=
  Nat.and_two_pow_sub_one_eq_mod address.toNat 11

/-- In its window the distance from the start is the remainder. -/
theorem cartIndex?_eq {address : UInt16} (h : Region.of address = .cartRam) :
    cartIndex? address = some (CartRam.index address : Nat) := by
  have hregion := Region.of_spec address
  rw [h] at hregion
  have hindex : (CartRam.index address : Nat) = address.toNat % 0x2000 := rfl
  rw [cartIndex?, Word32.sub?_eq_some hregion.1, hindex, Option.some_inj]
  dsimp only at hregion
  omega

/-- No number leaves its word on the way to a place below the ROM window. -/
theorem ramLocation?_eq (address : UInt16) : ramLocation? address = some (.ofRam address) := by
  unfold ramLocation? Location.ofRam
  cases hof : Region.of address with
  | workRam => simp only [workIndex_eq]
  | cartRam => simp only [cartIndex?_eq hof, Option.map_some]
  | openBus => rfl
  | cartRom => rfl

/-- A mask is a remainder, since one or two banks are a power of two. -/
theorem fixedIndex?_eq (b : Nrom) {address : UInt16} (h : 0x8000 ≤ address.toNat) :
    fixedIndex? b.prg.size address = some (b.romIndex address : Nat) := by
  obtain ⟨k, hsize, hwindow⟩ : ∃ k, b.prg.size = 2 ^ k ∧ 2 ^ k ∣ 0x8000 := by
    rcases b.size_prg with hsize | hsize
    · exact ⟨14, hsize, by decide⟩
    · exact ⟨15, hsize, by decide⟩
  have hpos : 1 ≤ b.prg.size := by rw [hsize]; exact Nat.one_le_two_pow
  have hindex : (b.romIndex address : Nat) = address.toNat % b.prg.size := rfl
  have hdistance : address.toNat - 0x8000 ≡ address.toNat [MOD 2 ^ k] :=
    (Nat.modEq_iff_dvd' (Nat.sub_le _ _)).mpr (by rwa [Nat.sub_sub_self h])
  have hmask : (address.toNat - 0x8000) &&& (b.prg.size - 1) = b.romIndex address := by
    rw [hindex, hsize, Nat.and_two_pow_sub_one_eq_mod, hdistance]
  simp only [fixedIndex?, Word32.sub?_eq_some h, Word32.sub?_eq_some hpos, Option.bind_eq_bind,
    Option.bind_some, hmask, Option.pure_def]

/-- The bank registers give the offset that the board has, or its error. -/
theorem bankedIndex?_eq (b : Mmc1) (hsize : b.prg.size < 2 ^ 32) {address : UInt16}
    (h : 0x8000 ≤ address.toNat) :
    b.banks.bankedIndex? b.prg.size address =
      some (if b.romOffset address < b.prg.size then .ok (b.romOffset address)
        else .error (b.outOfRange address)) := by
  rw [BankConfig.bankedIndex?, ← Mmc1.wordOffset?, b.wordOffset?_eq hsize h]
  rfl

/-! ## Stores -/

namespace Store

/-- An index below the length of a vector stays inside of its store. -/
theorem put?_toArray {n : Nat} (store : Vector UInt8 n) {i : Nat} (h : i < n) (v : UInt8) :
    put? store.toArray i v = some (store.set i v h).toArray := by
  rw [put?, dif_pos (by rwa [Vector.size_toArray])]
  rfl

theorem copy?_eq_some {store bytes : Array UInt8} (h : bytes.size = store.size) :
    copy? store bytes = some bytes :=
  if_pos h

theorem clear_toArray {n : Nat} (store : Vector UInt8 n) :
    clear store.toArray = (Vector.replicate n 0).toArray := by
  rw [clear, Array.map_const', Vector.size_toArray, Vector.toArray_replicate]

end Store

/-- Writing work RAM stays inside of its store. -/
theorem put?_workRam (ram : WorkRam) (address : UInt16) (v : UInt8) :
    Store.put? ram.bytes.toArray (workIndex address) v =
      some (ram.write address v).bytes.toArray := by
  rw [workIndex_eq, Store.put?_toArray ram.bytes (WorkRam.index address).isLt]
  rfl

theorem put?_cartRam (ram : CartRam) (address : UInt16) (v : UInt8) :
    Store.put? ram.bytes.toArray (CartRam.index address) v =
      some (ram.write address v).bytes.toArray :=
  Store.put?_toArray ram.bytes (CartRam.index address).isLt v

/-! ## One board -/

namespace Nrom

variable (b : Nrom) (address : UInt16)

/-- A board without banks reads without a fault. -/
theorem read?_raw : (Board.nrom b).raw.read? address = some (.ok (b.read address)) := by
  have hregion := Region.of_spec address
  cases hof : Region.of address with
  | workRam =>
    simp only [Board.raw, RawBoard.read?, read, hof, workIndex_eq, WorkRam.getElem?_index,
      Option.map_some]
  | openBus => simp only [Board.raw, RawBoard.read?, read, hof]
  | cartRam =>
    cases hcart : b.cartRam with
    | none => simp only [Board.raw, RawBoard.read?, read, hof, hcart, Option.map_none]
    | some ram =>
      simp only [Board.raw, RawBoard.read?, read, hof, hcart, cartIndex?_eq hof,
        CartRam.getElem?_index, Option.map_some, Option.bind_eq_bind, Option.bind_some]
  | cartRom =>
    rw [hof] at hregion
    simp [Board.raw, RawBoard.read?, read, hof, fixedIndex?_eq b hregion]

theorem write?_raw (v : UInt8) :
    (Board.nrom b).raw.write? address v = some (Board.nrom (b.write address v)).raw := by
  cases hof : Region.of address with
  | workRam =>
    simp only [Board.raw, RawBoard.write?, write, hof, put?_workRam, Option.map_some]
  | openBus => simp only [Board.raw, RawBoard.write?, write, hof]
  | cartRam =>
    cases hcart : b.cartRam with
    | none => simp only [Board.raw, RawBoard.write?, write, hof, hcart, Option.map_none]
    | some ram =>
      simp only [Board.raw, RawBoard.write?, write, hof, hcart, cartIndex?_eq hof, put?_cartRam,
        Option.map_some, Option.bind_eq_bind, Option.bind_some, Option.pure_def]
  | cartRom => simp only [Board.raw, RawBoard.write?, write, hof]

theorem locate?_raw : (Board.nrom b).raw.locate? address = some (.ok (b.locate address)) := by
  simp only [Board.raw, RawBoard.locate?, locate]
  split
  next => rw [ramLocation?_eq, Option.map_some]
  next h =>
    rw [UInt16.lt_iff_toNat_lt, Nat.not_lt] at h
    rw [fixedIndex?_eq b h, Option.map_some]

theorem clearRam_raw : (Board.nrom b).raw.clearRam = (Board.nrom b.clearRam).raw := by
  simp [Board.raw, RawBoard.clearRam, clearRam, Store.clear_toArray, Function.comp_def,
    WorkRam.zeros, CartRam.zeros]

end Nrom

namespace BankConfig

variable {c : BankConfig}

/-- What was in the group makes no difference once it is abandoned. -/
theorem abandon_commit (c : BankConfig) (address : UInt16) (five shift shiftCount : UInt8) :
    (commit { c with shift := shift, shiftCount := shiftCount } address five).abandon =
      (c.commit address five).abandon := by
  unfold commit
  split_ifs <;> rfl

/-- A count of at most four keeps every shift inside the byte. -/
theorem feed?_eq (h : c.shiftCount ≤ 4) (address : UInt16) (v : UInt8) :
    c.feed? address v = some (c.feed address v) := by
  have hroom : ¬ 8 ≤ c.shiftCount := by grind
  have hfive : c.shiftCount + 1 = 5 ↔ c.shiftCount = 4 := by grind
  unfold feed? feed completed?
  by_cases htop : v &&& 0x80 = 0
  · simp only [htop, ne_eq, not_true_eq_false, if_false, hroom, hfive, true_and]
    by_cases hfour : c.shiftCount = 4
    · simp only [hfour, if_true, abandon_commit]
    · simp only [hfour, if_false]
  · simp only [ne_eq, htop, not_false_eq_true, if_true]

/-- The count stays below that of a full group. -/
theorem shiftCount_feed (h : c.shiftCount ≤ 4) (address : UInt16) (v : UInt8) :
    (c.feed address v).shiftCount ≤ 4 := by
  unfold feed completed?
  by_cases htop : v &&& 0x80 = 0
  · by_cases hfour : c.shiftCount = 4
    · simp [htop, hfour, abandon]
    · have hnext : c.shiftCount + 1 ≤ 4 := by grind
      simpa [htop, hfour] using hnext
  · simp [htop, abandon]

end BankConfig

namespace Mmc1

variable (b : Mmc1) (address : UInt16)

/-- With a count of banks that is a word, reading is without a fault. -/
theorem read?_raw (hsize : b.prg.size < 2 ^ 32) :
    (Board.mmc1 b).raw.read? address = some (b.read address) := by
  have hregion := Region.of_spec address
  cases hof : Region.of address with
  | workRam =>
    simp only [Board.raw, RawBoard.read?, read, hof, workIndex_eq, WorkRam.getElem?_index,
      Option.map_some]
  | openBus => simp only [Board.raw, RawBoard.read?, read, hof]
  | cartRam =>
    simp only [Board.raw, RawBoard.read?, read, hof, cartIndex?_eq hof, CartRam.getElem?_index,
      Option.map_some, Option.bind_eq_bind, Option.bind_some]
    split <;> rfl
  | cartRom =>
    rw [hof] at hregion
    simp only [Board.raw, RawBoard.read?, hof, bankedIndex?_eq b hsize hregion, Option.bind_eq_bind,
      Option.bind_some, b.read_of_rom hregion]
    by_cases hinside : b.romOffset address < b.prg.size <;> simp [hinside]

/-- Writing is without a fault where the port counts at most four bits. -/
theorem write?_raw (hcount : b.banks.shiftCount ≤ 4) (v : UInt8) :
    (Board.mmc1 b).raw.write? address v = some (Board.mmc1 (b.write address v)).raw := by
  cases hof : Region.of address with
  | workRam =>
    simp only [Board.raw, RawBoard.write?, write, hof, put?_workRam, Option.map_some]
  | openBus => simp only [Board.raw, RawBoard.write?, write, hof]
  | cartRam =>
    simp only [Board.raw, RawBoard.write?, write, hof, cartIndex?_eq hof, put?_cartRam,
      Option.bind_eq_bind, Option.bind_some, Option.pure_def]
    split <;> rfl
  | cartRom =>
    simp only [Board.raw, RawBoard.write?, write, hof, BankConfig.feed?_eq hcount, Option.map_some]

theorem locate?_raw (hsize : b.prg.size < 2 ^ 32) :
    (Board.mmc1 b).raw.locate? address = some (b.locate address) := by
  simp only [Board.raw, RawBoard.locate?, locate]
  split
  next => rw [ramLocation?_eq, Option.map_some]
  next h =>
    rw [UInt16.lt_iff_toNat_lt, Nat.not_lt] at h
    rw [bankedIndex?_eq b hsize h, Option.map_some]
    split <;> rfl

theorem clearRam_raw : (Board.mmc1 b).raw.clearRam = (Board.mmc1 b.clearRam).raw := by
  simp only [Board.raw, RawBoard.clearRam, clearRam, Store.clear_toArray, WorkRam.zeros,
    CartRam.zeros]

end Mmc1

namespace Flat

variable (b : Flat) (address : UInt16)

theorem read?_raw : (Board.flat b).raw.read? address = some (.ok (b.read address)) := by
  simp only [Board.raw, RawBoard.read?, getElem?_memory, Option.map_some]

theorem write?_raw (v : UInt8) :
    (Board.flat b).raw.write? address v = some (Board.flat (b.write address v)).raw := by
  simp only [Board.raw, RawBoard.write?, Store.put?_toArray b.memory address.toNat_lt,
    Option.map_some]
  rfl

end Flat

/-! ## Restoring -/

/-- What came of an action, and the state that it has left. -/
def outcome {ε σ α : Type} : EStateM.Result ε σ α → Except ε α × σ
  | .ok a s => (.ok a, s)
  | .error e s => (.error e, s)

theorem snd_outcome {ε σ α : Type} (r : EStateM.Result ε σ α) : (outcome r).2 = finalState r := by
  cases r <;> rfl

theorem WorkRam.ofBytes?_eq_none {bytes : Array UInt8} (h : bytes.size ≠ workRamSize) :
    ofBytes? bytes = none :=
  dif_neg h

theorem CartRam.ofBytes?_eq_none {bytes : Array UInt8} (h : bytes.size ≠ cartRamSize) :
    ofBytes? bytes = none :=
  dif_neg h

theorem WorkRam.ofBytes?_of_size {bytes : Array UInt8} (h : bytes.size = workRamSize) :
    ofBytes? bytes = some ⟨⟨bytes, h⟩⟩ :=
  dif_pos h

theorem CartRam.ofBytes?_of_size {bytes : Array UInt8} (h : bytes.size = cartRamSize) :
    ofBytes? bytes = some ⟨⟨bytes, h⟩⟩ :=
  dif_pos h

namespace Nrom

/-- Work RAM is overwritten only from bytes of its own size. -/
theorem restoreRam?_raw (b : Nrom) (saved : Array UInt8) :
    RawBoard.restoreRam? b.prg b.ram.bytes.toArray (b.cartRam.map (·.bytes.toArray)) saved =
      some ((outcome (restoreRam saved b)).map id fun b => (Board.nrom b).raw) := by
  unfold RawBoard.restoreRam? restoreRam
  by_cases hsize : saved.size = workRamSize
  · have hcopy : saved.size = b.ram.bytes.toArray.size := by rw [hsize, Vector.size_toArray]
    rw [if_pos hsize, Store.copy?_eq_some hcopy, WorkRam.ofBytes?_of_size hsize]
    rfl
  · rw [if_neg hsize, WorkRam.ofBytes?_eq_none hsize, Vector.size_toArray]
    rfl

/-- Cartridge RAM is overwritten first, and only from bytes of its own size. -/
theorem restore?_raw (b : Nrom) (ram : Array UInt8) (cartRam : Option (Array UInt8)) :
    (Board.nrom b).raw.restore? (.nrom ram cartRam) =
      some ((outcome (restore ram cartRam b)).map id fun b => (Board.nrom b).raw) := by
  cases hlive : b.cartRam with
  | none =>
    cases cartRam with
    | none =>
      have hfirst : restoreCartRam none b = .ok () b := by simp only [restoreCartRam, hlive]
      rw [restore, bind_of_ok hfirst, ← restoreRam?_raw]
      simp only [Board.raw, RawBoard.restore?, hlive, Option.map_none]
    | some bytes =>
      have hfirst : restoreCartRam (some bytes) b = .error (.stateRamSize 0 bytes.size) b := by
        simp only [restoreCartRam, hlive]
      rw [restore, bind_of_error hfirst]
      simp only [Board.raw, RawBoard.restore?, hlive, Option.map_none, outcome, Prod.map, id]
  | some live =>
    cases cartRam with
    | none =>
      have hfirst : restoreCartRam none b = .error (.stateRamSize cartRamSize 0) b := by
        simp only [restoreCartRam, hlive]
      rw [restore, bind_of_error hfirst]
      simp only [Board.raw, RawBoard.restore?, hlive, Option.map_some, outcome, Prod.map, id,
        Vector.size_toArray]
    | some bytes =>
      by_cases hsize : bytes.size = cartRamSize
      · have hfirst : restoreCartRam (some bytes) b =
            .ok () { b with cartRam := some ⟨⟨bytes, hsize⟩⟩ } := by
          simp only [restoreCartRam, hlive, CartRam.ofBytes?_of_size hsize]
        have hcopy : bytes.size = live.bytes.toArray.size := by rw [hsize, Vector.size_toArray]
        rw [restore, bind_of_ok hfirst, ← restoreRam?_raw]
        simp only [Board.raw, RawBoard.restore?, hlive, Option.map_some, if_pos hcopy.symm,
          Store.copy?_eq_some hcopy, Option.bind_eq_bind, Option.bind_some]
      · have hfirst : restoreCartRam (some bytes) b =
            .error (.stateRamSize cartRamSize bytes.size) b := by
          simp only [restoreCartRam, hlive, CartRam.ofBytes?_eq_none hsize]
        rw [restore, bind_of_error hfirst]
        simp only [Board.raw, RawBoard.restore?, hlive, Option.map_some, outcome, Prod.map, id,
          Vector.size_toArray, Ne.symm hsize, if_false]

end Nrom

/-- Both sizes are tested before either store is overwritten. -/
theorem Mmc1.restore?_raw (b : Mmc1) (banks : BankConfig) (ram cartRam : Array UInt8) :
    (Board.mmc1 b).raw.restore? (.mmc1 banks ram cartRam) =
      some ((outcome (restore banks ram cartRam b)).map id fun b => (Board.mmc1 b).raw) := by
  unfold Board.raw RawBoard.restore? restore
  by_cases hcart : cartRam.size = cartRamSize
  · have hcopy : cartRam.size = b.cartRam.bytes.toArray.size := by rw [hcart, Vector.size_toArray]
    by_cases hram : ram.size = workRamSize
    · have hcopy' : ram.size = b.ram.bytes.toArray.size := by rw [hram, Vector.size_toArray]
      simp only [hcart, hram, ne_eq, not_true_eq_false, if_false, Store.copy?_eq_some hcopy,
        Store.copy?_eq_some hcopy', Option.bind_eq_bind, Option.bind_some,
        WorkRam.ofBytes?_of_size hram, CartRam.ofBytes?_of_size hcart]
      rfl
    · simp only [hcart, hram, ne_eq, not_true_eq_false, not_false_eq_true, if_false, if_true,
        WorkRam.ofBytes?_eq_none hram, CartRam.ofBytes?_of_size hcart, Vector.size_toArray]
      rfl
  · simp only [hcart, ne_eq, not_false_eq_true, if_true, CartRam.ofBytes?_eq_none hcart]
    rfl

theorem Flat.restore?_raw (b : Flat) (memory : Array UInt8) :
    (Board.flat b).raw.restore? (.flat memory) =
      some ((outcome (restore memory b)).map id fun b => (Board.flat b).raw) := by
  unfold Board.raw RawBoard.restore? restore
  by_cases hsize : memory.size = flatSize
  · have hcopy : memory.size = b.memory.toArray.size := by rw [hsize, Vector.size_toArray]
    simp only [hsize, ne_eq, not_true_eq_false, if_false, Store.copy?_eq_some hcopy,
      Option.bind_eq_bind, Option.bind_some]
    rfl
  · simp only [hsize, ne_eq, not_false_eq_true, if_true]
    rfl

/-! ## Any board -/

namespace Board

/-- The size of the image is a word, and no more bits are counted than an unfinished group has. -/
def InWords : Board → Prop
  | mmc1 b => b.prg.size < 2 ^ 32 ∧ b.banks.shiftCount ≤ 4
  | nrom _ | flat _ => True

variable {b : Board}

/-- The type of a board fixes the sizes of its stores. -/
theorem sized_raw (b : Board) : b.raw.Sized := by
  cases b with
  | nrom b =>
    refine ⟨Vector.size_toArray _, fun store hstore => ?_⟩
    obtain ⟨ram, -, rfl⟩ := Option.map_eq_some_iff.mp hstore
    exact Vector.size_toArray _
  | mmc1 b => exact ⟨Vector.size_toArray _, Vector.size_toArray _⟩
  | flat b => exact Vector.size_toArray _

theorem InWords.read?_raw (h : b.InWords) (address : UInt16) :
    b.raw.read? address = some (b.read address) := by
  cases b with
  | nrom b => exact b.read?_raw address
  | mmc1 b => exact b.read?_raw address h.1
  | flat b => exact b.read?_raw address

theorem InWords.write?_raw (h : b.InWords) (address : UInt16) (v : UInt8) :
    b.raw.write? address v = some (b.write address v).raw := by
  cases b with
  | nrom b => exact b.write?_raw address v
  | mmc1 b => exact b.write?_raw address h.2 v
  | flat b => exact b.write?_raw address v

theorem InWords.locate?_raw (h : b.InWords) (address : UInt16) :
    b.raw.locate? address = some (b.locate address) := by
  cases b with
  | nrom b => exact b.locate?_raw address
  | mmc1 b => exact b.locate?_raw address h.1
  | flat b => rfl

theorem clearRam_raw (b : Board) : b.raw.clearRam = b.clearRam.raw := by
  cases b with
  | nrom b => exact b.clearRam_raw
  | mmc1 b => exact b.clearRam_raw
  | flat b => rfl

theorem outcome_restoreAs {β : Type} (wrap : β → Board) (b : β) (act : EStateM BoardError β Unit) :
    outcome (restoreAs wrap b act) = (outcome (act b)).map id wrap := by
  unfold restoreAs
  cases act b <;> rfl

/-- A snapshot is put back, or refused, without a fault. -/
theorem restore?_raw (b : Board) (s : Snapshot) :
    b.raw.restore? s = some ((outcome (b.restore s)).map id raw) := by
  cases b with
  | nrom b =>
    cases s with
    | nrom ram cartRam => rw [restore, outcome_restoreAs, b.restore?_raw]; rfl
    | mmc1 banks ram cartRam => rfl
    | flat memory => rfl
  | mmc1 b =>
    cases s with
    | nrom ram cartRam => rfl
    | mmc1 banks ram cartRam => rw [restore, outcome_restoreAs, b.restore?_raw]; rfl
    | flat memory => rfl
  | flat b =>
    cases s with
    | nrom ram cartRam => rfl
    | mmc1 banks ram cartRam => rfl
    | flat memory => rw [restore, outcome_restoreAs, b.restore?_raw]; rfl

end Board

end Mos6502
