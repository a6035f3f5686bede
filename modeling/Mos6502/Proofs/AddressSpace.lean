import Mos6502.Board.Basic
import Mos6502.Proofs.BankWindows

/-!
# The address space as a function of its history

What a board answers is determined by how it was built and by what has happened to it since: a byte
of RAM is the one last written to its cell since RAM was last cleared, a byte of ROM never changes,
and flat memory forgets nothing. `Origin.byte?` says so at the level of lists of operations, without
any store. `board_after_answers` proves that the three boards agree with it at every address after
every history, and that locating an address finds the very byte that a read of it returns.
-/

namespace Mos6502

open SerialPort (Write Delivery scan)

/-- What can happen to a board. -/
inductive BoardOp where
  | write (address : UInt16) (v : UInt8)
  | clearRam

namespace BoardOp

/-- The writes of a history, oldest first. In a history the newest operation comes first. -/
def writes : List BoardOp → List Write
  | [] => []
  | write address v :: past => writes past ++ [(address, v)]
  | clearRam :: past => writes past

/-- The value of the last write to an address. -/
def lastValue? (past : List BoardOp) (address : UInt16) : Option UInt8 :=
  ((writes past).filter fun w => w.1 = address).getLast?.map Prod.snd

/-- The value last written to a cell since RAM was last cleared. `hits earlier a` says that a write
to `a` reaches the cell when the operations `earlier` lie behind it. -/
def lastWritten? (hits : List BoardOp → UInt16 → Bool) : List BoardOp → Option UInt8
  | [] => none
  | clearRam :: _ => none
  | write a v :: past => if hits past a then some v else lastWritten? hits past

/-- A write to `a` reaches the cell of work RAM behind an address. -/
def hitsWorkRam (address : UInt16) (_ : List BoardOp) (a : UInt16) : Bool :=
  a.toNat < 0x2000 && a.toNat % 0x800 == address.toNat % 0x800

end BoardOp

def Board.after (b : Board) : List BoardOp → Board
  | [] => b
  | .write a v :: past => (b.after past).write a v
  | .clearRam :: past => (b.after past).clearRam

/-- How a board was built: its kind, its image, and whether cartridge RAM was asked for. -/
inductive Origin where
  | nrom (prg : Array UInt8) (hasRam : Bool)
  | mmc1 (prg : Array UInt8) (hasRam : Bool)
  | flat (image : Array UInt8)

namespace Origin

def board : Origin → Except BoardError Board
  | nrom prg hasRam => (Nrom.ofImage prg hasRam).map .nrom
  | mmc1 prg hasRam => (Mmc1.ofImage prg hasRam).map .mmc1
  | flat image => (Flat.ofImage image).map .flat

/-- Cartridge RAM answers after these operations: it was there from the start, or, on the board with
bank registers, five bits with the top one set were committed to the PRG register. -/
def hasCartRam (origin : Origin) (past : List BoardOp) : Bool :=
  match origin with
  | nrom _ hasRam => hasRam
  | mmc1 _ hasRam => hasRam || (scan (BoardOp.writes past)).commits.any fun commit =>
      commit.1 = .prg && 16 ≤ commit.2
  | flat _ => false

def hitsCartRam (origin : Origin) (address : UInt16) (earlier : List BoardOp) (a : UInt16) : Bool :=
  a == address && origin.hasCartRam earlier

/-- The byte of a board whose image `prg` lies behind the ROM window. `offset` is where the board
locates the address. -/
def windowByte? (origin : Origin) (prg : Array UInt8) (past : List BoardOp) (address : UInt16)
    (offset : Nat) : Option UInt8 :=
  if address.toNat < 0x2000 then
    some ((BoardOp.lastWritten? (BoardOp.hitsWorkRam address) past).getD 0)
  else if address.toNat < 0x6000 then some 0
  else if address.toNat < 0x8000 then
    some ((BoardOp.lastWritten? (origin.hitsCartRam address) past).getD 0)
  else prg[offset]?

/-- The byte that answers an address after these operations. -/
def byte? (origin : Origin) (past : List BoardOp) (address : UInt16) (offset : Nat) :
    Option UInt8 :=
  match origin with
  | nrom prg _ | mmc1 prg _ => origin.windowByte? prg past address offset
  | flat image => (BoardOp.lastValue? past address).or image[address.toNat]?

def prg? : Origin → Option (Array UInt8)
  | nrom prg _ | mmc1 prg _ => some prg
  | flat _ => none

/-- The image answers the address. -/
def inImage (origin : Origin) (address : UInt16) : Bool :=
  match origin with
  | nrom .. | mmc1 .. => 0x8000 ≤ address.toNat
  | flat _ => true

end Origin

namespace Board

/-- The store that answers an address at present, if there is one. -/
def store? (b : Board) (address : UInt16) : Option (Array UInt8) :=
  match b, Region.of address with
  | flat b, _ => some b.memory.toArray
  | nrom b, .workRam => some b.ram.bytes.toArray
  | nrom b, .cartRam => b.cartRam.map (·.bytes.toArray)
  | nrom b, .cartRom => some b.prg
  | mmc1 b, .workRam => some b.ram.bytes.toArray
  | mmc1 b, .cartRam => if b.banks.hasRam then some b.cartRam.bytes.toArray else none
  | mmc1 b, .cartRom => some b.prg
  | nrom _, .openBus | mmc1 _, .openBus => none

/-- Reading and locating an address fail alike, or the read returns the byte that the history
demands, and it stands in its store where the board locates it. -/
def Answers (b : Board) (origin : Origin) (past : List BoardOp) (address : UInt16) : Prop :=
  match b.read address, b.locate address with
  | .ok v, .ok place =>
    origin.byte? past address place.offset = some v ∧ place.inRom = origin.inImage address ∧
      ∀ bytes, b.store? address = some bytes → bytes[place.offset]? = some v
  | .error e, .error e' => e = e'
  | .ok _, .error _ | .error _, .ok _ => False

end Board

/-! ## Windows -/

/-- The windows cover the address space in order. -/
theorem Region.of_spec (address : UInt16) :
    match Region.of address with
    | .workRam => address.toNat < 0x2000
    | .openBus => 0x2000 ≤ address.toNat ∧ address.toNat < 0x6000
    | .cartRam => 0x6000 ≤ address.toNat ∧ address.toNat < 0x8000
    | .cartRom => 0x8000 ≤ address.toNat := by
  simp only [Region.of, UInt16.lt_iff_toNat_lt, UInt16.reduceToNat]
  split_ifs <;> simp <;> omega

/-- The byte in each window. -/
theorem Origin.windowByte?_eq (origin : Origin) (prg : Array UInt8) (past : List BoardOp)
    (address : UInt16) (offset : Nat) :
    origin.windowByte? prg past address offset =
      match Region.of address with
      | .workRam => some ((BoardOp.lastWritten? (BoardOp.hitsWorkRam address) past).getD 0)
      | .openBus => some 0
      | .cartRam => some ((BoardOp.lastWritten? (origin.hitsCartRam address) past).getD 0)
      | .cartRom => prg[offset]? := by
  have hregion := Region.of_spec address
  unfold windowByte?
  cases hof : Region.of address <;> rw [hof] at hregion <;> dsimp only at hregion ⊢
  case workRam => rw [if_pos hregion]
  case openBus => rw [if_neg (by omega), if_pos hregion.2]
  case cartRam => rw [if_neg (by omega), if_neg (by omega), if_pos hregion.2]
  case cartRom => rw [if_neg (by omega), if_neg (by omega), if_neg (by omega)]

/-! ## Enabling cartridge RAM -/

namespace SerialPort

/-- Only a write to the ROM window reaches the port. -/
theorem scan_concat (ws : List Write) (w : Write) :
    scan (ws ++ [w]) = if 0x8000 ≤ w.1.toNat then (scan ws).take w else scan ws := by
  by_cases h : 0x8000 ≤ w.1.toNat <;> simp [scan, List.filter_append, List.foldl_append, h]

/-- A commit is never taken back. -/
theorem Delivery.commits_take (d : Delivery) (w : Write) :
    ∃ more, (d.take w).commits = d.commits ++ more := by
  unfold Delivery.take
  split
  next => exact ⟨[], by simp⟩
  next =>
    dsimp only
    split
    next => exact ⟨_, rfl⟩
    next => exact ⟨[], by simp⟩

end SerialPort

/-- Cartridge RAM that answers goes on answering. -/
theorem Origin.hasCartRam_cons (origin : Origin) (op : BoardOp) {past : List BoardOp}
    (h : origin.hasCartRam past = true) : origin.hasCartRam (op :: past) = true := by
  cases origin with
  | nrom prg hasRam => exact h
  | flat image => exact h
  | mmc1 prg hasRam =>
    cases op with
    | clearRam => exact h
    | write a v =>
      simp only [hasCartRam, BoardOp.writes, SerialPort.scan_concat] at h ⊢
      split
      next =>
        obtain ⟨more, hmore⟩ := (scan (BoardOp.writes past)).commits_take (a, v)
        rw [hmore, List.any_append, ← Bool.or_assoc, h, Bool.true_or]
      next => exact h

/-- So nothing was ever written to cartridge RAM that does not answer. -/
theorem Origin.lastWritten?_of_disabled (origin : Origin) (address : UInt16) {past : List BoardOp}
    (h : origin.hasCartRam past = false) :
    BoardOp.lastWritten? (origin.hitsCartRam address) past = none := by
  induction past with
  | nil => rfl
  | cons op past ih =>
    have hbefore : origin.hasCartRam past = false :=
      Bool.eq_false_iff.mpr fun henabled =>
        absurd (origin.hasCartRam_cons op henabled) (Bool.eq_false_iff.mp h)
    cases op with
    | write a v =>
      rw [BoardOp.lastWritten?, hitsCartRam, hbefore, Bool.and_false]
      exact ih hbefore
    | clearRam => rfl

/-! ## Stores -/

namespace WorkRam

theorem getElem?_index (ram : WorkRam) (address : UInt16) :
    ram.bytes.toArray[(index address : Nat)]? = some (ram.read address) := by
  simp [read, index]

/-- A write is seen at every mirror of its address and nowhere else. -/
theorem read_write (ram : WorkRam) (a address : UInt16) (v : UInt8) :
    (ram.write a v).read address =
      if a.toNat % 0x800 = address.toNat % 0x800 then v else ram.read address := by
  simp [read, write, index, Vector.getElem_set]

/-- The store holds what a history without bank registers demands of it. -/
def Holds (ram : WorkRam) (past : List BoardOp) : Prop :=
  ∀ address, ram.read address =
    (BoardOp.lastWritten? (BoardOp.hitsWorkRam address) past).getD 0

theorem holds_zeros : zeros.Holds [] := by
  intro address
  simp [BoardOp.lastWritten?, read, zeros]

theorem holds_clear (past : List BoardOp) : zeros.Holds (.clearRam :: past) := by
  intro address
  simp [BoardOp.lastWritten?, read, zeros]

/-- A write into the window becomes the last one at its mirrors. -/
theorem Holds.write {ram : WorkRam} {past : List BoardOp} (h : ram.Holds past) {a : UInt16}
    (ha : a.toNat < 0x2000) (v : UInt8) : (ram.write a v).Holds (.write a v :: past) := by
  intro address
  rw [read_write, BoardOp.lastWritten?, BoardOp.hitsWorkRam, h address]
  by_cases hcell : a.toNat % 0x800 = address.toNat % 0x800
  · simp [hcell, ha]
  · simp [hcell]

theorem Holds.skip {ram : WorkRam} {past : List BoardOp} (h : ram.Holds past) {a : UInt16}
    (ha : ¬ a.toNat < 0x2000) (v : UInt8) : ram.Holds (.write a v :: past) := by
  intro address
  rw [BoardOp.lastWritten?, BoardOp.hitsWorkRam, h address]
  simp [ha]

end WorkRam

namespace CartRam

theorem getElem?_index (ram : CartRam) (address : UInt16) :
    ram.bytes.toArray[(index address : Nat)]? = some (ram.read address) := by
  simp [read, index]

theorem read_write (ram : CartRam) (a address : UInt16) (v : UInt8) :
    (ram.write a v).read address =
      if a.toNat % 0x2000 = address.toNat % 0x2000 then v else ram.read address := by
  simp [read, write, index, Vector.getElem_set]

/-- The store holds what the history of its board demands of it. -/
def Holds (ram : CartRam) (origin : Origin) (past : List BoardOp) : Prop :=
  ∀ address, 0x6000 ≤ address.toNat → address.toNat < 0x8000 →
    ram.read address = (BoardOp.lastWritten? (origin.hitsCartRam address) past).getD 0

theorem holds_zeros (origin : Origin) : zeros.Holds origin [] := by
  intro address _ _
  simp [BoardOp.lastWritten?, read, zeros]

theorem holds_clear (origin : Origin) (past : List BoardOp) :
    zeros.Holds origin (.clearRam :: past) := by
  intro address _ _
  simp [BoardOp.lastWritten?, read, zeros]

/-- While the cartridge RAM answers, a write into its window becomes the last one there. -/
theorem Holds.write {ram : CartRam} {origin : Origin} {past : List BoardOp}
    (h : ram.Holds origin past) (henabled : origin.hasCartRam past = true) {a : UInt16}
    (hlow : 0x6000 ≤ a.toNat) (hhigh : a.toNat < 0x8000) (v : UInt8) :
    (ram.write a v).Holds origin (.write a v :: past) := by
  intro address haddress haddress'
  rw [read_write, BoardOp.lastWritten?, Origin.hitsCartRam, h address haddress haddress']
  by_cases hcell : a = address
  · simp [hcell, henabled]
  · have hne : a.toNat ≠ address.toNat := mt UInt16.toNat_inj.mp hcell
    simp [hcell, show a.toNat % 0x2000 ≠ address.toNat % 0x2000 by omega]

/-- A write elsewhere, or one while cartridge RAM does not answer, leaves the store alone. -/
theorem Holds.skip {ram : CartRam} {origin : Origin} {past : List BoardOp}
    (h : ram.Holds origin past) {a : UInt16}
    (ha : origin.hasCartRam past = true → a.toNat < 0x6000 ∨ 0x8000 ≤ a.toNat) (v : UInt8) :
    ram.Holds origin (.write a v :: past) := by
  intro address haddress haddress'
  have hmiss : origin.hitsCartRam address past a = false := by
    rw [Origin.hitsCartRam, Bool.and_eq_false_iff, beq_eq_false_iff_ne]
    by_cases henabled : origin.hasCartRam past = true
    · left
      rintro rfl
      have := ha henabled
      omega
    · exact .inr (Bool.eq_false_iff.mpr henabled)
  rw [BoardOp.lastWritten?, hmiss, h address haddress haddress']
  rfl

end CartRam

/-! ## Answers in each window -/

namespace Board

variable {b : Board} {origin : Origin} {past : List BoardOp} {address : UInt16}

/-- A board answers as it should if the byte it reads is the expected one and lies where it is
located. -/
theorem answers_of_ok {v : UInt8} {place : Location} (hread : b.read address = .ok v)
    (hlocate : b.locate address = .ok place)
    (hbyte : origin.byte? past address place.offset = some v)
    (hrom : place.inRom = origin.inImage address)
    (hstore : ∀ bytes, b.store? address = some bytes → bytes[place.offset]? = some v) :
    b.Answers origin past address := by
  rw [Answers, hread, hlocate]
  exact ⟨hbyte, hrom, hstore⟩

/-- Where a board can neither read nor locate, it is enough that both fail alike. -/
theorem answers_of_error {e : BoardError} (hread : b.read address = .error e)
    (hlocate : b.locate address = .error e) : b.Answers origin past address := by
  rw [Answers, hread, hlocate]

variable {prg : Array UInt8}

/-- A board with an image in its ROM window has the three windows below it. -/
theorem byte?_of_prg (hprg : origin.prg? = some prg) (offset : Nat) :
    origin.byte? past address offset = origin.windowByte? prg past address offset := by
  cases origin <;> cases hprg <;> rfl

theorem inImage_of_prg (hprg : origin.prg? = some prg) :
    origin.inImage address = decide (0x8000 ≤ address.toNat) := by
  cases origin <;> cases hprg <;> rfl

theorem answers_of_workRam (hprg : origin.prg? = some prg) (hof : Region.of address = .workRam)
    {ram : WorkRam} (hholds : ram.Holds past) (hread : b.read address = .ok (ram.read address))
    (hlocate : b.locate address = .ok (.ofRam address))
    (hstore : b.store? address = some ram.bytes.toArray) : b.Answers origin past address := by
  have hregion := Region.of_spec address
  rw [hof] at hregion
  rw [Location.ofRam, hof] at hlocate
  refine answers_of_ok hread hlocate ?_ ?_ ?_
  · rw [byte?_of_prg hprg, Origin.windowByte?_eq, hof, hholds address]
  · rw [inImage_of_prg hprg, decide_eq_false (by omega)]
  · intro bytes hbytes
    cases hstore.symm.trans hbytes
    exact ram.getElem?_index address

theorem answers_of_openBus (hprg : origin.prg? = some prg) (hof : Region.of address = .openBus)
    (hread : b.read address = .ok 0) (hlocate : b.locate address = .ok (.ofRam address))
    (hstore : b.store? address = none) : b.Answers origin past address := by
  have hregion := Region.of_spec address
  rw [hof] at hregion
  rw [Location.ofRam, hof] at hlocate
  refine answers_of_ok hread hlocate ?_ ?_ ?_
  · rw [byte?_of_prg hprg, Origin.windowByte?_eq, hof]
  · rw [inImage_of_prg hprg, decide_eq_false (by omega)]
  · intro bytes hbytes
    cases hstore.symm.trans hbytes

theorem answers_of_cartRam (hprg : origin.prg? = some prg) (hof : Region.of address = .cartRam)
    {ram : CartRam} (hholds : ram.Holds origin past)
    (hread : b.read address = .ok (ram.read address))
    (hlocate : b.locate address = .ok (.ofRam address))
    (hstore : b.store? address = some ram.bytes.toArray) : b.Answers origin past address := by
  have hregion := Region.of_spec address
  rw [hof] at hregion
  rw [Location.ofRam, hof] at hlocate
  refine answers_of_ok hread hlocate ?_ ?_ ?_
  · rw [byte?_of_prg hprg, Origin.windowByte?_eq, hof, hholds address hregion.1 hregion.2]
  · rw [inImage_of_prg hprg, decide_eq_false (by omega)]
  · intro bytes hbytes
    cases hstore.symm.trans hbytes
    exact ram.getElem?_index address

/-- Without cartridge RAM, its window reads as an open bus. -/
theorem answers_of_disabled (hprg : origin.prg? = some prg) (hof : Region.of address = .cartRam)
    (hdisabled : origin.hasCartRam past = false) (hread : b.read address = .ok 0)
    (hlocate : b.locate address = .ok (.ofRam address)) (hstore : b.store? address = none) :
    b.Answers origin past address := by
  have hregion := Region.of_spec address
  rw [hof] at hregion
  rw [Location.ofRam, hof] at hlocate
  refine answers_of_ok hread hlocate ?_ ?_ ?_
  · rw [byte?_of_prg hprg, Origin.windowByte?_eq, hof]
    dsimp only
    rw [Origin.lastWritten?_of_disabled origin address hdisabled]
    rfl
  · rw [inImage_of_prg hprg, decide_eq_false (by omega)]
  · intro bytes hbytes
    cases hstore.symm.trans hbytes

theorem answers_of_cartRom (hprg : origin.prg? = some prg) (hof : Region.of address = .cartRom)
    {offset : Nat} {v : UInt8} (hbyte : prg[offset]? = some v) (hread : b.read address = .ok v)
    (hlocate : b.locate address = .ok ⟨offset, true⟩) (hstore : b.store? address = some prg) :
    b.Answers origin past address := by
  have hregion := Region.of_spec address
  rw [hof] at hregion
  refine answers_of_ok hread hlocate ?_ ?_ ?_
  · rw [byte?_of_prg hprg, Origin.windowByte?_eq, hof]
    exact hbyte
  · rw [inImage_of_prg hprg, decide_eq_true hregion]
  · intro bytes hbytes
    cases hstore.symm.trans hbytes
    exact hbyte

end Board

/-! ## The board without bank switching -/

namespace Nrom

/-- A board of this image holds what its history demands. -/
structure Holds (b : Nrom) (prg : Array UInt8) (hasRam : Bool) (past : List BoardOp) : Prop where
  prg_eq : b.prg = prg
  ram : b.ram.Holds past
  isSome_cartRam : b.cartRam.isSome = hasRam
  cartRam : ∀ ram, b.cartRam = some ram → ram.Holds (.nrom prg hasRam) past

variable {b : Nrom} {prg : Array UInt8} {hasRam : Bool} {past : List BoardOp}

theorem holds_ofImage (h : ofImage prg hasRam = .ok b) : b.Holds prg hasRam [] := by
  unfold ofImage at h
  split at h
  next =>
    cases h
    refine ⟨rfl, WorkRam.holds_zeros, by cases hasRam <;> rfl, ?_⟩
    intro ram hram
    cases hasRam
    · cases hram
    · cases hram
      exact CartRam.holds_zeros _
  next => cases h

theorem Holds.clearRam (h : b.Holds prg hasRam past) :
    b.clearRam.Holds prg hasRam (.clearRam :: past) where
  prg_eq := h.prg_eq
  ram := WorkRam.holds_clear past
  isSome_cartRam := by
    rw [← h.isSome_cartRam, Nrom.clearRam, Option.isSome_map]
  cartRam := by
    intro ram hram
    obtain ⟨_, _, rfl⟩ := Option.map_eq_some_iff.mp hram
    exact CartRam.holds_clear _ past

theorem Holds.write (h : b.Holds prg hasRam past) (a : UInt16) (v : UInt8) :
    (b.write a v).Holds prg hasRam (.write a v :: past) := by
  have hregion := Region.of_spec a
  unfold Nrom.write
  cases hof : Region.of a <;> rw [hof] at hregion <;> dsimp only at hregion ⊢
  case workRam =>
    exact ⟨h.prg_eq, h.ram.write hregion v, h.isSome_cartRam,
      fun ram hram => (h.cartRam ram hram).skip (fun _ => by omega) v⟩
  case openBus =>
    exact ⟨h.prg_eq, h.ram.skip (by omega) v, h.isSome_cartRam,
      fun ram hram => (h.cartRam ram hram).skip (fun _ => by omega) v⟩
  case cartRam =>
    refine ⟨h.prg_eq, h.ram.skip (by omega) v, (Option.isSome_map ..).trans h.isSome_cartRam, ?_⟩
    intro ram hram
    obtain ⟨old, hold, rfl⟩ := Option.map_eq_some_iff.mp hram
    have henabled : (Origin.nrom prg hasRam).hasCartRam past = true := by
      rw [Origin.hasCartRam, ← h.isSome_cartRam, hold]
      rfl
    exact (h.cartRam old hold).write henabled hregion.1 hregion.2 v
  case cartRom =>
    exact ⟨h.prg_eq, h.ram.skip (by omega) v, h.isSome_cartRam,
      fun ram hram => (h.cartRam ram hram).skip (fun _ => by omega) v⟩

/-- The RAM holds what the history says, by induction on the history. -/
theorem Holds.after (h : b.Holds prg hasRam []) (past : List BoardOp) :
    ∃ b', (Board.nrom b).after past = .nrom b' ∧ b'.Holds prg hasRam past := by
  induction past with
  | nil => exact ⟨b, rfl, h⟩
  | cons op past ih =>
    obtain ⟨b', hafter, hholds⟩ := ih
    cases op with
    | write a v => exact ⟨b'.write a v, by rw [Board.after, hafter]; rfl, hholds.write a v⟩
    | clearRam => exact ⟨b'.clearRam, by rw [Board.after, hafter]; rfl, hholds.clearRam⟩

theorem locate_of_ram (b : Nrom) {address : UInt16} (h : address.toNat < 0x8000) :
    b.locate address = .ofRam address :=
  if_pos (UInt16.lt_iff_toNat_lt.mpr h)

theorem locate_of_rom (b : Nrom) {address : UInt16} (h : 0x8000 ≤ address.toNat) :
    b.locate address = ⟨b.romIndex address, true⟩ := by
  refine if_neg fun hlt => ?_
  have : address.toNat < 0x8000 := UInt16.lt_iff_toNat_lt.mp hlt
  omega

theorem Holds.answers (h : b.Holds prg hasRam past) (address : UInt16) :
    (Board.nrom b).Answers (.nrom prg hasRam) past address := by
  have hregion := Region.of_spec address
  cases hof : Region.of address <;> rw [hof] at hregion <;> dsimp only at hregion
  case workRam =>
    refine Board.answers_of_workRam rfl hof h.ram ?_ ?_ ?_
    · simp only [Board.read, Nrom.read, hof]
    · exact congrArg Except.ok (locate_of_ram b (by omega))
    · simp only [Board.store?, hof]
  case openBus =>
    refine Board.answers_of_openBus rfl hof ?_ ?_ ?_
    · simp only [Board.read, Nrom.read, hof, openBus]
    · exact congrArg Except.ok (locate_of_ram b (by omega))
    · simp only [Board.store?, hof]
  case cartRam =>
    have hlocate : (Board.nrom b).locate address = .ok (.ofRam address) :=
      congrArg Except.ok (locate_of_ram b (by omega))
    cases hcart : b.cartRam with
    | some ram =>
      refine Board.answers_of_cartRam rfl hof (h.cartRam ram hcart) ?_ hlocate ?_
      · simp only [Board.read, Nrom.read, hof, hcart]
      · simp only [Board.store?, hof, hcart, Option.map_some]
    | none =>
      refine Board.answers_of_disabled rfl hof ?_ ?_ hlocate ?_
      · rw [Origin.hasCartRam, ← h.isSome_cartRam, hcart]
        rfl
      · simp only [Board.read, Nrom.read, hof, hcart, openBus]
      · simp only [Board.store?, hof, hcart, Option.map_none]
  case cartRom =>
    have hread : Board.read (.nrom b) address = .ok b.prg[b.romIndex address] := by
      simp only [Board.read, Nrom.read, hof]
    have hlocate : Board.locate (.nrom b) address = .ok ⟨b.romIndex address, true⟩ :=
      congrArg Except.ok (locate_of_rom b hregion)
    refine Board.answers_of_cartRom rfl hof ?_ hread hlocate ?_
    · rw [← h.prg_eq]
      simp
    · simp only [Board.store?, hof, h.prg_eq]

end Nrom

/-! ## The board with bank registers -/

namespace Mmc1

/-- A board of this image holds what its history demands. -/
structure Holds (b : Mmc1) (prg : Array UInt8) (hasRam : Bool) (past : List BoardOp) : Prop where
  prg_eq : b.prg = prg
  isOpen : (scan (BoardOp.writes past)).Open
  banks : b.banks = (scan (BoardOp.writes past)).banks hasRam
  ram : b.ram.Holds past
  cartRam : b.cartRam.Holds (.mmc1 prg hasRam) past

variable {b : Mmc1} {prg : Array UInt8} {hasRam : Bool} {past : List BoardOp}

/-- The enable bit of the bank registers is the one that the history of the port gives. -/
theorem Holds.hasRam_eq (h : b.Holds prg hasRam past) :
    b.banks.hasRam = (Origin.mmc1 prg hasRam).hasCartRam past := by
  rw [h.banks]
  rfl

theorem holds_ofImage (h : ofImage prg hasRam = .ok b) : b.Holds prg hasRam [] := by
  obtain ⟨hprg, hbanks, hram, hcart⟩ := eq_of_ofImage h
  refine ⟨hprg, ⟨Nat.zero_le _, by simp [scan, BoardOp.writes]⟩, ?_, ?_, ?_⟩
  · exact hbanks.trans (SerialPort.powerOn_eq_banks hasRam)
  · exact hram ▸ WorkRam.holds_zeros
  · exact hcart ▸ CartRam.holds_zeros _

theorem Holds.clearRam (h : b.Holds prg hasRam past) :
    b.clearRam.Holds prg hasRam (.clearRam :: past) :=
  ⟨h.prg_eq, h.isOpen, h.banks, WorkRam.holds_clear past, CartRam.holds_clear _ past⟩

theorem Holds.write (h : b.Holds prg hasRam past) (a : UInt16) (v : UInt8) :
    (b.write a v).Holds prg hasRam (.write a v :: past) := by
  have hregion := Region.of_spec a
  have hscan := SerialPort.scan_concat (BoardOp.writes past) (a, v)
  have hbelow : a.toNat < 0x8000 →
      scan (BoardOp.writes (.write a v :: past)) = scan (BoardOp.writes past) :=
    fun ha => hscan.trans (if_neg (Nat.not_le.mpr ha))
  unfold Mmc1.write
  cases hof : Region.of a <;> rw [hof] at hregion <;> dsimp only at hregion ⊢
  case workRam =>
    have hsame := hbelow (by omega)
    exact ⟨h.prg_eq, hsame ▸ h.isOpen, hsame ▸ h.banks, h.ram.write hregion v,
      h.cartRam.skip (fun _ => by omega) v⟩
  case openBus =>
    have hsame := hbelow (by omega)
    exact ⟨h.prg_eq, hsame ▸ h.isOpen, hsame ▸ h.banks, h.ram.skip (by omega) v,
      h.cartRam.skip (fun _ => by omega) v⟩
  case cartRam =>
    have hsame := hbelow (by omega)
    split
    next henabled =>
      exact ⟨h.prg_eq, hsame ▸ h.isOpen, hsame ▸ h.banks, h.ram.skip (by omega) v,
        h.cartRam.write (h.hasRam_eq ▸ henabled) hregion.1 hregion.2 v⟩
    next hdisabled =>
      exact ⟨h.prg_eq, hsame ▸ h.isOpen, hsame ▸ h.banks, h.ram.skip (by omega) v,
        h.cartRam.skip (fun henabled => absurd (h.hasRam_eq.trans henabled) hdisabled) v⟩
  case cartRom =>
    have htake : scan (BoardOp.writes (.write a v :: past)) =
        (scan (BoardOp.writes past)).take (a, v) := hscan.trans (if_pos hregion)
    refine ⟨h.prg_eq, htake ▸ h.isOpen.take (a, v), ?_, h.ram.skip (by omega) v,
      h.cartRam.skip (fun _ => by omega) v⟩
    rw [htake, ← h.isOpen.feed_banks, ← h.banks]

theorem Holds.after (h : b.Holds prg hasRam []) (past : List BoardOp) :
    ∃ b', (Board.mmc1 b).after past = .mmc1 b' ∧ b'.Holds prg hasRam past := by
  induction past with
  | nil => exact ⟨b, rfl, h⟩
  | cons op past ih =>
    obtain ⟨b', hafter, hholds⟩ := ih
    cases op with
    | write a v => exact ⟨b'.write a v, by rw [Board.after, hafter]; rfl, hholds.write a v⟩
    | clearRam => exact ⟨b'.clearRam, by rw [Board.after, hafter]; rfl, hholds.clearRam⟩

theorem locate_of_ram (b : Mmc1) {address : UInt16} (h : address.toNat < 0x8000) :
    b.locate address = .ok (.ofRam address) :=
  if_pos (UInt16.lt_iff_toNat_lt.mpr h)

theorem Holds.answers (h : b.Holds prg hasRam past) (address : UInt16) :
    (Board.mmc1 b).Answers (.mmc1 prg hasRam) past address := by
  have hregion := Region.of_spec address
  cases hof : Region.of address <;> rw [hof] at hregion <;> dsimp only at hregion
  case workRam =>
    refine Board.answers_of_workRam rfl hof h.ram ?_ (locate_of_ram b (by omega)) ?_
    · simp only [Board.read, Mmc1.read, hof]
    · simp only [Board.store?, hof]
  case openBus =>
    refine Board.answers_of_openBus rfl hof ?_ (locate_of_ram b (by omega)) ?_
    · simp only [Board.read, Mmc1.read, hof, openBus]
    · simp only [Board.store?, hof]
  case cartRam =>
    have hlocate := locate_of_ram b (by omega : address.toNat < 0x8000)
    cases henabled : b.banks.hasRam with
    | true =>
      refine Board.answers_of_cartRam rfl hof h.cartRam ?_ hlocate ?_
      · simp only [Board.read, Mmc1.read, hof, henabled, if_true]
      · simp only [Board.store?, hof, henabled, if_true]
    | false =>
      refine Board.answers_of_disabled rfl hof (h.hasRam_eq.symm.trans henabled) ?_ hlocate ?_
      · simp [Board.read, Mmc1.read, hof, henabled, openBus]
      · simp [Board.store?, hof, henabled]
  case cartRom =>
    have hread := b.read_of_rom hregion
    have hlocate := b.locate_of_rom hregion
    by_cases hinside : b.romOffset address < b.prg.size
    · rw [dif_pos hinside] at hread
      rw [if_pos hinside] at hlocate
      refine Board.answers_of_cartRom rfl hof ?_ hread hlocate ?_
      · rw [← h.prg_eq]
        exact Array.getElem?_eq_getElem hinside
      · simp only [Board.store?, hof, h.prg_eq]
    · rw [dif_neg hinside] at hread
      rw [if_neg hinside] at hlocate
      exact Board.answers_of_error hread hlocate

end Mmc1

/-! ## Flat memory -/

namespace Flat

theorem getElem?_memory (b : Flat) (address : UInt16) :
    b.memory.toArray[address.toNat]? = some (b.read address) := by
  simp [read, Vector.get]

/-- A write is seen at its address and nowhere else. -/
theorem read_write (b : Flat) (a address : UInt16) (v : UInt8) :
    (b.write a v).read address = if a = address then v else b.read address := by
  have hlt := address.toNat_lt
  change (b.memory.set a.toNat v a.toNat_lt)[address.toNat] = _
  rw [Vector.getElem_set]
  by_cases h : a = address
  · simp [h]
  · simp [h, mt UInt16.toNat_inj.mp h]
    rfl

/-- Flat memory shows the last write to each address over its image, and clearing changes
nothing. -/
theorem after_spec (b : Flat) (past : List BoardOp) :
    ∃ b', (Board.flat b).after past = .flat b' ∧ ∀ address, some (b'.read address) =
      (BoardOp.lastValue? past address).or b.memory.toArray[address.toNat]? := by
  induction past with
  | nil => exact ⟨b, rfl, fun address => (b.getElem?_memory address).symm⟩
  | cons op past ih =>
    obtain ⟨b', hafter, hread⟩ := ih
    cases op with
    | clearRam => exact ⟨b', by rw [Board.after, hafter]; rfl, hread⟩
    | write a v =>
      refine ⟨b'.write a v, by rw [Board.after, hafter]; rfl, fun address => ?_⟩
      rw [read_write]
      by_cases h : a = address
      · simp [BoardOp.lastValue?, BoardOp.writes, List.filter_append, h]
      · rw [if_neg h, hread address]
        simp [BoardOp.lastValue?, BoardOp.writes, List.filter_append, h]

/-- Flat memory answers with the last byte written, by induction on the history. -/
theorem answers_after (b : Flat) (past : List BoardOp) (address : UInt16) :
    ((Board.flat b).after past).Answers (.flat b.memory.toArray) past address := by
  obtain ⟨b', hafter, hread⟩ := b.after_spec past
  rw [hafter]
  refine Board.answers_of_ok rfl rfl (hread address).symm rfl ?_
  rintro bytes ⟨⟩
  exact b'.getElem?_memory address

end Flat

/-- Every address of every board answers as the history of the board demands: RAM with what was last
written to the cell since it was cleared, ROM with the unchanged byte at the located offset, flat
memory with the last write or its image. Reading fails where locating does, with the same error,
and the located offset is that of the byte read in the store behind the address. -/
theorem board_after_answers (origin : Origin) (b : Board) (hboard : origin.board = .ok b)
    (past : List BoardOp) (address : UInt16) : (b.after past).Answers origin past address := by
  cases origin with
  | nrom prg hasRam =>
    cases hbuilt : Nrom.ofImage prg hasRam with
    | error e => simp [Origin.board, hbuilt, Except.map] at hboard
    | ok start =>
      simp only [Origin.board, hbuilt, Except.map, Except.ok.injEq] at hboard
      subst hboard
      obtain ⟨now, hafter, hholds⟩ := (Nrom.holds_ofImage hbuilt).after past
      rw [hafter]
      exact hholds.answers address
  | mmc1 prg hasRam =>
    cases hbuilt : Mmc1.ofImage prg hasRam with
    | error e => simp [Origin.board, hbuilt, Except.map] at hboard
    | ok start =>
      simp only [Origin.board, hbuilt, Except.map, Except.ok.injEq] at hboard
      subst hboard
      obtain ⟨now, hafter, hholds⟩ := (Mmc1.holds_ofImage hbuilt).after past
      rw [hafter]
      exact hholds.answers address
  | flat image =>
    by_cases hsize : image.size = flatSize
    · rw [Origin.board, Flat.ofImage, dif_pos hsize] at hboard
      cases hboard
      exact Flat.answers_after ⟨⟨image, hsize⟩⟩ past address
    · rw [Origin.board, Flat.ofImage, dif_neg hsize] at hboard
      cases hboard

/-- Cartridge RAM drops a write, is enabled by a group of five bits that a work RAM write
interrupts, and keeps the next write. -/
theorem board_after_answers_enabling :
    ∃ b, (Origin.mmc1 (Array.replicate 0x4000 0) false).board = .ok b ∧
      ∀ past, past = [.write 0x7FFF 0x42, .write 0xE000 1, .write 0xE000 0, .write 0x1802 9,
          .write 0xE000 0, .write 0xE000 0, .write 0x8000 0, .write 0x7FFF 0x11] →
        (b.after past).Answers (.mmc1 (Array.replicate 0x4000 0) false) past 0x7FFF ∧
        (Origin.mmc1 (Array.replicate 0x4000 0) false).byte? past 0x7FFF 0x1FFF = some 0x42 ∧
        (b.after past).Answers (.mmc1 (Array.replicate 0x4000 0) false) past 0x0002 ∧
        (Origin.mmc1 (Array.replicate 0x4000 0) false).byte? past 0x0002 2 = some 9 := by
  obtain ⟨start, hbuilt⟩ : ∃ start, Mmc1.ofImage (Array.replicate 0x4000 0) false = .ok start :=
    ⟨_, dif_pos ⟨by simp, by simp⟩⟩
  have hboard : (Origin.mmc1 (Array.replicate 0x4000 0) false).board = .ok (.mmc1 start) := by
    rw [Origin.board, hbuilt, Except.map]
  refine ⟨.mmc1 start, hboard, ?_⟩
  rintro past rfl
  exact ⟨board_after_answers _ _ hboard _ _, by decide, board_after_answers _ _ hboard _ _,
    by decide⟩

end Mos6502
