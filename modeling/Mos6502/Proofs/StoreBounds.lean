import Mos6502.Proofs.BareStores
import Mos6502.Proofs.CartridgeImages

/-!
# Accesses stay inside their stores

Seen as bare stores, a board has no fault, whatever it was built from and whatever calls were made
of it: what a call needs of the sizes and the bank registers is kept by every call, by a restore
that fails or fails half-way as well (`accesses_stay_inside`). Of the snapshots that are put back
only the count of bits must be one that the port can have; the bank registers may name any bank.
-/

namespace Mos6502

/-- The snapshot does not count the bits of a full group. -/
def Snapshot.CountFits : Snapshot → Prop
  | mmc1 banks _ _ => banks.shiftCount ≤ 4
  | nrom .. | flat _ => True

namespace Board

variable {b : Board}

/-! ## What is kept -/

/-- Writes do not change the size of an image. -/
theorem InWords.write (h : b.InWords) (address : UInt16) (v : UInt8) :
    (b.write address v).InWords := by
  cases b with
  | nrom b => trivial
  | mmc1 b =>
    refine ⟨by rw [b.prg_write address v]; exact h.1, ?_⟩
    unfold Mmc1.write
    split
    · exact h.2
    · exact h.2
    · split <;> exact h.2
    · exact BankConfig.shiftCount_feed h.2 address v
  | flat b => trivial

theorem InWords.clearRam (h : b.InWords) : b.clearRam.InWords := by
  cases b with
  | nrom b => trivial
  | mmc1 b => exact h
  | flat b => trivial

/-- A restore replaces all bank registers or none. -/
theorem InWords.restore (h : b.InWords) {s : Snapshot} (hs : s.CountFits) :
    (finalState (b.restore s)).InWords := by
  cases b with
  | nrom b =>
    cases s with
    | nrom ram cartRam => rw [Board.restore, finalState_restoreAs]; trivial
    | mmc1 banks ram cartRam => trivial
    | flat memory => trivial
  | mmc1 b =>
    cases s with
    | nrom ram cartRam => exact h
    | mmc1 banks ram cartRam =>
      rw [Board.restore, finalState_restoreAs]
      unfold Mmc1.restore
      split
      · exact ⟨h.1, hs⟩
      · exact h
      · exact h
    | flat memory => exact h
  | flat b =>
    cases s with
    | nrom ram cartRam => trivial
    | mmc1 banks ram cartRam => trivial
    | flat memory => rw [Board.restore, finalState_restoreAs]; trivial

end Board

/-! ## Any number of calls -/

inductive BoardCall where
  | read (address : UInt16)
  | write (address : UInt16) (v : UInt8)
  | locate (address : UInt16)
  | clearRam
  | restore (s : Snapshot)

inductive BoardAnswer where
  | byte (answer : Except BoardError UInt8)
  | place (answer : Except BoardError Location)
  | restored (answer : Except BoardError Unit)
  | done

namespace BoardCall

def act : BoardCall → StateM Board BoardAnswer
  | read address => fun b => (.byte (b.read address), b)
  | write address v => fun b => (.done, b.write address v)
  | locate address => fun b => (.place (b.locate address), b)
  | clearRam => fun b => (.done, b.clearRam)
  | restore s => fun b => (outcome (b.restore s)).map .restored id

/-- The same call on bare stores, with a fault on the way or not. -/
def rawAct : BoardCall → StateT RawBoard Option BoardAnswer
  | read address => fun b => do return (.byte (← b.read? address), b)
  | write address v => fun b => do return (.done, ← b.write? address v)
  | locate address => fun b => do return (.place (← b.locate? address), b)
  | clearRam => fun b => some (.done, b.clearRam)
  | restore s => fun b => do return (← b.restore? s).map .restored id

/-- A snapshot that the call puts back does not count the bits of a full group. -/
def CountFits : BoardCall → Prop
  | restore s => s.CountFits
  | read _ | write .. | locate _ | clearRam => True

variable {call : BoardCall} {b : Board}

/-- On the raw stores every call finds its index in bounds, and does what it does on the board. -/
theorem rawAct_raw (call : BoardCall) (h : b.InWords) :
    call.rawAct b.raw = some ((call.act b).map id Board.raw) := by
  cases call with
  | read address => simp [rawAct, act, h.read?_raw]
  | write address v => simp [rawAct, act, h.write?_raw]
  | locate address => simp [rawAct, act, h.locate?_raw]
  | clearRam => simp [rawAct, act, b.clearRam_raw]
  | restore s =>
    simp only [rawAct, act, b.restore?_raw, Option.bind_eq_bind, Option.bind_some, Option.pure_def]
    rfl

theorem inWords_act (hcall : call.CountFits) (h : b.InWords) : (call.act b).2.InWords := by
  cases call with
  | read address => exact h
  | write address v => exact h.write address v
  | locate address => exact h
  | clearRam => exact h.clearRam
  | restore s =>
    change (outcome (b.restore s)).2.InWords
    rw [snd_outcome]
    exact h.restore hcall

theorem sameCartridge_act (call : BoardCall) (b : Board) : b.SameCartridge (call.act b).2 := by
  cases call with
  | read address => exact refl b
  | write address v => exact b.sameCartridge_write address v
  | locate address => exact refl b
  | clearRam => exact b.sameCartridge_clearRam
  | restore s =>
    change b.SameCartridge (outcome (b.restore s)).2
    rw [snd_outcome]
    exact Board.leaves_restore s b

/-- On bare stores a run of calls has no fault, and answers what the board answers. -/
theorem mapM_rawAct_raw {calls : List BoardCall} (hcalls : ∀ call ∈ calls, call.CountFits)
    (h : b.InWords) :
    ∃ answers b', calls.mapM act b = (answers, b') ∧
      calls.mapM rawAct b.raw = some (answers, b'.raw) ∧ b'.InWords ∧ b.SameCartridge b' := by
  induction calls generalizing b with
  | nil => exact ⟨[], b, rfl, rfl, h, refl b⟩
  | cons call calls ih =>
    rw [List.forall_mem_cons] at hcalls
    have hstep := rawAct_raw call h
    have hmiddle := inWords_act hcalls.1 h
    have hfirst := sameCartridge_act call b
    cases hact : call.act b with
    | mk answer middle =>
      rw [hact] at hstep hmiddle hfirst
      obtain ⟨answers, b', hrest, hraw, hwords, hsame⟩ := ih hcalls.2 hmiddle
      refine ⟨answer :: answers, b', ?_, ?_, hwords, IsTrans.trans _ _ _ hfirst hsame⟩
      · simp only [List.mapM_cons, bind, StateT.bind, hact, hrest]
        rfl
      · simp only [List.mapM_cons, bind, StateT.bind, hstep, Option.bind_some, Prod.map, id, hraw]
        rfl

end BoardCall

/-! ## Built boards -/

/-- The size of an image for the board with bank registers is a word. -/
def Origin.FitsWord : Origin → Prop
  | mmc1 prg _ => prg.size < 2 ^ 32
  | nrom .. | flat _ => True

inductive Board.Built : Board → Prop where
  /-- Around an image of a size that the kind of board takes. -/
  | image {origin : Origin} {b : Board} : origin.board = .ok b → origin.FitsWord → Built b
  /-- Around a program in memory that is zero otherwise. -/
  | program (base : UInt16) (code : List UInt8) : Built (.flat (.ofProgram base code))
  /-- From a cartridge image. -/
  | cartridge {data : Array UInt8} {b : Board} : Cartridge.load data = .ok b → Built b

/-- A board made from an image of this size is within words. -/
theorem Origin.inWords_of_board {origin : Origin} {b : Board} (hboard : origin.board = .ok b)
    (hword : origin.FitsWord) : b.InWords := by
  cases origin with
  | nrom prg hasRam =>
    cases hbuilt : Nrom.ofImage prg hasRam <;> rw [board, hbuilt] at hboard <;> cases hboard
    trivial
  | flat image =>
    cases hbuilt : Flat.ofImage image <;> rw [board, hbuilt] at hboard <;> cases hboard
    trivial
  | mmc1 prg hasRam =>
    cases hbuilt : Mmc1.ofImage prg hasRam <;> rw [board, hbuilt] at hboard <;> cases hboard
    obtain ⟨hprg, hbanks, -, -⟩ := Mmc1.eq_of_ofImage hbuilt
    refine ⟨by rw [hprg]; exact hword, ?_⟩
    rw [hbanks]
    exact UInt8.zero_le

namespace CartridgeImage

/-- A header can name at most 255 banks. -/
theorem size_rom_lt (data : Array UInt8) : (rom data).size < 2 ^ 32 := by
  have hbanks := (byteAt data 4).toNat_lt
  rw [rom, Array.size_extract]
  unfold romEnd romSize
  omega

/-- A file that was loaded gives such a board: its header cannot promise more. -/
theorem Describes.inWords {data : Array UInt8} {b : Board} (h : Describes data b) : b.InWords := by
  cases b with
  | nrom b => trivial
  | flat b => trivial
  | mmc1 b =>
    have hprg : b.prg = CartridgeImage.rom data := Option.some.inj h.rom
    refine ⟨by rw [hprg]; exact size_rom_lt data, ?_⟩
    have hsnapshot := h.snapshot
    by_cases hid : mapperId data = 0
    · rw [if_pos hid] at hsnapshot
      cases hsnapshot
    · rw [if_neg hid] at hsnapshot
      have hbanks : b.banks = .powerOn true := (Snapshot.mmc1.inj hsnapshot).1
      rw [hbanks]
      exact UInt8.zero_le

end CartridgeImage

/-- Every board that was built is within words. -/
theorem Board.Built.inWords {b : Board} (h : b.Built) : b.InWords := by
  cases h with
  | image hboard hword => exact Origin.inWords_of_board hboard hword
  | program base code => trivial
  | @cartridge data _ hload =>
    obtain ⟨e, -, hrefused⟩ | ⟨-, b', hloaded, hdescribes⟩ := CartridgeImage.load_cases data
    · cases hload.symm.trans hrefused
    · cases hload.symm.trans hloaded
      exact hdescribes.inWords

/-- The stores have the sizes of the chips, and at every address the next access does to them what
the board does, without a fault. The place that the board finds for an address lies in the store
behind it. -/
structure Board.Inside (b : Board) : Prop where
  sized : b.raw.Sized
  read : ∀ address, b.raw.read? address = some (b.read address)
  write : ∀ address v, b.raw.write? address v = some (b.write address v).raw
  locate : ∀ address, b.raw.locate? address = some (b.locate address)
  place : ∀ address place store, b.locate address = .ok place →
    b.raw.store? address = some store → place.offset < store.size

/-! ## Places -/

namespace Location

variable {address : UInt16}

/-- Work RAM is mirrored into its own size. -/
theorem offset_ofRam_of_workRam (hof : Region.of address = .workRam) :
    (ofRam address).offset < workRamSize := by
  rw [ofRam, hof]
  exact (WorkRam.index address).isLt

/-- Cartridge RAM fills its window. -/
theorem offset_ofRam_of_cartRam (hof : Region.of address = .cartRam) :
    (ofRam address).offset < cartRamSize := by
  rw [ofRam, hof]
  exact (CartRam.index address).isLt

end Location

/-- Without banks each offset lies inside the store it belongs to. -/
theorem Nrom.offset_lt (b : Nrom) {address : UInt16} {store : Array UInt8}
    (hstore : (Board.nrom b).raw.store? address = some store) :
    (b.locate address).offset < store.size := by
  have hregion := Region.of_spec address
  cases hof : Region.of address <;> rw [hof] at hregion <;>
    simp only [Board.raw, RawBoard.store?, hof] at hstore
  case workRam =>
    cases hstore
    rw [b.locate_of_ram (by omega), Vector.size_toArray]
    exact Location.offset_ofRam_of_workRam hof
  case openBus => cases hstore
  case cartRam =>
    obtain ⟨ram, -, rfl⟩ := Option.map_eq_some_iff.mp hstore
    rw [b.locate_of_ram (by omega), Vector.size_toArray]
    exact Location.offset_ofRam_of_cartRam hof
  case cartRom =>
    cases hstore
    rw [b.locate_of_rom hregion]
    exact (b.romIndex address).isLt

/-- With banks an offset that was given lies inside the store it belongs to. -/
theorem Mmc1.offset_lt (b : Mmc1) {address : UInt16} {place : Location} {store : Array UInt8}
    (hplace : b.locate address = .ok place)
    (hstore : (Board.mmc1 b).raw.store? address = some store) : place.offset < store.size := by
  have hregion := Region.of_spec address
  cases hof : Region.of address <;> rw [hof] at hregion <;>
    simp only [Board.raw, RawBoard.store?, hof] at hstore
  case workRam =>
    cases hstore
    cases hplace.symm.trans (b.locate_of_ram (by omega))
    rw [Vector.size_toArray]
    exact Location.offset_ofRam_of_workRam hof
  case openBus => cases hstore
  case cartRam =>
    cases hstore
    cases hplace.symm.trans (b.locate_of_ram (by omega))
    rw [Vector.size_toArray]
    exact Location.offset_ofRam_of_cartRam hof
  case cartRom =>
    cases hstore
    rw [b.locate_of_rom hregion] at hplace
    split at hplace
    next hinside => cases hplace; exact hinside
    next => cases hplace

theorem Board.InWords.inside {b : Board} (h : b.InWords) : b.Inside where
  sized := b.sized_raw
  read := h.read?_raw
  write := h.write?_raw
  locate := h.locate?_raw
  place address place store hplace hstore := by
    cases b with
    | nrom b => cases hplace; exact b.offset_lt hstore
    | mmc1 b => exact b.offset_lt hplace hstore
    | flat b =>
      cases hplace
      cases hstore
      rw [Vector.size_toArray]
      exact address.toNat_lt

/-- However a board was built, and whatever calls were made of it since, snapshots that fit, fail or
fail half-way among them, no access leaves its store: the calls go through on bare stores, with the
answers of the board; the cartridge is still the one that was built; and at every address the next
access goes through too. -/
theorem accesses_stay_inside {b : Board} (hbuilt : b.Built) {calls : List BoardCall}
    (hcalls : ∀ call ∈ calls, call.CountFits) :
    ∃ answers b', calls.mapM BoardCall.act b = (answers, b') ∧
      calls.mapM BoardCall.rawAct b.raw = some (answers, b'.raw) ∧ b.SameCartridge b' ∧
        b'.Inside := by
  obtain ⟨answers, b', hact, hraw, hwords, hsame⟩ :=
    BoardCall.mapM_rawAct_raw hcalls hbuilt.inWords
  exact ⟨answers, b', hact, hraw, hsame, hwords.inside⟩

/-- Bank registers full of ones, as no sequence of writes leaves them. The group lacks one bit. -/
def BankConfig.saturated : BankConfig where
  mirroring := 0xFF
  prgMode := 0xFF
  chrMode := 0xFF
  chrBank0 := 0xFF
  chrBank1 := 0xFF
  prgBank := 0xFF
  hasRam := true
  shift := 0xFF
  shiftCount := 4

/-- Bank registers that name no bank of the image are put back and stay through two restores that
fail. The read fails with the offset it would have gone to. -/
theorem accesses_stay_inside_behind_restores :
    let calls : List BoardCall :=
      [.restore (.mmc1 .saturated WorkRam.zeros.bytes.toArray CartRam.zeros.bytes.toArray),
        .restore (.flat #[]), .restore (.mmc1 (.powerOn true) #[] #[]), .clearRam, .read 0x8000]
    ∃ b b' : Board, (Origin.mmc1 (Array.replicate 0x4000 0) false).board = .ok b ∧
      calls.mapM BoardCall.rawAct b.raw =
        some ([.restored (.ok ()), .restored (.error (.stateMismatch .mmc1)),
          .restored (.error (.stateRamSize 0x2000 0)), .done,
          .byte (.error (.offsetOutOfRange 0x8000 0x3FC000 0x4000 .saturated))], b'.raw) ∧
        b'.Inside := by
  intro calls
  obtain ⟨start, hbuilt⟩ : ∃ start, Mmc1.ofImage (Array.replicate 0x4000 0) false = .ok start :=
    ⟨_, dif_pos ⟨by simp, by simp⟩⟩
  have hboard : (Origin.mmc1 (Array.replicate 0x4000 0) false).board = .ok (.mmc1 start) := by
    rw [Origin.board, hbuilt, Except.map]
  have hword : (Array.replicate 0x4000 (0 : UInt8)).size < 2 ^ 32 := by simp
  have hcounts : ∀ call ∈ calls, call.CountFits := by
    simp [calls, BoardCall.CountFits, Snapshot.CountFits, BankConfig.saturated, BankConfig.powerOn]
  obtain ⟨answers, b', hact, hraw, -, hinside⟩ := accesses_stay_inside (.image hboard hword) hcounts
  refine ⟨.mmc1 start, b', hboard, ?_, hinside⟩
  -- Only the first restore changes anything, so this board stays.
  let restored : Mmc1 := { start with banks := .saturated, ram := .zeros, cartRam := .zeros }
  have hread : restored.read 0x8000 =
      .error (.offsetOutOfRange 0x8000 0x3FC000 0x4000 .saturated) := by
    have hprg : restored.prg.size = 0x4000 := by
      rw [(Mmc1.eq_of_ofImage hbuilt).1, Array.size_replicate]
    have habsent : 1 ≤ BankConfig.saturated.selectedBank 1 (0x8000 : UInt16).toNat := by decide
    have hoffset : bankOffset (BankConfig.saturated.selectedBank 1 (0x8000 : UInt16).toNat) 0x8000 =
        0x3FC000 := by decide
    have hshows := (restored.showsBank (n := 1) hprg (by decide)).absent habsent
    rw [hshows.2, hprg, hoffset]
  have hfits : Board.restore
      (.mmc1 .saturated WorkRam.zeros.bytes.toArray CartRam.zeros.bytes.toArray) (.mmc1 start) =
        .ok () (.mmc1 restored) :=
    Board.restore_eq_ok.mpr ⟨rfl, rfl⟩
  have hkind : Board.restore (.flat #[]) (.mmc1 restored) =
      .error (.stateMismatch .mmc1) (.mmc1 restored) := rfl
  have hshort : Board.restore (.mmc1 (.powerOn true) #[] #[]) (.mmc1 restored) =
      .error (.stateRamSize 0x2000 0) (.mmc1 restored) := rfl
  have hclear : Board.clearRam (.mmc1 restored) = .mmc1 restored := rfl
  have hanswers : (calls.mapM BoardCall.act (.mmc1 start)).1 =
      [.restored (.ok ()), .restored (.error (.stateMismatch .mmc1)),
        .restored (.error (.stateRamSize 0x2000 0)), .done, .byte (restored.read 0x8000)] := by
    simp only [calls, List.mapM_cons, List.mapM_nil, bind, StateT.bind, BoardCall.act, hfits, hkind,
      hshort, hclear, outcome, Prod.map, id]
    rfl
  rw [hact, hread] at hanswers
  rw [hraw, ← hanswers]

end Mos6502
