import Mos6502.Proofs.Coverage
import Mos6502.Proofs.Independence

/-!
# The bytes of the instruction as data

An instruction is not logged as data for reading its own bytes, and the log tells them by their
addresses. Where every offset of ROM lies behind one address only, that is enough: no instruction
makes data of its own bytes (`own_bytes_gain_no_data`). Where an image appears twice, in the two
halves of the window of a small cartridge or in two windows that show the same bank, an instruction
that reads a copy of its own bytes makes them data (`load_of_copy_gains_data`).
-/

namespace Mos6502

/-! ## Images that appear once -/

namespace Board

/-- No two addresses lie at one offset of ROM. -/
def Unmirrored (b : Board) : Prop :=
  ∀ address other offset, b.locate address = .ok ⟨offset, true⟩ →
    b.locate other = .ok ⟨offset, true⟩ → address = other

/-- Flat memory has no image, so nothing of it is mirrored. -/
theorem unmirrored_flat (b : Flat) : (flat b).Unmirrored := by
  intro address other offset haddress hother
  cases haddress
  injection hother with hlocation
  injection hlocation with hoffset
  exact UInt16.toNat_inj.mp hoffset.symm

/-- A board without banks repeats its image over the ROM window. -/
theorem offset_of_nrom {b : Nrom} {address : UInt16} {offset : Nat}
    (h : (nrom b).locate address = .ok ⟨offset, true⟩) :
    0x8000 ≤ address.toNat ∧ address.toNat % b.prg.size = offset := by
  have hrom := UInt16.le_iff_toNat_le.mp (rom_of_locate (b := nrom b) nofun h)
  have hplace : (⟨b.romIndex address, true⟩ : Location) = ⟨offset, true⟩ :=
    (b.locate_of_rom hrom).symm.trans (Except.ok.inj h)
  injection hplace with hoffset
  exact ⟨hrom, hoffset⟩

/-- An image that fills the window is there once. -/
theorem unmirrored_nrom {b : Nrom} (hsize : b.prg.size = 0x8000) : (nrom b).Unmirrored := by
  intro address other offset haddress hother
  obtain ⟨hrom, rfl⟩ := offset_of_nrom haddress
  obtain ⟨hrom', hsame⟩ := offset_of_nrom hother
  have hlt := address.toNat_lt
  have hlt' := other.toNat_lt
  rw [hsize] at hsame
  exact UInt16.toNat_inj.mp (by omega)

/-- On a board with banks the offset is that of the selected bank. -/
theorem offset_of_mmc1 {b : Mmc1} {address : UInt16} {offset : Nat}
    (h : (mmc1 b).locate address = .ok ⟨offset, true⟩) :
    0x8000 ≤ address.toNat ∧ b.romOffset address = offset := by
  have hrom := UInt16.le_iff_toNat_le.mp (rom_of_locate (b := mmc1 b) nofun h)
  have hplace := (b.locate_of_rom hrom).symm.trans h
  split at hplace
  next =>
    injection hplace with hlocation
    injection hlocation with hoffset
    exact ⟨hrom, hoffset⟩
  next => cases hplace

/-- Banks appear once when the two windows show different ones. -/
theorem unmirrored_mmc1 {b : Mmc1} (hbanks : b.romOffset 0x8000 ≠ b.romOffset 0xC000) :
    (mmc1 b).Unmirrored := by
  intro address other offset haddress hother
  obtain ⟨hrom, rfl⟩ := offset_of_mmc1 haddress
  obtain ⟨hrom', hsame⟩ := offset_of_mmc1 hother
  have hlt := address.toNat_lt
  have hlt' := other.toNat_lt
  refine UInt16.toNat_inj.mp ?_
  simp only [Mmc1.romOffset, UInt16.reduceToNat] at hbanks hsame
  unfold bankSize at hbanks hsame
  split_ifs at hbanks hsame <;> omega

end Board

/-! ## Reads of an instruction -/

namespace Episode

variable {α : Type} {during : Option Span} {address : UInt16} {offset : Nat}

/-- Microcode without reads loads nothing. -/
theorem not_loadsAt_of_readFree {p : Microcode α} (h : p.ReadFree) (c : Core) (b : Board) :
    ¬ LoadsAt ⟨during, b, p.transfers c⟩ address offset := by
  induction p generalizing c b with
  | done result => exact not_loadsAt_nil
  | read address next ih => exact h.elim
  | write written value next ih =>
    rw [Microcode.transfers, loadsAt_cons]
    rintro (⟨⟨v, hread⟩, -, -⟩ | hload)
    · cases hread
    · exact ih h _ _ hload
  | inspect next ih => exact ih c.registers (h c.registers) c b
  | assign registers next ih => exact ih h _ b

/-- Where reads come first, banks do not move before a load. -/
theorem LoadsAt.locate_eq {p : Microcode α} (h : p.ReadsFirst) {c : Core}
    (hload : LoadsAt ⟨during, c.board, p.transfers c⟩ address offset) :
    c.board.locate address = .ok ⟨offset, true⟩ := by
  induction p generalizing c with
  | done result => exact absurd hload not_loadsAt_nil
  | read read next ih =>
    rw [Microcode.transfers] at hload
    split at hload
    next v hread =>
      rcases loadsAt_cons.mp hload with ⟨⟨value, heq⟩, -, hlocate⟩ | hrest
      · cases heq
        exact hlocate
      · exact ih v (h v) hrest
    next => exact absurd hload not_loadsAt_nil
  | write written value next ih =>
    rw [Microcode.transfers] at hload
    rcases loadsAt_cons.mp hload with ⟨⟨v, heq⟩, -, -⟩ | hrest
    · cases heq
    -- Nothing is read behind the write, or it goes to RAM and moves no bank.
    rcases h with hfree | ⟨hram, hfirst⟩
    · exact absurd hrest (not_loadsAt_of_readFree hfree _ _)
    · exact (c.board.locate_write hram value address).symm.trans (ih hfirst hrest)
  | inspect next ih => exact ih c.registers (h c.registers) hload
  | assign registers next ih => exact ih (c := { c with registers := registers }) h hload

end Episode

namespace Machine

variable {m m' : Machine}

/-- What a step loads lies where the board that the step begins on has it. -/
theorem Progress.locate_of_loadsAt {e : Episode} {reached : Bool} (h : Progress m e reached m')
    {address : UInt16} {offset : Nat} (hload : e.LoadsAt address offset) :
    m.board.locate address = .ok ⟨offset, true⟩ := by
  cases h with
  | unreadable hfetch => exact absurd hload Episode.not_loadsAt_nil
  | undecoded hfetch hdecode =>
    rw [← List.append_nil [_, _], Episode.loadsAt_fetched Nat.one_pos] at hload
    exact absurd hload Episode.not_loadsAt_nil
  | @unannounced opcode i _ _ _ hfetch hdecode hannounce =>
    rw [← List.append_nil [_, _], Episode.loadsAt_fetched i.size_pos] at hload
    exact absurd hload Episode.not_loadsAt_nil
  | @performed opcode i _ _ hfetch hdecode hannounce =>
    exact ((Episode.loadsAt_fetched i.size_pos opcode).mp hload).locate_eq i.readsFirst_microcode

theorem Progress.board_eq {e : Episode} {reached : Bool} (h : Progress m e reached m') :
    e.board = m.board := by
  cases h <;> rfl

/-- The step makes data of what was not data before. -/
def StepMakesData (m : Machine) (offset : Nat) : Prop :=
  (m.log.usage offset).data = false ∧ ((finalState (step m)).log.usage offset).data = true

/-- A step makes data only of what lies behind an address outside of its instruction. -/
theorem StepMakesData.exists_outside {offset : Nat} (h : m.StepMakesData offset) :
    ∃ other, m.board.locate other = .ok ⟨offset, true⟩ ∧
      ∀ span, m.stepEpisode.during = some span → other ∉ span.addresses := by
  obtain ⟨reached, m', hprogress, -⟩ := step_progress m
  obtain ⟨code, hmarks, -⟩ := gains_step m
  rcases (hmarks.data offset).mp h.2 with hbefore | hloads
  · cases h.1.symm.trans hbefore
  · obtain ⟨-, other, hload⟩ := (loads_singleton m _ offset).mp hloads
    have hlocate := hprogress.locate_of_loadsAt hload
    obtain ⟨earlier, value, later, -, houtside, -⟩ := hload
    exact ⟨other, hlocate, houtside⟩

/-- A step, whether it succeeds or fails, makes data of a byte of its own instruction only where the
board shows that byte behind an address outside of the instruction too. Flat memory, a cartridge of
32 KiB without bank switching, and one whose windows show different banks have no such address. -/
theorem own_bytes_gain_no_data (m : Machine) :
    (∀ address offset, m.stepEpisode.ExecutesAt address offset → m.StepMakesData offset →
      ∃ other, other ≠ address ∧ m.board.locate other = .ok ⟨offset, true⟩ ∧
        ∀ span, m.stepEpisode.during = some span → other ∉ span.addresses) ∧
    (m.board.Unmirrored → ∀ address offset, m.stepEpisode.ExecutesAt address offset →
      ¬ m.StepMakesData offset) ∧
    match m.board with
    | .flat b => (Board.flat b).Unmirrored
    | .nrom b => b.prg.size = 0x8000 → (Board.nrom b).Unmirrored
    | .mmc1 b => b.romOffset 0x8000 ≠ b.romOffset 0xC000 → (Board.mmc1 b).Unmirrored := by
  have hcopy : ∀ address offset, m.stepEpisode.ExecutesAt address offset →
      m.StepMakesData offset → ∃ other, other ≠ address ∧
        m.board.locate other = .ok ⟨offset, true⟩ ∧
          ∀ span, m.stepEpisode.during = some span → other ∉ span.addresses := by
    rintro address offset ⟨span, hduring, hinside, -⟩ hdata
    obtain ⟨other, hlocate, houtside⟩ := hdata.exists_outside
    refine ⟨other, ?_, hlocate, houtside⟩
    rintro rfl
    exact houtside span hduring hinside
  refine ⟨hcopy, fun hunmirrored address offset hown hdata => ?_, ?_⟩
  · obtain ⟨other, hother, hlocate, -⟩ := hcopy address offset hown hdata
    obtain ⟨span, -, -, hplace⟩ := hown
    obtain ⟨reached, m', hprogress, -⟩ := step_progress m
    rw [hprogress.board_eq] at hplace
    exact hother (hunmirrored other address offset hlocate hplace)
  · cases m.board with
    | flat b => exact Board.unmirrored_flat b
    | nrom b => exact Board.unmirrored_nrom
    | mmc1 b => exact Board.unmirrored_mmc1

/-- On a cartridge of 16 KiB, `LDA $C000` at `$8000` reads a copy of its own opcode, which is logged
as code and as data. -/
theorem load_of_copy_gains_data :
    (logging [0xAD, 0x00, 0xC0]).stepEpisode.ExecutesAt 0x8000 0 ∧
      (logging [0xAD, 0x00, 0xC0]).StepMakesData 0 := by
  have hepisode : (logging [0xAD, 0x00, 0xC0]).stepEpisode.during = some ⟨0x8000, 3⟩ ∧
      (logging [0xAD, 0x00, 0xC0]).stepEpisode.board.locate 0x8000 = .ok ⟨0, true⟩ ∧
      ((finalState (step (logging [0xAD, 0x00, 0xC0]))).log.usage 0).data = true := by
    decide +kernel
  obtain ⟨hduring, hplace, hdata⟩ := hepisode
  exact ⟨⟨_, hduring, by decide, hplace⟩, rfl, hdata⟩

end Machine

end Mos6502
