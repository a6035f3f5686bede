import Mos6502.Proofs.Restore

/-!
# Restores that fail

A restore that fails leaves the board as it was, with one exception. The board without bank
switching puts the cartridge RAM of a snapshot back before it looks at the work RAM, so when only
the work RAM does not fit, the cartridge RAM has been replaced (`failed_restore_keeps_board_iff`).
-/

namespace Mos6502

namespace Nrom

variable {b b' : Nrom} {e : BoardError}

/-- The size of the work RAM is compared before anything is copied. -/
theorem restoreRam_eq_error {saved : Array UInt8} (h : restoreRam saved b = .error e b') :
    b' = b ∧ saved.size ≠ workRamSize := by
  unfold restoreRam at h
  split at h
  next => cases h
  next hnone =>
    cases h
    refine ⟨rfl, fun hsize => ?_⟩
    rw [WorkRam.ofBytes?, dif_pos hsize] at hnone
    cases hnone

/-- The two cartridge RAMs are compared before anything is copied. -/
theorem restoreCartRam_eq_error {saved : Option (Array UInt8)}
    (h : restoreCartRam saved b = .error e b') :
    b' = b ∧ saved.map Array.size ≠ b.cartRam.map fun _ => cartRamSize := by
  unfold restoreCartRam at h
  split at h
  next live bytes hlive =>
    split at h
    next => cases h
    next hnone =>
      cases h
      refine ⟨rfl, fun hsize => ?_⟩
      rw [hlive] at hsize
      rw [CartRam.ofBytes?, dif_pos (Option.some.inj hsize)] at hnone
      cases hnone
  next => cases h
  next live hlive => cases h; exact ⟨rfl, by simp [hlive]⟩
  next bytes hlive => cases h; exact ⟨rfl, by simp [hlive]⟩

/-- A restore fails in its first part, and then nothing has happened, or in its second. -/
theorem restore_eq_error {ram : Array UInt8} {cartRam : Option (Array UInt8)}
    (h : restore ram cartRam b = .error e b') :
    b' = b ∧ (cartRam.map Array.size ≠ b.cartRam.map fun _ => cartRamSize) ∨
      ram.size ≠ workRamSize ∧ restoreCartRam cartRam b = .ok () b' := by
  cases hcart : restoreCartRam cartRam b with
  | error e₁ b₁ =>
    rw [restore, bind_of_error hcart] at h
    cases h
    exact .inl (restoreCartRam_eq_error hcart)
  | ok u b₁ =>
    rw [restore, bind_of_ok hcart] at h
    obtain ⟨rfl, hsize⟩ := restoreRam_eq_error h
    exact .inr ⟨hsize, rfl⟩

end Nrom

/-- Both sizes are compared first on a board with banks, so a failure has changed nothing. -/
theorem Mmc1.restore_eq_error {b b' : Mmc1} {banks : BankConfig} {ram cartRam : Array UInt8}
    {e : BoardError} (h : restore banks ram cartRam b = .error e b') : b' = b := by
  unfold restore at h
  split at h <;> cases h <;> rfl

theorem Flat.restore_eq_error {b b' : Flat} {memory : Array UInt8} {e : BoardError}
    (h : restore memory b = .error e b') : b' = b := by
  unfold restore at h
  split at h <;> cases h
  rfl

/-- Putting the snapshot back fails at the work RAM, behind cartridge RAM that fits and differs from
what is there. -/
def Snapshot.Spoils (s : Snapshot) (b : Board) : Prop :=
  match b, s with
  | .nrom b, .nrom ram cartRam =>
    ram.size ≠ workRamSize ∧ (cartRam.map Array.size = b.cartRam.map fun _ => cartRamSize) ∧
      cartRam ≠ b.cartRam.map (·.bytes.toArray)
  | _, _ => False

namespace Board

/-- A board fails as its own kind does. -/
theorem restoreAs_eq_error {β : Type} {wrap : β → Board} {b : β} {act : EStateM BoardError β Unit}
    {e : BoardError} {b' : Board} :
    restoreAs wrap b act = .error e b' ↔ ∃ c, act b = .error e c ∧ wrap c = b' := by
  unfold restoreAs
  cases act b with
  | ok u c => simp
  | error e' c => simp [and_comm, eq_comm]

/-- On a board without banks the cartridge RAM is copied before the work RAM is compared, and a
failure of the second comes too late for the first. -/
theorem spoiled_nrom {n : Nrom} {b' : Board} {ram : Array UInt8} {cartRam : Option (Array UInt8)}
    {e : BoardError} (hfail : restore (.nrom ram cartRam) (nrom n) = .error e b') :
    (b' = nrom n ↔ ¬ (Snapshot.nrom ram cartRam).Spoils (nrom n)) ∧
      ((Snapshot.nrom ram cartRam).Spoils (nrom n) →
        (nrom n).SameCartridge b' ∧ b'.snapshot = .nrom n.ram.bytes.toArray cartRam) := by
  obtain ⟨n', hnrom, rfl⟩ := restoreAs_eq_error.mp hfail
  rcases Nrom.restore_eq_error hnrom with ⟨rfl, hcart⟩ | ⟨hram, hcart⟩
  · have hspares : ¬ (Snapshot.nrom ram cartRam).Spoils (nrom n') := fun h => hcart h.2.1
    exact ⟨iff_of_true rfl hspares, fun h => absurd h hspares⟩
  · obtain ⟨hprg, hold, hsome, hnew⟩ := Nrom.restoreCartRam_eq_ok.mp hcart
    have hsame : (nrom n).SameCartridge (nrom n') := ⟨hprg, hsome⟩
    have hshown : (nrom n').snapshot = .nrom n.ram.bytes.toArray cartRam := by
      rw [snapshot, hold, hnew]
    refine ⟨⟨?_, fun hspares => ?_⟩, fun _ => ⟨hsame, hshown⟩⟩
    · rintro heq ⟨-, -, hdiffers⟩
      cases heq
      exact hdiffers hnew.symm
    · -- The cartridge RAM has been replaced by itself.
      have hfits := hsame.fits.2
      rw [hnew] at hfits
      have hsaved : cartRam = n.cartRam.map (·.bytes.toArray) := by
        by_contra hdiffers
        exact hspares ⟨hram, hfits, hdiffers⟩
      have hback : Nrom.restoreCartRam cartRam n = .ok () n :=
        Nrom.restoreCartRam_eq_ok.mpr ⟨rfl, rfl, rfl, hsaved.symm⟩
      cases hback.symm.trans hcart
      rfl

/-- Only on a board without bank switching can a restore that fails have changed anything. -/
theorem restore_eq_error {b b' : Board} {s : Snapshot} {e : BoardError}
    (h : restore s b = .error e b') :
    (b' = b ∧ ¬ s.Spoils b) ∨ ∃ n ram cartRam, b = nrom n ∧ s = .nrom ram cartRam := by
  cases b with
  | nrom b =>
    cases s with
    | nrom ram cartRam => exact .inr ⟨b, ram, cartRam, rfl, rfl⟩
    | mmc1 banks ram cartRam => cases h; exact .inl ⟨rfl, id⟩
    | flat memory => cases h; exact .inl ⟨rfl, id⟩
  | mmc1 b =>
    cases s with
    | mmc1 banks ram cartRam =>
      obtain ⟨c, hmmc1, rfl⟩ := restoreAs_eq_error.mp h
      exact .inl ⟨congrArg mmc1 (Mmc1.restore_eq_error hmmc1), id⟩
    | nrom ram cartRam => cases h; exact .inl ⟨rfl, id⟩
    | flat memory => cases h; exact .inl ⟨rfl, id⟩
  | flat b =>
    cases s with
    | flat memory =>
      obtain ⟨c, hflat, rfl⟩ := restoreAs_eq_error.mp h
      exact .inl ⟨congrArg flat (Flat.restore_eq_error hflat), id⟩
    | nrom ram cartRam => cases h; exact .inl ⟨rfl, id⟩
    | mmc1 banks ram cartRam => cases h; exact .inl ⟨rfl, id⟩

/-- A restore fails exactly where the snapshot does not fit. It then leaves the board alone, unless
it fails at the work RAM of a board without bank switching and the snapshot's cartridge RAM differs
from the board's: that has been put back, and nothing else. -/
theorem failed_restore_keeps_board_iff (b : Board) (s : Snapshot) :
    match restore s b with
    | .ok _ _ => s.Fits b
    | .error _ b' => ¬ s.Fits b ∧ (b' = b ↔ ¬ s.Spoils b) ∧
        (s.Spoils b → b.SameCartridge b' ∧ ∃ ram saved live unfit,
          b.snapshot = .nrom ram live ∧ s = .nrom unfit saved ∧ b'.snapshot = .nrom ram saved) := by
  have hfits := exists_restore_iff b s
  cases hrestore : restore s b with
  | ok u b' => exact hfits.mp ⟨b', hrestore⟩
  | error e b' =>
    have hunfit : ¬ s.Fits b := by
      intro h
      obtain ⟨c, hok⟩ := hfits.mpr h
      cases hok.symm.trans hrestore
    rcases restore_eq_error hrestore with ⟨rfl, hspares⟩ | ⟨n, ram, cartRam, rfl, rfl⟩
    · exact ⟨hunfit, iff_of_true rfl hspares, fun h => absurd h hspares⟩
    · obtain ⟨hkeeps, hspoils⟩ := spoiled_nrom hrestore
      refine ⟨hunfit, hkeeps, fun h => ⟨(hspoils h).1, _, cartRam, _, ram, rfl, rfl, ?_⟩⟩
      exact (hspoils h).2

theorem restore_of_unfit_ram {n : Nrom} {live saved : CartRam} {ram : Array UInt8}
    (hlive : n.cartRam = some live) (hram : ram.size ≠ workRamSize) :
    restore (.nrom ram (some saved.bytes.toArray)) (nrom n) =
      .error (.stateRamSize workRamSize ram.size) (nrom { n with cartRam := some saved }) := by
  have hcart : Nrom.restoreCartRam (some saved.bytes.toArray) n =
      .ok () { n with cartRam := some saved } :=
    Nrom.restoreCartRam_eq_ok.mpr ⟨rfl, rfl, by rw [hlive]; rfl, rfl⟩
  refine restoreAs_eq_error.mpr ⟨_, ?_, rfl⟩
  rw [Nrom.restore, bind_of_ok hcart, Nrom.restoreRam, WorkRam.ofBytes?, dif_neg hram]

/-- Where only the work RAM of a snapshot does not fit, the restore fails and its cartridge RAM is
on the board all the same. -/
theorem failed_restore_replaces_cartRam :
    let b : Nrom := ⟨Array.replicate 0x4000 0, .zeros, some .zeros, .inl Array.size_replicate⟩
    let saved : CartRam := ⟨Vector.replicate cartRamSize 0xA5⟩
    ∃ b', restore (.nrom #[] (some saved.bytes.toArray)) (nrom b) =
        .error (.stateRamSize workRamSize 0) b' ∧
      (nrom b).read 0x6000 = .ok 0 ∧ b'.read 0x6000 = .ok 0xA5 := by
  intro b saved
  refine ⟨nrom { b with cartRam := some saved }, restore_of_unfit_ram rfl (by decide), ?_, ?_⟩
  · decide +kernel
  · decide +kernel

end Board

end Mos6502
