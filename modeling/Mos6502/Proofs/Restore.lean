import Mos6502.Proofs.BankWindows
import Mos6502.Proofs.Calls

/-!
# Snapshots and replay

A snapshot fits a board exactly if it was taken from a board of the same kind and its RAM has the
board's sizes; put back, it is what the board has to show for itself. Nothing that can be done to a
machine exchanges the cartridge, so registers and a snapshot that were saved together can always be
put back together, and from there the machine replies to every sequence of calls as it would have
replied when they were saved (`restore_and_replay`).
-/

namespace Mos6502

/-- The snapshot is one of a board of this kind, and its RAM has the sizes of the board's. -/
def Snapshot.Fits (s : Snapshot) (b : Board) : Prop :=
  match b, s with
  | .nrom b, .nrom ram cartRam =>
    ram.size = workRamSize ∧ cartRam.map Array.size = b.cartRam.map fun _ => cartRamSize
  | .mmc1 _, .mmc1 _ ram cartRam => ram.size = workRamSize ∧ cartRam.size = cartRamSize
  | .flat _, .flat memory => memory.size = flatSize
  | _, _ => False

/-- Boards of one kind around one image, both with cartridge RAM or both without: only what is in
their RAM and their bank registers can differ. -/
def Board.SameCartridge : Board → Board → Prop
  | nrom b, nrom b' => b'.prg = b.prg ∧ b'.cartRam.isSome = b.cartRam.isSome
  | mmc1 b, mmc1 b' => b'.prg = b.prg
  | flat _, flat _ => True
  | _, _ => False

/-! ## Restoring one board -/

theorem WorkRam.ofBytes?_eq_some {bytes : Array UInt8} {ram : WorkRam} :
    ofBytes? bytes = some ram ↔ ram.bytes.toArray = bytes := by
  unfold ofBytes?
  constructor
  · intro h
    split at h
    next => cases h; rfl
    next => cases h
  · rintro rfl
    rw [dif_pos ram.bytes.size_toArray]

theorem CartRam.ofBytes?_eq_some {bytes : Array UInt8} {ram : CartRam} :
    ofBytes? bytes = some ram ↔ ram.bytes.toArray = bytes := by
  unfold ofBytes?
  constructor
  · intro h
    split at h
    next => cases h; rfl
    next => cases h
  · rintro rfl
    rw [dif_pos ram.bytes.size_toArray]

namespace Nrom

variable {b b' : Nrom}

theorem restoreRam_eq_ok {saved : Array UInt8} :
    restoreRam saved b = .ok () b' ↔
      b'.prg = b.prg ∧ b'.cartRam = b.cartRam ∧ b'.ram.bytes.toArray = saved := by
  unfold restoreRam
  constructor
  · intro h
    split at h
    next ram hram => cases h; exact ⟨rfl, rfl, WorkRam.ofBytes?_eq_some.mp hram⟩
    next => cases h
  · rintro ⟨hprg, hcart, hram⟩
    rw [WorkRam.ofBytes?_eq_some.mpr hram]
    cases b'
    cases hprg
    cases hcart
    rfl

theorem restoreCartRam_eq_ok {saved : Option (Array UInt8)} :
    restoreCartRam saved b = .ok () b' ↔
      b'.prg = b.prg ∧ b'.ram = b.ram ∧ b'.cartRam.isSome = b.cartRam.isSome ∧
        b'.cartRam.map (·.bytes.toArray) = saved := by
  unfold restoreCartRam
  constructor
  · intro h
    split at h
    next old bytes hold =>
      split at h
      next ram hram =>
        cases h
        exact ⟨rfl, rfl, by rw [hold]; rfl, congrArg some (CartRam.ofBytes?_eq_some.mp hram)⟩
      next => cases h
    next hnone => cases h; exact ⟨rfl, rfl, rfl, by rw [hnone]; rfl⟩
    next => cases h
    next => cases h
  · rintro ⟨hprg, hram, hsome, rfl⟩
    obtain ⟨prg, ram, cartRam, hsize⟩ := b
    obtain ⟨prg', ram', cartRam', hsize'⟩ := b'
    cases hprg
    cases hram
    cases cartRam with
    | none =>
      cases cartRam' with
      | none => rfl
      | some new => cases hsome
    | some old =>
      cases cartRam' with
      | none => cases hsome
      | some new =>
        dsimp only [Option.map_some]
        rw [CartRam.ofBytes?_eq_some.mpr rfl]

/-- What a restore without an error has done: both memories are the saved ones, and the rest is as
before. -/
theorem restore_eq_ok {ram : Array UInt8} {cartRam : Option (Array UInt8)} :
    restore ram cartRam b = .ok () b' ↔
      (b'.prg = b.prg ∧ b'.cartRam.isSome = b.cartRam.isSome) ∧ b'.ram.bytes.toArray = ram ∧
        b'.cartRam.map (·.bytes.toArray) = cartRam := by
  rw [restore, bind_eq_ok]
  constructor
  · rintro ⟨⟨⟩, middle, hfirst, hsecond⟩
    obtain ⟨hprg, -, hsome, hsaved⟩ := restoreCartRam_eq_ok.mp hfirst
    obtain ⟨hprg', hcart, hram⟩ := restoreRam_eq_ok.mp hsecond
    rw [hcart]
    exact ⟨⟨hprg'.trans hprg, hsome⟩, hram, hsaved⟩
  · rintro ⟨⟨hprg, hsome⟩, hram, hcart⟩
    refine ⟨(), { b with cartRam := b'.cartRam }, ?_, ?_⟩
    · exact restoreCartRam_eq_ok.mpr ⟨rfl, rfl, hsome, hcart⟩
    · exact restoreRam_eq_ok.mpr ⟨hprg, rfl, hram⟩

/-- A restore that fails can have replaced the cartridge RAM, but it is on the same cartridge. -/
theorem finalState_restore (ram : Array UInt8) (cartRam : Option (Array UInt8)) (b : Nrom) :
    (finalState (restore ram cartRam b)).prg = b.prg ∧
      (finalState (restore ram cartRam b)).cartRam.isSome = b.cartRam.isSome := by
  have hram : ∀ b, (finalState (restoreRam ram b)).prg = b.prg ∧
      (finalState (restoreRam ram b)).cartRam = b.cartRam := by
    intro b
    unfold restoreRam
    split <;> exact ⟨rfl, rfl⟩
  unfold restore
  cases hcart : restoreCartRam cartRam b with
  | ok u middle =>
    obtain ⟨hprg, -, hsome, -⟩ := restoreCartRam_eq_ok.mp hcart
    obtain ⟨hprg', hcart'⟩ := hram middle
    rw [bind_of_ok hcart, hprg', hcart']
    exact ⟨hprg, hsome⟩
  | error e middle =>
    have hsame : middle = b := by
      unfold restoreCartRam at hcart
      split at hcart
      next => split at hcart <;> cases hcart; rfl
      next => cases hcart
      next => cases hcart; rfl
      next => cases hcart; rfl
    rw [bind_of_error hcart, hsame]
    exact ⟨rfl, rfl⟩

end Nrom

/-- With banks the bank registers are restored as well. -/
theorem Mmc1.restore_eq_ok {b b' : Mmc1} {banks : BankConfig} {ram cartRam : Array UInt8} :
    restore banks ram cartRam b = .ok () b' ↔
      b'.prg = b.prg ∧ b'.banks = banks ∧ b'.ram.bytes.toArray = ram ∧
        b'.cartRam.bytes.toArray = cartRam := by
  unfold restore
  constructor
  · intro h
    split at h
    next cart work hcart hwork =>
      cases h
      exact ⟨rfl, rfl, WorkRam.ofBytes?_eq_some.mp hwork, CartRam.ofBytes?_eq_some.mp hcart⟩
    next => cases h
    next => cases h
  · rintro ⟨hprg, rfl, hram, hcart⟩
    rw [WorkRam.ofBytes?_eq_some.mpr hram, CartRam.ofBytes?_eq_some.mpr hcart]
    cases b'
    cases hprg
    rfl

/-- Flat memory is restored as a whole. -/
theorem Flat.restore_eq_ok {b b' : Flat} {memory : Array UInt8} :
    restore memory b = .ok () b' ↔ b'.memory.toArray = memory := by
  unfold restore
  constructor
  · intro h
    split at h
    next => cases h; rfl
    next => cases h
  · rintro rfl
    rw [dif_pos b'.memory.size_toArray]

/-! ## Restoring any board -/

namespace Board

theorem restoreAs_eq_ok {β : Type} {wrap : β → Board} {b : β} {act : EStateM BoardError β Unit}
    {b' : Board} : restoreAs wrap b act = .ok () b' ↔ ∃ c, act b = .ok () c ∧ wrap c = b' := by
  unfold restoreAs
  cases act b with
  | ok u c => simp
  | error e c => simp

/-- A restore succeeds at the board of the same cartridge that shows the snapshot, and nowhere
else. -/
theorem restore_eq_ok {b b' : Board} {s : Snapshot} :
    restore s b = .ok () b' ↔ b.SameCartridge b' ∧ b'.snapshot = s := by
  cases b with
  | nrom b =>
    cases s with
    | nrom ram cartRam =>
      rw [restore, restoreAs_eq_ok]
      cases b' <;> simp [Nrom.restore_eq_ok, SameCartridge, snapshot]
    | mmc1 banks ram cartRam => cases b' <;> simp [restore, SameCartridge, snapshot]
    | flat memory => cases b' <;> simp [restore, SameCartridge, snapshot]
  | mmc1 b =>
    cases s with
    | mmc1 banks ram cartRam =>
      rw [restore, restoreAs_eq_ok]
      cases b' <;> simp [Mmc1.restore_eq_ok, SameCartridge, snapshot]
    | nrom ram cartRam => cases b' <;> simp [restore, SameCartridge, snapshot]
    | flat memory => cases b' <;> simp [restore, SameCartridge, snapshot]
  | flat b =>
    cases s with
    | flat memory =>
      rw [restore, restoreAs_eq_ok]
      cases b' <;> simp [Flat.restore_eq_ok, SameCartridge, snapshot]
    | nrom ram cartRam => cases b' <;> simp [restore, SameCartridge, snapshot]
    | mmc1 banks ram cartRam => cases b' <;> simp [restore, SameCartridge, snapshot]

/-- The state of a board fits every board with the same cartridge. -/
theorem SameCartridge.fits {b b' : Board} (h : b.SameCartridge b') : b'.snapshot.Fits b := by
  cases b with
  | nrom b =>
    cases b' with
    | nrom b' =>
      refine ⟨b'.ram.bytes.size_toArray, ?_⟩
      have hsome := h.2
      cases hcart : b.cartRam <;> cases hcart' : b'.cartRam <;> simp_all
    | mmc1 b' => exact h.elim
    | flat b' => exact h.elim
  | mmc1 b =>
    cases b' with
    | mmc1 b' => exact ⟨b'.ram.bytes.size_toArray, b'.cartRam.bytes.size_toArray⟩
    | nrom b' => exact h.elim
    | flat b' => exact h.elim
  | flat b =>
    cases b' with
    | flat b' => exact b'.memory.size_toArray
    | nrom b' => exact h.elim
    | mmc1 b' => exact h.elim

/-- For a snapshot that fits there is such a board. -/
theorem exists_of_fits {b : Board} {s : Snapshot} (h : s.Fits b) :
    ∃ b', b.SameCartridge b' ∧ b'.snapshot = s := by
  cases b with
  | nrom b =>
    cases s with
    | nrom ram cartRam =>
      obtain ⟨hram, hcart⟩ := h
      cases hold : b.cartRam with
      | none =>
        rw [hold, Option.map_none, Option.map_eq_none_iff] at hcart
        subst hcart
        exact ⟨nrom { b with ram := ⟨⟨ram, hram⟩⟩, cartRam := none }, ⟨rfl, by rw [hold]⟩, rfl⟩
      | some old =>
        rw [hold, Option.map_some, Option.map_eq_some_iff] at hcart
        obtain ⟨bytes, rfl, hsize⟩ := hcart
        exact ⟨nrom { b with ram := ⟨⟨ram, hram⟩⟩, cartRam := some ⟨⟨bytes, hsize⟩⟩ },
          ⟨rfl, by rw [hold]; rfl⟩, rfl⟩
    | mmc1 banks ram cartRam => exact h.elim
    | flat memory => exact h.elim
  | mmc1 b =>
    cases s with
    | mmc1 banks ram cartRam =>
      exact ⟨mmc1 { b with banks := banks, ram := ⟨⟨ram, h.1⟩⟩, cartRam := ⟨⟨cartRam, h.2⟩⟩ },
        rfl, rfl⟩
    | nrom ram cartRam => exact h.elim
    | flat memory => exact h.elim
  | flat b =>
    cases s with
    | flat memory => exact ⟨flat ⟨⟨memory, h⟩⟩, trivial, rfl⟩
    | nrom ram cartRam => exact h.elim
    | mmc1 banks ram cartRam => exact h.elim

/-- A restore succeeds if the snapshot fits. -/
theorem exists_restore_iff (b : Board) (s : Snapshot) :
    (∃ b', restore s b = .ok () b') ↔ s.Fits b := by
  simp only [restore_eq_ok]
  constructor
  · rintro ⟨b', hsame, rfl⟩
    exact hsame.fits
  · exact exists_of_fits

/-! ## The cartridge stays -/

instance : IsPreorder Board SameCartridge where
  refl b := by cases b <;> simp [SameCartridge]
  trans b b' b'' h k := by
    cases b <;> cases b' <;> cases b'' <;> simp_all [SameCartridge]

theorem SameCartridge.symm {b b' : Board} (h : b.SameCartridge b') : b'.SameCartridge b := by
  cases b <;> cases b' <;> simp_all [SameCartridge]

/-- No write changes the cartridge. -/
theorem sameCartridge_write (b : Board) (a : UInt16) (v : UInt8) :
    b.SameCartridge (b.write a v) := by
  cases b with
  | nrom b =>
    simp only [write, SameCartridge, Nrom.write]
    split <;> simp
  | mmc1 b => exact b.prg_write a v
  | flat b => trivial

theorem sameCartridge_clearRam (b : Board) : b.SameCartridge b.clearRam := by
  cases b with
  | nrom b => exact ⟨rfl, Option.isSome_map ..⟩
  | mmc1 b => exact rfl
  | flat b => trivial

theorem finalState_restoreAs {β : Type} (wrap : β → Board) (b : β)
    (act : EStateM BoardError β Unit) :
    finalState (restoreAs wrap b act) = wrap (finalState (act b)) := by
  unfold restoreAs
  cases act b <;> rfl

/-- The cartridge stays the same, also where a restore fails. -/
theorem leaves_restore (s : Snapshot) : Leaves SameCartridge (restore s) := by
  intro b
  cases b with
  | nrom b =>
    cases s with
    | nrom ram cartRam =>
      rw [restore, finalState_restoreAs]
      exact Nrom.finalState_restore ram cartRam b
    | mmc1 banks ram cartRam => exact refl (nrom b)
    | flat memory => exact refl (nrom b)
  | mmc1 b =>
    cases s with
    | mmc1 banks ram cartRam =>
      rw [restore, finalState_restoreAs]
      unfold Mmc1.restore
      split <;> exact rfl
    | nrom ram cartRam => exact refl (mmc1 b)
    | flat memory => exact refl (mmc1 b)
  | flat b =>
    cases s with
    | flat memory =>
      rw [restore, finalState_restoreAs]
      trivial
    | nrom ram cartRam => exact refl (flat b)
    | mmc1 banks ram cartRam => exact refl (flat b)

end Board

namespace Core

def SameCartridge (c c' : Core) : Prop := c.board.SameCartridge c'.board

instance : IsPreorder Core SameCartridge where
  refl c := refl (r := Board.SameCartridge) c.board
  trans _ _ _ h k := IsTrans.trans (r := Board.SameCartridge) _ _ _ h k

variable {α : Type}

theorem leaves_execute (p : Microcode α) : Leaves SameCartridge p.execute := by
  induction p with
  | done result => exact .pure result
  | read address next ih =>
    intro c
    rw [Microcode.execute]
    dsimp only
    split
    next v hread => exact ih v c
    next => exact refl c
  | write address value next ih =>
    intro c
    have hwrite : c.SameCartridge { c with board := c.board.write address value } :=
      c.board.sameCartridge_write address value
    exact IsTrans.trans _ _ _ hwrite (ih _)
  | inspect next ih => exact fun c => ih c.registers c
  | assign registers next ih => exact fun c => ih { c with registers := registers }

theorem sameCartridge_kept : KeptByMicrocode SameCartridge :=
  ⟨fun i => leaves_execute i.microcode, fun i => leaves_execute i.microcode⟩

end Core

namespace Machine

/-! ## Between saving and restoring -/

/-- What can happen to a machine between two moments at which it is not looked at. -/
inductive Disturbance where
  | call (call : Call)
  | interrupt (interrupt : Interrupt)
  /-- A write that breakpoints see. -/
  | write (address : UInt16) (value : UInt8)
  | poke (address : UInt16) (value : UInt8)
  | clearRam
  | hardReset
  /-- An attempt to put a snapshot back, whether it fits or not. -/
  | restore (s : Snapshot)
  | configure (config : Config)

namespace Disturbance

def apply (m : Machine) : Disturbance → Machine
  | call c => finalState (c.act m)
  | interrupt i => finalState (Machine.interrupt i m)
  | write address value => finalState (perform none (Microcode.writeByte address value) m)
  | poke address value => m.poke address value
  | clearRam => { m with core := { m.core with board := m.core.board.clearRam } }
  | hardReset => finalState (Machine.hardReset m)
  | restore s => finalState (restoreBoard s m)
  | configure config => m.setConfig config

end Disturbance

theorem sameCartridge_hardReset (m : Machine) :
    m.core.SameCartridge (finalState (hardReset m)).core := by
  rw [hardReset, modify_bind_apply]
  have hclear := m.core.board.sameCartridge_clearRam
  cases hpc : Core.peekWord ⟨.powerOn, m.core.board.clearRam⟩ Interrupt.reset.vector with
  | ok pc => rw [bind_of_ok (observe_of_ok hpc)]; exact hclear
  | error e => rw [bind_of_error (observe_of_error hpc)]; exact hclear

theorem sameCartridge_restoreBoard (s : Snapshot) (m : Machine) :
    m.core.SameCartridge (finalState (restoreBoard s m)).core := by
  have hrestore := Board.leaves_restore s m.core.board
  unfold restoreBoard
  split
  next h => rwa [h] at hrestore
  next h => rwa [h] at hrestore

/-- Whatever happens, the cartridge stays. -/
theorem sameCartridge_apply (m : Machine) (d : Disturbance) :
    m.core.SameCartridge (d.apply m).core := by
  cases d with
  | call c => exact core_act Core.sameCartridge_kept c m
  | interrupt i => exact core_interrupt Core.sameCartridge_kept i m
  | write address value => exact core_perform (Core.leaves_execute _) none m
  | poke address value =>
    rw [Disturbance.apply, core_poke]
    exact m.core.board.sameCartridge_write address value
  | clearRam => exact m.core.board.sameCartridge_clearRam
  | hardReset => exact sameCartridge_hardReset m
  | restore s => exact sameCartridge_restoreBoard s m
  | configure config => exact refl m.core

theorem sameCartridge_foldl (between : List Disturbance) (m : Machine) :
    m.core.SameCartridge (between.foldl Disturbance.apply m).core := by
  induction between generalizing m with
  | nil => exact refl m.core
  | cons d rest ih => exact IsTrans.trans _ _ _ (sameCartridge_apply m d) (ih _)

/-! ## Replay -/

/-- A snapshot can be put back on exactly the boards that it fits, and is then what the board shows.
Registers and snapshot of a machine, saved together, can be put back after whatever has happened in
between; the machine then replies to all calls as if nothing had. -/
theorem restore_and_replay :
    (∀ (b : Board) (s : Snapshot), (∃ b', Board.restore s b = .ok () b') ↔ s.Fits b) ∧
      (∀ (b b' : Board) (s : Snapshot), Board.restore s b = .ok () b' → b'.snapshot = s) ∧
        ∀ (m : Machine) (between : List Disturbance),
          let later := between.foldl Disturbance.apply m
          ∃ restored,
            restoreBoard m.board.snapshot (later.setRegisters m.registers) = .ok () restored ∧
              restored.core = m.core ∧
              (later.config.checkStuck = m.config.checkStuck → ∀ calls,
                (replies calls restored).map unwatched = (replies calls m).map unwatched) := by
  refine ⟨Board.exists_restore_iff, fun b b' s h => (Board.restore_eq_ok.mp h).2, ?_⟩
  intro m between later
  have hsame : later.core.board.SameCartridge m.core.board := (sameCartridge_foldl between m).symm
  have hrestore := Board.restore_eq_ok.mpr ⟨hsame, rfl⟩
  refine ⟨{ later with core := m.core }, ?_, rfl, ?_⟩
  · rw [board, restoreBoard]
    dsimp only [setRegisters]
    rw [hrestore]
    rfl
  · exact fun hstuck calls => replies_of_core_eq calls rfl hstuck

/-- In between, the program may even be overwritten. -/
theorem replay_overwritten_program :
    let b := Board.flat (.ofProgram 0x8000 [0xE8, 0x4C, 0x01, 0x80])
    let blank := Board.flat (.ofProgram 0x8000 [])
    let m : Machine :=
      { core := ⟨.powerOn, b⟩
        config := { checkStuck := true }
        history := .ofCapacity 0 }
    let later := [Disturbance.call .step, .poke 0x8000 0, .restore blank.snapshot, .hardReset,
      .restore (.nrom #[] none), .configure { checkStuck := true }].foldl Disturbance.apply m
    (∃ b', Board.restore blank.snapshot b = .ok () b' ∧ b'.snapshot = blank.snapshot) ∧
      ∃ restored,
        restoreBoard m.board.snapshot (later.setRegisters m.registers) = .ok () restored ∧
          (replies [.step, .irq, .step] restored).map unwatched =
            (replies [.step, .irq, .step] m).map unwatched := by
  intro b blank m later
  have hrestore : Board.restore blank.snapshot b = .ok () blank :=
    Board.restore_eq_ok.mpr ⟨trivial, rfl⟩
  refine ⟨⟨blank, hrestore, restore_and_replay.2.1 b blank _ hrestore⟩, ?_⟩
  obtain ⟨restored, hok, -, hreplies⟩ := restore_and_replay.2.2 m _
  exact ⟨restored, hok, hreplies rfl _⟩

end Machine

end Mos6502
