import Mos6502.Proofs.AddressSpace
import Mos6502.Proofs.Marking
import Mos6502.Proofs.PortWrites

/-!
# Bytes that the log leaves unflagged

Two machines that differ only in their images, with the log kept. As long as the images agree at the
offsets that the first machine's log ends up flagging, the second machine cannot tell the
difference: it answers the same calls in the same way, passes through the same registers and flags
the same offsets (`visits_of_agree_where_flagged`).
-/

namespace Mos6502

structure ImagePair where
  first : Array UInt8
  second : Array UInt8
  size_eq : second.size = first.size

/-- The images have the same byte at the offset. -/
def ImagePair.AgreeAt (images : ImagePair) (offset : Nat) : Prop :=
  images.first[offset]? = images.second[offset]?

theorem ImagePair.agreeAt_of_size_le {images : ImagePair} {offset : Nat}
    (h : images.first.size ≤ offset) : images.AgreeAt offset := by
  unfold AgreeAt
  rw [Array.getElem?_eq_none h, Array.getElem?_eq_none (images.size_eq ▸ h)]

/-! ## The ROM window -/

theorem Nrom.getElem?_romIndex (b : Nrom) {address : UInt16} (h : Region.of address = .cartRom) :
    b.prg[(b.romIndex address : Nat)]? = some (b.read address) := by
  simp only [read, h, Fin.getElem_fin, Fin.is_lt, getElem?_pos]

theorem Mmc1.read_eq_getElem? (b : Mmc1) {address : UInt16} (h : 0x8000 ≤ address.toNat) :
    b.read address =
      match b.prg[b.romOffset address]? with
      | some v => .ok v
      | none => .error (b.outOfRange address) := by
  rw [b.read_of_rom h]
  split
  next hlt => rw [Array.getElem?_eq_getElem hlt]
  next hge => rw [Array.getElem?_eq_none (Nat.le_of_not_lt hge)]

namespace Board

/-- Boards of one kind, the first around the first image and the second around the second, with the
same RAM and the same bank registers. Flat memory is all image, but a program writes to it: the two
memories are the same wherever the images are. -/
inductive Alike (images : ImagePair) : Board → Board → Prop where
  | nrom {b₁ b₂ : Nrom} (first : b₁.prg = images.first) (second : b₂.prg = images.second)
    (ram : b₂.ram = b₁.ram) (cartRam : b₂.cartRam = b₁.cartRam) : Alike images (nrom b₁) (nrom b₂)
  | mmc1 {b₁ b₂ : Mmc1} (first : b₁.prg = images.first) (second : b₂.prg = images.second)
    (banks : b₂.banks = b₁.banks) (ram : b₂.ram = b₁.ram) (cartRam : b₂.cartRam = b₁.cartRam) :
    Alike images (mmc1 b₁) (mmc1 b₂)
  | flat {b₁ b₂ : Flat}
    (memory : ∀ offset, images.AgreeAt offset → b₂.memory[offset]? = b₁.memory[offset]?) :
    Alike images (flat b₁) (flat b₂)

variable {images : ImagePair} {b₁ b₂ : Board}

/-! ## Alike boards -/

/-- Boards that differ in their images alone locate every address alike. -/
theorem Alike.locate (h : b₁.Alike images b₂) (address : UInt16) :
    b₂.locate address = b₁.locate address := by
  cases h with
  | nrom first second ram cartRam =>
    simp only [Board.locate, Nrom.locate, Nrom.romIndex, first, second, images.size_eq]
  | mmc1 first second banks ram cartRam =>
    simp only [Board.locate, Mmc1.locate, Mmc1.outOfRange, Mmc1.romOffset, Mmc1.lastBank, first,
      second, banks, images.size_eq]
  | flat memory => rfl

/-- Writes keep boards alike, for no write reaches an image. -/
theorem Alike.write (h : b₁.Alike images b₂) (address : UInt16) (v : UInt8) :
    (b₁.write address v).Alike images (b₂.write address v) := by
  cases h with
  | nrom first second ram cartRam =>
    simp only [Board.write, Nrom.write]
    split
    next => exact .nrom first second (by rw [ram]) cartRam
    next => exact .nrom first second ram (by rw [cartRam])
    next => exact .nrom first second ram cartRam
    next => exact .nrom first second ram cartRam
  | mmc1 first second banks ram cartRam =>
    simp only [Board.write, Mmc1.write, banks]
    split
    next => exact .mmc1 first second rfl (by rw [ram]) cartRam
    next => exact .mmc1 first second banks ram cartRam
    next =>
      split
      next => exact .mmc1 first second rfl ram (by rw [cartRam])
      next => exact .mmc1 first second banks ram cartRam
    next => exact .mmc1 first second rfl ram cartRam
  | flat memory =>
    refine .flat fun offset hagree => ?_
    simp only [Flat.write, Vector.getElem?_set]
    rw [memory offset hagree]

/-- Alike boards answer alike, but for the bytes of ROM at which the images differ. -/
theorem Alike.read (h : b₁.Alike images b₂) {address : UInt16}
    (hagree : ∀ offset, b₁.locate address = .ok ⟨offset, true⟩ → images.AgreeAt offset) :
    b₂.read address = b₁.read address := by
  have hregion := Region.of_spec address
  cases h with
  | @nrom b₁ b₂ first second ram cartRam =>
    cases hof : Region.of address with
    | workRam => simp only [Board.read, Nrom.read, hof, ram]
    | openBus => simp only [Board.read, Nrom.read, hof]
    | cartRam => simp only [Board.read, Nrom.read, hof, cartRam]
    | cartRom =>
      rw [hof] at hregion
      have hsame := hagree (b₁.romIndex address)
        (congrArg Except.ok (b₁.locate_of_rom hregion))
      have hindex : (b₂.romIndex address : Nat) = b₁.romIndex address := by
        simp only [Nrom.romIndex, first, second, images.size_eq]
      have hbyte := b₂.getElem?_romIndex hof
      rw [hindex, second, ← hsame, ← first, b₁.getElem?_romIndex hof] at hbyte
      exact congrArg Except.ok (Option.some.inj hbyte).symm
  | @mmc1 b₁ b₂ first second banks ram cartRam =>
    cases hof : Region.of address with
    | workRam => simp only [Board.read, Mmc1.read, hof, ram]
    | openBus => simp only [Board.read, Mmc1.read, hof]
    | cartRam => simp only [Board.read, Mmc1.read, hof, banks, cartRam]
    | cartRom =>
      rw [hof] at hregion
      -- Past the end the images agree trivially, and both reads fail alike.
      have hsame : images.AgreeAt (b₁.romOffset address) := by
        by_cases hlt : b₁.romOffset address < b₁.prg.size
        · exact hagree _ ((b₁.locate_of_rom hregion).trans (if_pos hlt))
        · exact ImagePair.agreeAt_of_size_le (first ▸ Nat.le_of_not_lt hlt)
      have hoffset : b₂.romOffset address = b₁.romOffset address := by
        simp only [Mmc1.romOffset, Mmc1.lastBank, first, second, banks, images.size_eq]
      have herror : b₂.outOfRange address = b₁.outOfRange address := by
        simp only [Mmc1.outOfRange, hoffset, first, second, banks, images.size_eq]
      rw [Board.read, Board.read, b₁.read_eq_getElem? hregion, b₂.read_eq_getElem? hregion, hoffset,
        herror, first, second, hsame]
  | @flat b₁ b₂ memory =>
    have hlt : address.toNat < flatSize := address.toNat_lt
    have hsame := memory address.toNat (hagree address.toNat rfl)
    rw [Vector.getElem?_eq_getElem hlt, Vector.getElem?_eq_getElem hlt] at hsame
    exact congrArg Except.ok (Option.some.inj hsame)

/-- Only a write to the ROM window moves what lies behind an address. -/
theorem locate_write (b : Board) {written : UInt16} (h : written < 0x8000) (v : UInt8)
    (address : UInt16) : (b.write written v).locate address = b.locate address := by
  have hregion := Region.of_spec written
  rw [UInt16.lt_iff_toNat_lt] at h
  cases b with
  | nrom b =>
    simp only [write, Nrom.write]
    split <;> rfl
  | mmc1 b =>
    simp only [write, Mmc1.write]
    split
    next => rfl
    next => rfl
    next => split <;> rfl
    next hof =>
      rw [hof] at hregion
      exact absurd h (Nat.not_lt.mpr hregion)
  | flat b => rfl

/-- The images agree at all bytes of ROM that the board shows in the span. -/
def SpanAgrees (images : ImagePair) (b : Board) (span : Option Span) : Prop :=
  ∀ address offset, span.any (·.contains address) = true →
    b.locate address = .ok ⟨offset, true⟩ → images.AgreeAt offset

theorem SpanAgrees.of_locate_eq {span : Option Span} (h : b₁.SpanAgrees images span)
    (hlocate : ∀ address, b₂.locate address = b₁.locate address) : b₂.SpanAgrees images span :=
  fun address offset hinside hoffset =>
    h address offset hinside ((hlocate address).symm.trans hoffset)

/-- A span that agrees does so at its opcode. -/
theorem SpanAgrees.opcode {start : UInt16} {size : Nat}
    (h : b₁.SpanAgrees images (some ⟨start, size⟩)) (hsize : 1 ≤ size) :
    b₁.SpanAgrees images (some ⟨start, 1⟩) := by
  intro address offset hinside
  refine h address offset ?_
  simp only [Option.any_some, Span.contains, decide_eq_true_eq] at hinside ⊢
  omega

end Board

namespace Machine

variable {images : ImagePair} {m₁ m₂ m₁' m₂' : Machine} {α β : Type}

/-! ## Machines in step -/

/-- The images agree wherever the machine has flagged an offset. -/
def FlagsAgree (images : ImagePair) (m : Machine) : Prop :=
  ∀ offset, m.log.Flags offset → images.AgreeAt offset

/-- Flags are never taken away, so agreement at the later ones includes the earlier ones. -/
theorem FlagsAgree.of_logGrows {m m' : Machine} (h : FlagsAgree images m')
    (hgrows : LogGrows m m') : FlagsAgree images m :=
  fun offset hflags => h offset (hgrows.flags offset hflags)

/-- The machines differ at most in their images and in what they have recorded besides the flags. -/
structure Paired (images : ImagePair) (m₁ m₂ : Machine) : Prop where
  registers : m₂.core.registers = m₁.core.registers
  boards : m₁.core.board.Alike images m₂.core.board
  config : m₂.config = m₁.config
  uses : m₂.log.uses = m₁.log.uses

/-- Registers, board, configuration and flags are the same. -/
structure SameFlags (m m' : Machine) : Prop where
  core : m'.core = m.core
  config : m'.config = m.config
  uses : m'.log.uses = m.log.uses

theorem sameFlags_note (m : Machine) (level : Level) (text : Unit → String) :
    SameFlags m (m.note level text) := ⟨rfl, rfl, by rw [log_note]⟩

theorem sameFlags_fire (m : Machine) (events : Events) (address : UInt16) (value : UInt8) :
    SameFlags m (m.fire events address value) :=
  ⟨core_fire _ _ _ _, (inStep_fire _ _ _ _).config, by rw [log_fire]⟩

theorem sameFlags_trace {i : Instruction} {m m' : Machine} (h : trace i m = .ok () m') :
    SameFlags m m' := by
  have hlogs := (leaves_trace i).of_ok h
  exact ⟨hlogs.core, hlogs.config, by rw [log_trace h]⟩

namespace Paired

theorem of_sameFlags (h : Paired images m₁ m₂) (hfirst : SameFlags m₁ m₁')
    (hsecond : SameFlags m₂ m₂') : Paired images m₁' m₂' where
  registers := by rw [hfirst.core, hsecond.core, h.registers]
  boards := by rw [hfirst.core, hsecond.core]; exact h.boards
  config := by rw [hfirst.config, hsecond.config, h.config]
  uses := by rw [hfirst.uses, hsecond.uses, h.uses]

theorem fire (h : Paired images m₁ m₂) (events : Events) (address : UInt16) (value : UInt8) :
    Paired images (m₁.fire events address value) (m₂.fire events address value) :=
  h.of_sameFlags (sameFlags_fire _ _ _ _) (sameFlags_fire _ _ _ _)

/-- Paired machines mark the same bytes. -/
theorem mark (h : Paired images m₁ m₂) (address : UInt16) (u : Usage) :
    Paired images (m₁.mark address u) (m₂.mark address u) := by
  unfold Machine.mark
  rw [h.boards.locate]
  split
  next =>
    refine ⟨h.registers, h.boards, h.config, ?_⟩
    simp only [CodeDataLog.mark, h.uses]
  next => exact h
  next => exact h

theorem markRead (h : Paired images m₁ m₂) (span : Option Span) (address : UInt16) :
    Paired images (m₁.markRead span address) (m₂.markRead span address) := by
  unfold Machine.markRead
  rw [h.config]
  split
  next => exact h.mark address .loaded
  next => exact h

theorem markAll (h : Paired images m₁ m₂) (addresses : List UInt16) :
    Paired images (m₁.markAll addresses) (m₂.markAll addresses) := by
  induction addresses generalizing m₁ m₂ with
  | nil => exact h
  | cons address rest ih => exact ih (h.mark address .executed)

theorem poke (h : Paired images m₁ m₂) (address : UInt16) (value : UInt8) :
    Paired images (m₁.poke address value) (m₂.poke address value) where
  registers := by rw [core_poke, core_poke, h.registers]
  boards := by rw [core_poke, core_poke]; exact h.boards.write address value
  config := by rw [(inStep_poke _ _ _).config, (inStep_poke _ _ _).config, h.config]
  uses := by rw [log_poke, log_poke, h.uses]

theorem setRegisters (h : Paired images m₁ m₂) (r : Registers) :
    Paired images (m₁.setRegisters r) (m₂.setRegisters r) := ⟨rfl, h.boards, h.config, h.uses⟩

/-- Microcode in step. The induction is on the microcode. What it reads outside the span is flagged
by the read, and what it reads inside is known to agree as long as no bank has been switched, which
happens only where nothing more is read. -/
theorem perform (h : Paired images m₁ m₂) (hon : m₁.config.codeDataLog = true)
    {span : Option Span} {p : Microcode α}
    (hreads : p.ReadFree ∨ p.ReadsFirst ∧ m₁.core.board.SpanAgrees images span) {a : α}
    (hok : Machine.perform span p m₁ = .ok a m₁') (hagree : FlagsAgree images m₁') :
    ∃ m₂', Machine.perform span p m₂ = .ok a m₂' ∧ Paired images m₁' m₂' := by
  induction p generalizing m₁ m₂ with
  | done result =>
    cases hok
    exact ⟨m₂, rfl, h⟩
  | read address next ih =>
    rcases hreads with hfree | ⟨hfirst, hspan⟩
    · exact hfree.elim
    rw [Machine.perform] at hok ⊢
    dsimp only at hok ⊢
    cases hread : m₁.core.board.read address with
    | error e => rw [hread] at hok; cases hok
    | ok v =>
      rw [hread] at hok
      have hcore : ((m₁.markRead span address).fire .read address v).core = m₁.core := by
        rw [core_fire, (onlyLogs_markRead m₁ span address).core]
      have hmarked : FlagsAgree images (m₁.markRead span address) :=
        (hagree.of_logGrows ((eachUpdate_logGrows.leaves_perform _ _).of_ok hok)).of_logGrows
          (logGrows_fire _ _ _ _)
      -- Inside the span the images agree by assumption, outside it since the read flags its byte.
      have hsame : m₂.core.board.read address = .ok v := by
        rw [h.boards.read fun offset hlocate => ?_, hread]
        cases hinside : span.any (·.contains address) with
        | true => exact hspan address offset hinside hlocate
        | false => exact hmarked offset (flags_markRead hon hinside hlocate)
      rw [hsame]
      refine ih v ((h.markRead span address).fire .read address v) ?_ ?_ hok
      · rw [(inStep_fire _ _ _ _).config, (onlyLogs_markRead m₁ span address).config, hon]
      · rw [hcore]
        exact .inr ⟨hfirst v, hspan⟩
  | write address value next ih =>
    refine ih ((h.poke address value).fire .write address value) ?_ ?_ hok
    · rw [(inStep_fire _ _ _ _).config, (inStep_poke _ _ _).config, hon]
    · rw [core_fire, core_poke]
      rcases hreads with hfree | ⟨hfree | ⟨hlow, hfirst⟩, hspan⟩
      · exact .inl hfree
      · exact .inl hfree
      · -- A write below the ROM window switches no bank, so the span still agrees.
        exact .inr ⟨hfirst, hspan.of_locate_eq fun _ => Board.locate_write _ hlow value _⟩
  | inspect next ih =>
    rw [Machine.perform] at hok ⊢
    dsimp only at hok ⊢
    rw [h.registers]
    refine ih _ h hon ?_ hok
    exact hreads.imp (fun hfree => hfree _) (And.imp_left fun hfirst => hfirst _)
  | assign registers next ih => exact ih (h.setRegisters registers) hon hreads hok

/-- Both machines fetch the same opcode: its byte is flagged, and the images agree there. -/
theorem fetch (h : Paired images m₁ m₂) (hon : m₁.config.codeDataLog = true)
    (hspan : m₁.core.board.SpanAgrees images (some ⟨m₁.registers.pc, 1⟩)) {opcode : UInt8}
    (hok : Machine.fetch m₁ = .ok opcode m₁') (hagree : FlagsAgree images m₁') :
    ∃ m₂', Machine.fetch m₂ = .ok opcode m₂' ∧ Paired images m₁' m₂' := by
  have hpc : m₂.registers.pc = m₁.registers.pc := congrArg Registers.pc h.registers
  rw [Machine.fetch, get_bind_apply] at hok ⊢
  obtain ⟨v, m₁r, hread, hrest⟩ := bind_eq_ok.mp hok
  cases hrest
  obtain ⟨m₂r, hread₂, hafter⟩ :=
    h.perform hon (.inr ⟨Microcode.readsFirst_readByte _, hspan⟩) hread
      (hagree.of_logGrows (logGrows_fire _ _ _ _))
  rw [hpc, bind_of_ok hread₂]
  exact ⟨_, rfl, hafter.fire .execute _ _⟩

theorem logCode (h : Paired images m₁ m₂) (hon : m₁.config.codeDataLog = true)
    {i : Instruction} (hlog₁ : Machine.logCode i m₁ = .ok () m₁')
    (hlog₂ : Machine.logCode i m₂ = .ok () m₂') : Paired images m₁' m₂' := by
  have hlogs₁ := (leaves_logCode i).of_ok hlog₁
  have hlogs₂ := (leaves_logCode i).of_ok hlog₂
  have hpc : m₂.registers.pc = m₁.registers.pc := congrArg Registers.pc h.registers
  refine ⟨?_, ?_, ?_, ?_⟩
  · rw [hlogs₁.core, hlogs₂.core, h.registers]
  · rw [hlogs₁.core, hlogs₂.core]
    exact h.boards
  · rw [hlogs₁.config, hlogs₂.config, h.config]
  · rw [uses_logCode hon hlog₁, uses_logCode (by rw [h.config, hon]) hlog₂, hpc]
    exact (h.markAll _).uses

end Paired

/-- The bytes of an instruction are flagged as its code is recorded, so the images agree on them. -/
theorem spanAgrees_of_logCode {m m' : Machine} (hon : m.config.codeDataLog = true) {i : Instruction}
    (hlog : logCode i m = .ok () m') (hagree : FlagsAgree images m') :
    m.core.board.SpanAgrees images (some ⟨m.core.registers.pc, i.size⟩) :=
  fun _ offset hinside hlocate => hagree offset (flags_logCode hon hlog hinside hlocate)

/-- What foresees its bytes succeeds once the instruction has been executed. -/
theorem Foresees.exists_ok {i : Instruction} {act : EStateM ExecutionError Machine α}
    (h : Foresees i act) {m : Machine} (hfetched : i.FetchedFrom m.core) {c : Core}
    (hexecute : i.microcode.execute m.core = .ok () c) : ∃ a m', act m = .ok a m' := by
  cases hact : act m with
  | ok a m' => exact ⟨a, m', rfl⟩
  | error err m' =>
    obtain ⟨e, -, hfails⟩ := h m m' err hfetched hact
    cases hexecute.symm.trans hfails

/-- An instruction that the first machine performs, the second could perform right behind its
fetch. -/
theorem Paired.exists_execute (h : Paired images m₁ m₂) {i : Instruction} {l₁ p₁ : Machine}
    (hlogs : OnlyLogs m₁ l₁) (hon : l₁.config.codeDataLog = true)
    (hspan : l₁.core.board.SpanAgrees images (some ⟨l₁.registers.pc, i.size⟩))
    (hperform : Machine.perform (some ⟨l₁.registers.pc, i.size⟩) i.microcode l₁ = .ok () p₁)
    (hagree : FlagsAgree images p₁) : ∃ c, i.microcode.execute m₂.core = .ok () c := by
  have hstand : Paired images l₁ { m₂ with log := l₁.log } := by
    refine ⟨?_, ?_, ?_, rfl⟩
    · rw [hlogs.core, ← h.registers]
    · rw [hlogs.core]
      exact h.boards
    · rw [hlogs.config, ← h.config]
  obtain ⟨p, hperform₂, -⟩ :=
    hstand.perform hon (.inr ⟨i.readsFirst_microcode, hspan⟩) hperform hagree
  exact ⟨p.core, execute_of_perform (m := { m₂ with log := l₁.log }) hperform₂⟩

/-- The observers can render on the second machine what they render on the first: they fail only
where the instruction fails. -/
theorem Paired.observers (h : Paired images m₁ m₂) (hon : m₁.config.codeDataLog = true)
    {i : Instruction} {t₁ l₁ : Machine} (htrace₁ : trace i m₁ = .ok () t₁)
    (hlog₁ : Machine.logCode i t₁ = .ok () l₁) (hfetched : i.FetchedFrom m₂.core) {c : Core}
    (hexecute : i.microcode.execute m₂.core = .ok () c) :
    ∃ t₂ l₂, trace i m₂ = .ok () t₂ ∧ Machine.logCode i t₂ = .ok () l₂ ∧
      Paired images l₁ l₂ := by
  obtain ⟨_, t₂, htrace₂⟩ := (foresees_trace i).exists_ok hfetched hexecute
  have htraced₁ := sameFlags_trace htrace₁
  have htraced₂ := sameFlags_trace htrace₂
  rw [← htraced₂.core] at hfetched hexecute
  obtain ⟨_, l₂, hlog₂⟩ := (foresees_logCode i).exists_ok hfetched hexecute
  have ht := h.of_sameFlags htraced₁ htraced₂
  exact ⟨t₂, l₂, htrace₂, hlog₂, ht.logCode (by rw [htraced₁.config, hon]) hlog₁ hlog₂⟩

/-- The second machine follows through a cycle: by the time the first performs the instruction, it
has flagged every byte of it. -/
theorem Paired.cycle (h : Paired images m₁ m₂) (hon : m₁.config.codeDataLog = true)
    (hok : Machine.cycle m₁ = .ok () m₁') (hagree : FlagsAgree images m₁') :
    ∃ m₂', Machine.cycle m₂ = .ok () m₂' ∧ Paired images m₁' m₂' := by
  obtain ⟨opcode, f₁, i, t₁, l₁, p₁, hfetch₁, hdecode, htrace₁, hlog₁, hperform₁, rfl⟩ :=
    cycle_eq_ok_iff.mp hok
  have htraced := (leaves_trace i).of_ok htrace₁
  have hlogged := (leaves_logCode i).of_ok hlog₁
  have honf : f₁.config.codeDataLog = true := by
    rw [(eachUpdate_logGrows.leaves_fetch.of_ok hfetch₁).config, hon]
  have hont : t₁.config.codeDataLog = true := by rw [htraced.config, honf]
  have honl : l₁.config.codeDataLog = true := by rw [hlogged.config, hont]
  have hagreep : FlagsAgree images p₁ := hagree
  have hagreel := hagreep.of_logGrows ((eachUpdate_logGrows.leaves_perform _ _).of_ok hperform₁)
  have hagreef : FlagsAgree images f₁ :=
    (hagreel.of_logGrows ((eachUpdate_logGrows.leaves_logCode _).of_ok hlog₁)).of_logGrows
      (logGrows_of_uses_eq htraced.config (by rw [log_trace htrace₁]))
  -- Flags are never taken back, so what the last machine agrees on holds at each stage.
  have hspan := spanAgrees_of_logCode hont hlog₁ hagreel
  obtain ⟨f₂, hfetch₂, hf⟩ : ∃ f₂, Machine.fetch m₂ = .ok opcode f₂ ∧ Paired images f₁ f₂ := by
    rw [htraced.core, (fetch_eq_ok hfetch₁).2] at hspan
    exact h.fetch hon (hspan.opcode i.mode.size_bounds.1) hfetch₁ hagreef
  obtain ⟨hread₂, hcore₂⟩ := fetch_eq_ok hfetch₂
  have hfetched₂ : i.FetchedFrom f₂.core := ⟨opcode, by rw [hcore₂]; exact hread₂, hdecode⟩
  rw [← hlogged.core] at hspan
  obtain ⟨c, hexecute⟩ :=
    hf.exists_execute (IsTrans.trans _ _ _ htraced hlogged) honl hspan hperform₁ hagreep
  -- The second machine has other lines to show, but it can show them.
  obtain ⟨t₂, l₂, htrace₂, hlog₂, hl⟩ := hf.observers honf htrace₁ hlog₁ hfetched₂ hexecute
  have hpc : l₂.core.registers.pc = l₁.core.registers.pc := by rw [hl.registers]
  obtain ⟨p₂, hperform₂, hp⟩ :=
    hl.perform honl (.inr ⟨i.readsFirst_microcode, hspan⟩) hperform₁ hagreep
  rw [← hpc] at hperform₂
  refine ⟨p₂.nest i, ?_, hp.of_sameFlags ⟨rfl, rfl, rfl⟩ ⟨rfl, rfl, rfl⟩⟩
  exact cycle_eq_ok_iff.mpr
    ⟨opcode, f₂, i, t₂, l₂, p₂, hfetch₂, hdecode, htrace₂, hlog₂, hperform₂, rfl⟩

/-- A step of the first machine is matched by one of the second. -/
theorem Paired.step (h : Paired images m₁ m₂) (hon : m₁.config.codeDataLog = true)
    (hok : Machine.step m₁ = .ok () m₁') (hagree : FlagsAgree images m₁') :
    ∃ m₂', Machine.step m₂ = .ok () m₂' ∧ Paired images m₁' m₂' := by
  obtain ⟨c₁, hcycle₁, rfl⟩ := step_eq_ok hok
  obtain ⟨c₂, hcycle₂, hc⟩ := h.cycle hon hcycle₁ hagree
  have hstuck : (c₂.config.checkStuck && c₂.registers.pc == m₂.registers.pc) =
      (c₁.config.checkStuck && c₁.registers.pc == m₁.registers.pc) := by
    simp only [Machine.registers, hc.config, hc.registers, h.registers]
  rw [step_apply, hcycle₁] at hok
  rw [step_apply, hcycle₂]
  dsimp only at hok ⊢
  rw [hstuck]
  split at hok
  next => cases hok
  next hmoved =>
    rw [if_neg hmoved]
    exact ⟨_, rfl, hc.of_sameFlags ⟨rfl, rfl, rfl⟩ ⟨rfl, rfl, rfl⟩⟩

/-! ## Calls -/

/-- What this action does on the first machine it also does on the second, as long as the images
agree wherever the first machine has flagged an offset in the end. -/
def Follows (images : ImagePair) (act : EStateM ExecutionError Machine α) : Prop :=
  ∀ ⦃m₁ m₁' : Machine⦄ ⦃a : α⦄, m₁.config.codeDataLog = true → act m₁ = .ok a m₁' →
    LogGrows m₁ m₁' ∧ ∀ ⦃m₂ : Machine⦄, Paired images m₁ m₂ → FlagsAgree images m₁' →
      ∃ m₂', act m₂ = .ok a m₂' ∧ Paired images m₁' m₂'

theorem follows_pure (a : α) : Follows images (pure a) := by
  intro m₁ m₁' a' _ hok
  cases hok
  exact ⟨refl m₁, fun m₂ h _ => ⟨m₂, rfl, h⟩⟩

/-- What the first action flags stays flagged, so the parts of a sequence can be followed one behind
the other. -/
theorem Follows.bind {act : EStateM ExecutionError Machine α}
    {f : α → EStateM ExecutionError Machine β} (hact : Follows images act)
    (hf : ∀ a, Follows images (f a)) : Follows images (act >>= f) := by
  intro m₁ m₁' b hon hok
  obtain ⟨a, t₁, hfirst, hrest⟩ := bind_eq_ok.mp hok
  obtain ⟨hgrows, hfollow⟩ := hact hon hfirst
  obtain ⟨hgrows', hfollow'⟩ := hf a (by rw [hgrows.config, hon]) hrest
  refine ⟨IsTrans.trans _ _ _ hgrows hgrows', fun m₂ h hagree => ?_⟩
  obtain ⟨t₂, hfirst₂, ht⟩ := hfollow h (hagree.of_logGrows hgrows')
  obtain ⟨m₂', hrest₂, hm⟩ := hfollow' ht hagree
  exact ⟨m₂', bind_eq_ok.mpr ⟨a, t₂, hfirst₂, hrest₂⟩, hm⟩

theorem follows_step : Follows images step :=
  fun _ _ _ hon hok =>
    ⟨eachUpdate_logGrows.leaves_step.of_ok hok, fun _ h hagree => h.step hon hok hagree⟩

theorem follows_interrupt (i : Interrupt) : Follows images (interrupt i) := by
  have hnoted (m : Machine) := sameFlags_note m .debug fun _ =>
    i.name ++ " from " ++ Text.address m.registers.pc
  intro m₁ m₁' _ hon hok
  rw [interrupt, modify_bind_apply] at hok
  refine ⟨?_, fun m₂ h hagree => ?_⟩
  · have hperformed := (eachUpdate_logGrows.leaves_perform _ _).of_ok hok
    exact IsTrans.trans _ _ _ (logGrows_of_uses_eq (hnoted m₁).config (hnoted m₁).uses) hperformed
  · have hpair := h.of_sameFlags (hnoted m₁) (hnoted m₂)
    refine hpair.perform hon (.inr ⟨i.sparesRom_microcode.readsFirst, ?_⟩) hok hagree
    exact fun address offset hinside _ => nomatch hinside

theorem follows_irq : Follows images irq := by
  have hignore : Follows images (pure false) := follows_pure false
  have hinterrupt : Follows images (interrupt .irq >>= fun _ => pure true) :=
    (follows_interrupt .irq).bind fun _ => follows_pure true
  intro m₁ m₁' taken hon hok
  rw [irq_apply] at hok
  split at hok
  next hdisabled =>
    obtain ⟨hgrows, hfollow⟩ := hignore hon hok
    refine ⟨hgrows, fun m₂ h hagree => ?_⟩
    have hregisters : m₂.registers = m₁.registers := h.registers
    rw [irq_apply, hregisters, if_pos hdisabled]
    exact hfollow h hagree
  next henabled =>
    obtain ⟨hgrows, hfollow⟩ := hinterrupt hon hok
    refine ⟨hgrows, fun m₂ h hagree => ?_⟩
    have hregisters : m₂.registers = m₁.registers := h.registers
    rw [irq_apply, hregisters, if_neg henabled]
    exact hfollow h hagree

/-- The second machine follows every call. -/
theorem follows_act (c : Call) : Follows images c.act := by
  cases c with
  | step => exact follows_step.bind fun _ => follows_pure true
  | nmi => exact (follows_interrupt .nmi).bind fun _ => follows_pure true
  | reset => exact (follows_interrupt .reset).bind fun _ => follows_pure true
  | irq => exact follows_irq

/-- Make some calls, and write down each answer and the registers behind it. A call that fails ends
the sequence. -/
def visits (calls : List Call) : EStateM ExecutionError Machine (List (Bool × Registers)) :=
  calls.mapM fun c => do
    let taken ← c.act
    return (taken, (← get).registers)

theorem follows_visits (calls : List Call) : Follows images (visits calls) := by
  have hlook (taken : Bool) : Follows images (do return (taken, (← get).registers)) := by
    intro m₁ m₁' visited _ hok
    cases hok
    refine ⟨refl m₁, fun m₂ h _ => ⟨m₂, ?_, h⟩⟩
    rw [Machine.registers, ← h.registers]
    rfl
  induction calls with
  | nil => exact follows_pure []
  | cons c rest ih =>
    rw [visits, List.mapM_cons]
    refine Follows.bind ((follows_act c).bind hlook) fun visited => ?_
    exact ih.bind fun _ => follows_pure _

/-! ## Runs -/

/-- A byte of ROM that the log leaves unflagged has not influenced the run. Take two machines whose
boards are alike but for their images, with the same registers and configuration, and with empty
logs that are kept. If some calls succeed on the first, and the images agree at every offset that
it has then logged as code or as data, then the calls succeed on the second, with the same answers
and the same registers behind each, and the machines end with the same flags and alike. -/
theorem visits_of_agree_where_flagged (images : ImagePair) (m₁ m₂ m₁' : Machine)
    (hboards : m₁.board.Alike images m₂.board) (hregisters : m₂.registers = m₁.registers)
    (hconfig : m₂.config = m₁.config) (hon : m₁.config.codeDataLog = true)
    (hempty₁ : m₁.log = .empty) (hempty₂ : m₂.log = .empty) (calls : List Call)
    (visited : List (Bool × Registers)) (hok : visits calls m₁ = .ok visited m₁')
    (hagree : ∀ offset, m₁'.log.Flags offset →
      images.first[offset]? = images.second[offset]?) :
    ∃ m₂', visits calls m₂ = .ok visited m₂' ∧ m₂'.registers = m₁'.registers ∧
      m₂'.log.uses = m₁'.log.uses ∧ m₁'.board.Alike images m₂'.board := by
  have hstart : Paired images m₁ m₂ :=
    ⟨hregisters, hboards, hconfig, by rw [hempty₁, hempty₂]⟩
  have hfollows : Follows images (visits calls) := follows_visits calls
  obtain ⟨-, hfollow⟩ := hfollows hon hok
  obtain ⟨m₂', hok₂, hend⟩ := hfollow hstart hagree
  exact ⟨m₂', hok₂, hend.registers, hend.uses, hend.boards⟩

/-- Memory full of NOP, and the same with an undocumented opcode behind the first one. The step
flags only the first. -/
theorem visits_of_agree_at_first_opcode :
    let memory₁ : Vector UInt8 flatSize := Vector.replicate flatSize 0xEA
    let memory₂ := memory₁.set 1 0x02
    let machine (memory : Vector UInt8 flatSize) : Machine :=
      { core := ⟨.powerOn, .flat ⟨memory⟩⟩
        config := { codeDataLog := true }
        history := .ofCapacity 0 }
    let behind : Registers := { Registers.powerOn with pc := 1 }
    let images : ImagePair := ⟨memory₁.toArray, memory₂.toArray, by simp⟩
    ∃ m₁' m₂', visits [.step, .irq] (machine memory₁) = .ok [(true, behind), (false, behind)] m₁' ∧
      visits [.step, .irq] (machine memory₂) = .ok [(true, behind), (false, behind)] m₂' ∧
        m₂'.registers = m₁'.registers ∧ m₂'.log.uses = m₁'.log.uses ∧
          m₁'.board.Alike images m₂'.board := by
  intro memory₁ memory₂ machine behind images
  have hrun : succeedsWith (fun visited m => visited == [(true, behind), (false, behind)] &&
      m.log.uses.keys == [0]) (visits [.step, .irq] (machine memory₁)) = true := by decide +kernel
  obtain ⟨visited, m₁', hok, hend⟩ := exists_of_succeedsWith hrun
  simp only [Bool.and_eq_true, beq_iff_eq] at hend
  obtain ⟨rfl, huses⟩ := hend
  have hboards : (machine memory₁).board.Alike images (machine memory₂).board := by
    refine .flat fun offset hagree => ?_
    simpa [ImagePair.AgreeAt, images] using hagree.symm
  have hagree : ∀ offset, m₁'.log.Flags offset →
      images.first[offset]? = images.second[offset]? := by
    intro offset hflagged
    have hmem : offset ∈ m₁'.log.uses := by
      by_contra hnot
      rw [CodeDataLog.Flags, CodeDataLog.usage, Std.TreeMap.getD_eq_fallback hnot] at hflagged
      exact absurd hflagged (by decide)
    rw [← Std.TreeMap.mem_keys, huses, List.mem_singleton] at hmem
    rw [hmem]
    simp [images, memory₁, memory₂]
  obtain ⟨m₂', hok₂, hend⟩ := visits_of_agree_where_flagged images (machine memory₁)
    (machine memory₂) m₁' hboards rfl rfl rfl rfl rfl [.step, .irq] _ hok hagree
  exact ⟨m₁', m₂', hok, hok₂, hend⟩

end Machine

end Mos6502
