import Mos6502.Proofs.AddressSpace
import Mos6502.Proofs.Recorder
import Mos6502.Proofs.Restore

/-!
# What the code/data log says

The log has an offset as code exactly if a byte of an executed instruction lay there, and as data
exactly if a byte there was read that did not belong to the instruction being executed
(`usage_after`). Both are meant at the moment of the access, since banks move. `Marks` follows the
log through all parts of an operation: what was marked before stays marked, and these offsets join.
-/

namespace Mos6502

theorem Span.mem_addresses_iff {span : Span} {address : UInt16} :
    address ∈ span.addresses ↔ span.contains address = true := by
  refine ⟨fun h => ?_, Span.mem_addresses⟩
  obtain ⟨n, hn, rfl⟩ := List.mem_map.mp h
  refine decide_eq_true ?_
  rw [UInt16.add_comm, UInt16.add_sub_cancel, UInt16.toNat_ofNat']
  exact Nat.lt_of_le_of_lt (Nat.mod_le n _) (List.mem_range.mp hn)

theorem Span.start_mem_addresses (start : UInt16) {size : Nat} (hsize : 0 < size) :
    start ∈ Span.addresses ⟨start, size⟩ :=
  Span.mem_addresses_iff.mpr (decide_eq_true (by rwa [UInt16.sub_self]))

theorem Instruction.size_pos (i : Instruction) : 0 < i.size := by
  unfold Instruction.size
  cases i.mode <;> decide

/-- A cartridge of 16 KiB that begins with some code. -/
def Nrom.ofCode (code : List UInt8) : Nrom where
  prg := ⟨(code ++ List.replicate 0x4000 0).take 0x4000⟩
  ram := .zeros
  cartRam := none
  size_prg := by
    simp only [List.size_toArray, List.length_take, List.length_append, List.length_replicate]
    omega

namespace Board

theorem kind_replay (b : Board) (ts : List Transfer) : (b.replay ts).kind = b.kind := by
  induction ts generalizing b with
  | nil => rfl
  | cons t rest ih =>
    have happly : (t.apply b).kind = b.kind := by
      cases t with
      | write address value => cases b <;> rfl
      | read | execute => rfl
    exact (ih (t.apply b)).trans happly

/-- On a cartridge only the ROM window lies in ROM. -/
theorem rom_of_locate {b : Board} (hkind : b.kind ≠ .flat) {address : UInt16} {offset : Nat}
    (h : b.locate address = .ok ⟨offset, true⟩) : 0x8000 ≤ address := by
  by_contra hbelow
  have hram : address.toNat < 0x8000 := UInt16.lt_iff_toNat_lt.mp (UInt16.not_le.mp hbelow)
  have hofRam : (Location.ofRam address).inRom = false := by
    unfold Location.ofRam
    split <;> rfl
  cases b with
  | nrom b =>
    have hlocate : Location.ofRam address = ⟨offset, true⟩ :=
      (b.locate_of_ram hram).symm.trans (Except.ok.inj h)
    rw [hlocate] at hofRam
    cases hofRam
  | mmc1 b =>
    have hlocate : Location.ofRam address = ⟨offset, true⟩ :=
      Except.ok.inj ((b.locate_of_ram hram).symm.trans h)
    rw [hlocate] at hofRam
    cases hofRam
  | flat b => exact hkind rfl

end Board

namespace Episode

/-- The instruction of the episode has a byte at the address, which lies in ROM at the offset. -/
def ExecutesAt (e : Episode) (address : UInt16) (offset : Nat) : Prop :=
  ∃ span, e.during = some span ∧ address ∈ span.addresses ∧
    e.board.locate address = .ok ⟨offset, true⟩

/-- A read of the episode is made at the address, which at that moment lies in ROM at the offset,
and does not lie in the instruction. -/
def LoadsAt (e : Episode) (address : UInt16) (offset : Nat) : Prop :=
  ∃ earlier value later, e.transfers = earlier ++ .read address value :: later ∧
    (∀ span, e.during = some span → address ∉ span.addresses) ∧
    (e.board.replay earlier).locate address = .ok ⟨offset, true⟩

variable {during : Option Span} {b : Board} {ts : List Transfer} {t : Transfer}
  {address : UInt16} {offset : Nat}

theorem not_loadsAt_nil : ¬ LoadsAt ⟨during, b, []⟩ address offset := by
  rintro ⟨earlier, value, later, hts, -, -⟩
  simp at hts

/-- Loads are found by following the transfers on the board. -/
theorem loadsAt_cons :
    LoadsAt ⟨during, b, t :: ts⟩ address offset ↔
      (∃ value, t = .read address value) ∧
          (∀ span, during = some span → address ∉ span.addresses) ∧
          b.locate address = .ok ⟨offset, true⟩ ∨
        LoadsAt ⟨during, t.apply b, ts⟩ address offset := by
  constructor
  · rintro ⟨earlier, value, later, hts, houtside, hlocate⟩
    cases earlier with
    | nil =>
      cases hts
      exact .inl ⟨⟨value, rfl⟩, houtside, hlocate⟩
    | cons first earlier =>
      cases hts
      exact .inr ⟨earlier, value, later, rfl, houtside, hlocate⟩
  · rintro (⟨⟨value, rfl⟩, houtside, hlocate⟩ | ⟨earlier, value, later, hts, houtside, hlocate⟩)
    · exact ⟨[], value, ts, rfl, houtside, hlocate⟩
    · exact ⟨t :: earlier, value, later, congrArg (t :: ·) hts, houtside, hlocate⟩

/-- The fetch lies in the instruction and is no load. -/
theorem loadsAt_fetched {pc : UInt16} {size : Nat} (hsize : 0 < size) (opcode : UInt8) :
    LoadsAt ⟨some ⟨pc, size⟩, b, [.read pc opcode, .execute pc opcode] ++ ts⟩ address offset ↔
      LoadsAt ⟨some ⟨pc, size⟩, b, ts⟩ address offset := by
  rw [List.cons_append, List.cons_append, List.nil_append, loadsAt_cons, loadsAt_cons]
  refine ⟨?_, fun hload => .inr (.inr hload)⟩
  rintro (⟨⟨value, hread⟩, houtside, -⟩ | ⟨⟨value, hread⟩, -⟩ | hload)
  · cases hread
    exact absurd (Span.start_mem_addresses _ hsize) (houtside _ rfl)
  · cases hread
  · exact hload

end Episode

namespace Machine

variable {α : Type} {m m' m'' : Machine}

/-- Between the two moments these offsets have been logged, as code and as data, and no others. -/
structure Marks (code data : Nat → Prop) (m m' : Machine) : Prop where
  config : m'.config = m.config
  code : ∀ offset, (m'.log.usage offset).code = true ↔
    (m.log.usage offset).code = true ∨ code offset
  data : ∀ offset, (m'.log.usage offset).data = true ↔
    (m.log.usage offset).data = true ∨ data offset

namespace Marks

variable {code code' data data' : Nat → Prop}

theorem congr (h : Marks code data m m') (hcode : ∀ offset, code offset ↔ code' offset)
    (hdata : ∀ offset, data offset ↔ data' offset) : Marks code' data' m m' where
  config := h.config
  code offset := by rw [h.code, hcode]
  data offset := by rw [h.data, hdata]

theorem trans (h : Marks code data m m') (k : Marks code' data' m' m'') :
    Marks (fun offset => code offset ∨ code' offset) (fun offset => data offset ∨ data' offset)
      m m'' where
  config := k.config.trans h.config
  code offset := by rw [k.code, h.code, or_assoc]
  data offset := by rw [k.data, h.data, or_assoc]

end Marks

theorem marks_of_uses_eq (hconfig : m'.config = m.config) (huses : m'.log.uses = m.log.uses) :
    Marks (fun _ => False) (fun _ => False) m m' := by
  refine ⟨hconfig, fun offset => ?_, fun offset => ?_⟩ <;>
    rw [CodeDataLog.usage, huses, or_false] <;> rfl

/-- An action that records nothing marks nothing. -/
theorem Idle.marks (h : Idle m m') : Marks (fun _ => False) (fun _ => False) m m' :=
  marks_of_uses_eq h.config (by rw [h.log])

theorem marks_fire (m : Machine) (events : Events) (address : UInt16) (value : UInt8) :
    Marks (fun _ => False) (fun _ => False) m (m.fire events address value) :=
  marks_of_uses_eq (inStep_fire m events address value).config (by rw [log_fire])

/-- A single mark falls on the byte of the image at this address, if there is one. -/
theorem marks_mark (m : Machine) (address : UInt16) (u : Usage) :
    Marks (fun offset => u.code = true ∧ m.core.board.locate address = .ok ⟨offset, true⟩)
      (fun offset => u.data = true ∧ m.core.board.locate address = .ok ⟨offset, true⟩)
      m (m.mark address u) := by
  unfold mark
  split
  next marked hlocate =>
    refine ⟨rfl, fun offset => ?_, fun offset => ?_⟩ <;>
      by_cases h : marked = offset <;>
        simp [CodeDataLog.usage_mark, hlocate, h]
  next marked hlocate => exact (Idle.refl m).marks.congr (by simp [hlocate]) (by simp [hlocate])
  next e hlocate => exact (Idle.refl m).marks.congr (by simp [hlocate]) (by simp [hlocate])

theorem marks_markAll (addresses : List UInt16) (m : Machine) :
    Marks (fun offset => ∃ address ∈ addresses,
        m.core.board.locate address = .ok ⟨offset, true⟩)
      (fun _ => False) m (m.markAll addresses) := by
  induction addresses generalizing m with
  | nil => exact (Idle.refl m).marks.congr (by simp) fun _ => Iff.rfl
  | cons address rest ih =>
    have hrest := ih (m.mark address .executed)
    rw [(onlyLogs_mark m address .executed).core] at hrest
    refine ((marks_mark m address .executed).trans hrest).congr (fun offset => ?_) fun offset => ?_
    · simp
    · simp

/-- A read is logged while the log is kept, unless it lies in the instruction. -/
theorem marks_markRead (m : Machine) (span : Option Span) (address : UInt16) :
    Marks (fun _ => False)
      (fun offset => m.config.codeDataLog = true ∧
        (∀ s, span = some s → address ∉ s.addresses) ∧
        m.core.board.locate address = .ok ⟨offset, true⟩)
      m (m.markRead span address) := by
  have houtside : (∀ s, span = some s → address ∉ s.addresses) ↔
      span.any (·.contains address) = false := by
    cases span with
    | none => simp
    | some s => simp [Span.mem_addresses_iff]
  unfold markRead
  split
  next hlogged =>
    obtain ⟨hon, hspan⟩ := (Bool.and_eq_true _ _).mp hlogged
    refine (marks_mark m address .loaded).congr (fun offset => ?_) fun offset => ?_
    · simp
    · rw [houtside, hon]
      simp_all
  next hsilent =>
    refine (Idle.refl m).marks.congr (fun _ => Iff.rfl) fun offset => ?_
    rw [houtside]
    simp_all

/-! ## Performed microcode -/

/-- The offsets that some episodes log as code, which they do while the log is kept. -/
def Executes (m : Machine) (es : List Episode) (offset : Nat) : Prop :=
  m.config.codeDataLog = true ∧ ∃ e ∈ es, ∃ address, e.ExecutesAt address offset

/-- The offsets that some episodes log as data. -/
def Loads (m : Machine) (es : List Episode) (offset : Nat) : Prop :=
  m.config.codeDataLog = true ∧ ∃ e ∈ es, ∃ address, e.LoadsAt address offset

theorem loads_singleton (m : Machine) (e : Episode) (offset : Nat) :
    m.Loads [e] offset ↔ m.config.codeDataLog = true ∧ ∃ address, e.LoadsAt address offset := by
  simp [Loads]

theorem loads_congr (hconfig : m'.config = m.config) (es : List Episode) :
    m'.Loads es = m.Loads es := by
  unfold Loads
  rw [hconfig]

theorem executes_congr (hconfig : m'.config = m.config) (es : List Episode) :
    m'.Executes es = m.Executes es := by
  unfold Executes
  rw [hconfig]

/-- Performed microcode logs its reads from outside the instruction, and nothing else. -/
theorem marks_perform (span : Option Span) (p : Microcode α) (m : Machine) :
    Marks (fun _ => False) (m.Loads [⟨span, m.core.board, p.transfers m.core⟩]) m
      (finalState (perform span p m)) := by
  induction p generalizing m with
  | done result =>
    refine (Idle.refl m).marks.congr (fun _ => Iff.rfl) fun offset => ?_
    simp [loads_singleton, Microcode.transfers, Episode.not_loadsAt_nil]
  | read address next ih =>
    rw [perform, Microcode.transfers]
    dsimp only
    cases hread : m.core.board.read address with
    | error e =>
      refine (Idle.refl m).marks.congr (fun _ => Iff.rfl) fun offset => ?_
      simp [loads_singleton, Episode.not_loadsAt_nil]
    | ok v =>
      have hmark := (marks_markRead m span address).trans
        (marks_fire (m.markRead span address) .read address v)
      have hcore : ((m.markRead span address).fire .read address v).core = m.core := by
        rw [core_fire, (onlyLogs_markRead m span address).core]
      have hrest := ih v ((m.markRead span address).fire .read address v)
      rw [loads_congr hmark.config, hcore] at hrest
      refine (hmark.trans hrest).congr (fun offset => by simp) fun offset => ?_
      simp [loads_singleton, Episode.loadsAt_cons, Transfer.apply, exists_or, and_or_left]
  | write address value next ih =>
    have hpoke : Marks (fun _ => False) (fun _ => False) m (m.poke address value) :=
      marks_of_uses_eq (inStep_poke m address value).config (by rw [log_poke])
    have hwrite := hpoke.trans (marks_fire (m.poke address value) .write address value)
    have hrest := ih ((m.poke address value).fire .write address value)
    rw [loads_congr hwrite.config, core_fire, core_poke] at hrest
    refine (hwrite.trans hrest).congr (fun offset => by simp) fun offset => ?_
    simp [loads_singleton, Microcode.transfers, Episode.loadsAt_cons, Transfer.apply]
  | inspect next ih => exact ih m.core.registers m
  | assign registers next ih =>
    have hset : Marks (fun _ => False) (fun _ => False) m (m.setRegisters registers) :=
      marks_of_uses_eq rfl rfl
    have hrest := ih (m.setRegisters registers)
    refine (hset.trans hrest).congr (fun offset => by simp) fun offset => ?_
    rw [false_or]
    exact Iff.rfl

/-! ## Steps -/

/-- The log has at most gained code. -/
def OnlyCode (m m' : Machine) : Prop := ∃ code, Marks code (fun _ => False) m m'

instance : IsPreorder Machine OnlyCode where
  refl m := ⟨_, (Idle.refl m).marks⟩
  trans _ _ _ := by
    rintro ⟨code, h⟩ ⟨code', k⟩
    exact ⟨_, (h.trans k).congr (fun _ => Iff.rfl) fun _ => by simp⟩

theorem onlyCode_of_uses_eq (hconfig : m'.config = m.config) (huses : m'.log.uses = m.log.uses) :
    OnlyCode m m' :=
  ⟨_, marks_of_uses_eq hconfig huses⟩

/-- What is recorded about an instruction is code and never data. -/
theorem eachRecord_onlyCode : EachRecord OnlyCode where
  markExecuted m address :=
    ⟨_, (marks_mark m address .executed).congr (fun _ => Iff.rfl) fun _ => by simp⟩
  record m line := onlyCode_of_uses_eq (onlyLogs_record m line).config (by rw [log_record])
  visit _ _ _ := onlyCode_of_uses_eq rfl rfl

/-- The observers of an instruction log nothing as data, also where they fail. -/
theorem leaves_announce_onlyCode (i : Instruction) : Leaves OnlyCode (announce i) :=
  .bind (eachRecord_onlyCode.leaves_trace i) fun _ => eachRecord_onlyCode.leaves_logCode i

/-- The read of the opcode lies within the span and is no load. -/
theorem loads_fetched (m : Machine) {size : Nat} (hsize : 0 < size) (b : Board) (pc : UInt16)
    (opcode : UInt8) (ts : List Transfer) (offset : Nat) :
    m.Loads [⟨some ⟨pc, size⟩, b, [.read pc opcode, .execute pc opcode] ++ ts⟩] offset ↔
      m.Loads [⟨some ⟨pc, size⟩, b, ts⟩] offset := by
  simp only [loads_singleton, Episode.loadsAt_fetched hsize]

theorem loads_fetch (m : Machine) {size : Nat} (hsize : 0 < size) (b : Board) (pc : UInt16)
    (opcode : UInt8) (offset : Nat) :
    ¬ m.Loads [⟨some ⟨pc, size⟩, b, [.read pc opcode, .execute pc opcode]⟩] offset := by
  have hnone := loads_fetched m hsize b pc opcode [] offset
  rw [List.append_nil] at hnone
  simp [hnone, loads_singleton, Episode.not_loadsAt_nil]

/-- Fetching marks nothing: what it reads is spared. -/
theorem marks_fetch {opcode : UInt8} (h : fetch m = .ok opcode m') :
    Marks (fun _ => False) (fun _ => False) m m' := by
  cases h.symm.trans (fetch_of_read (fetch_eq_ok h).1)
  have hread := marks_markRead m (some ⟨m.registers.pc, 1⟩) m.registers.pc
  refine ((hread.trans (marks_fire _ _ _ _)).trans (marks_fire _ _ _ _)).congr
    (fun offset => by simp) fun offset => ?_
  simp [Span.start_mem_addresses m.registers.pc Nat.one_pos]

/-- Observers that succeed have logged all bytes of the instruction as code. -/
theorem marks_announce {i : Instruction} (h : announce i m = .ok () m') (ts : List Transfer) :
    Marks (m.Executes [⟨some ⟨m.registers.pc, i.size⟩, m.board, ts⟩]) (fun _ => False) m m' := by
  obtain ⟨u, m₁, htrace, hlog⟩ := bind_eq_ok.mp h
  have hlogs := (leaves_trace i).of_ok htrace
  have htraced : Marks (fun _ => False) (fun _ => False) m m₁ :=
    marks_of_uses_eq hlogs.config (by rw [log_trace htrace])
  cases hon : m₁.config.codeDataLog with
  | false =>
    rw [logCode_apply, hon, if_neg Bool.false_ne_true] at hlog
    cases hlog
    refine htraced.congr (fun offset => ?_) fun _ => Iff.rfl
    simp [Executes, ← hlogs.config, hon]
  | true =>
    have hmarks := marks_markAll (Span.addresses ⟨m₁.registers.pc, i.size⟩) m₁
    have hconfig := ((leaves_logCode i).of_ok hlog).config.trans hmarks.config.symm
    have hlogged := hmarks.trans (marks_of_uses_eq hconfig (uses_logCode hon hlog))
    refine (htraced.trans hlogged).congr (fun offset => ?_) fun offset => by simp
    rw [registers, hlogs.core]
    simp [Executes, Episode.ExecutesAt, ← hlogs.config, hon, registers, board]

/-- What a step logs: as data the loads of its episode, and as code the bytes of its instruction if
it comes to perform it. -/
theorem Progress.marks {e : Episode} {reached : Bool} (h : Progress m e reached m') :
    ∃ code, Marks code (m.Loads [e]) m m' ∧
      (reached = true → ∀ offset, code offset ↔ m.Executes [e] offset) := by
  cases h with
  | unreadable hfetch =>
    refine ⟨_, (Idle.refl m).marks.congr (fun _ => Iff.rfl) fun offset => ?_, nofun⟩
    simp [loads_singleton, Episode.not_loadsAt_nil]
  | undecoded hfetch hdecode =>
    -- The fetch lies in the span, so that it is no load, and code is logged behind the decoding.
    refine ⟨_, (marks_fetch hfetch).congr (fun _ => Iff.rfl) fun offset => ?_, nofun⟩
    simp [loads_fetch m Nat.one_pos]
  | @unannounced opcode i m₁ m' err hfetch hdecode hannounce =>
    -- Some bytes may be logged already, and which ones is left open.
    obtain ⟨code, hcode⟩ := (leaves_announce_onlyCode i).of_error hannounce
    refine ⟨_, ((marks_fetch hfetch).trans hcode).congr (fun _ => Iff.rfl) fun offset => ?_, nofun⟩
    simp [loads_fetch m i.size_pos]
  | @performed opcode i m₁ m₂ hfetch hdecode hannounce =>
    have hlogs := (leaves_announce i).of_ok hannounce
    have hfetched := marks_fetch hfetch
    have hcore := (fetch_eq_ok hfetch).2
    have hannounced := marks_announce hannounce
      ([.read m.registers.pc opcode, .execute m.registers.pc opcode] ++
        i.microcode.transfers m.core)
    have hperformed := marks_perform (some ⟨m.registers.pc, i.size⟩) i.microcode m₂
    rw [executes_congr hfetched.config, registers, board, hcore] at hannounced
    rw [loads_congr (hannounced.config.trans hfetched.config), hlogs.core, hcore] at hperformed
    refine ⟨_, ((hfetched.trans hannounced).trans hperformed).congr (fun _ => Iff.rfl)
      fun offset => ?_, fun _ offset => ?_⟩
    · rw [loads_fetched m i.size_pos]
      simp [board]
    · simp [registers, board]

/-! ## Operations -/

/-- Between the two moments the log has gained what some episodes load, and, provided that they
succeed, just what they execute. -/
def Gains (es : List Episode) (succeeds : Prop) (m m' : Machine) : Prop :=
  ∃ code, Marks code (m.Loads es) m m' ∧ (succeeds → ∀ offset, code offset ↔ m.Executes es offset)

theorem loads_append (m : Machine) (es fs : List Episode) (offset : Nat) :
    m.Loads (es ++ fs) offset ↔ m.Loads es offset ∨ m.Loads fs offset := by
  simp only [Loads, List.mem_append, or_and_right, exists_or, and_or_left]

theorem executes_append (m : Machine) (es fs : List Episode) (offset : Nat) :
    m.Executes (es ++ fs) offset ↔ m.Executes es offset ∨ m.Executes fs offset := by
  simp only [Executes, List.mem_append, or_and_right, exists_or, and_or_left]

namespace Gains

variable {es fs : List Episode} {p q : Prop}

/-- Gains made one after the other add up; both parts have to succeed for the whole to be complete.
-/
theorem trans (h : Gains es p m m') (k : Gains fs q m' m'') : Gains (es ++ fs) (p ∧ q) m m'' := by
  obtain ⟨code, hmarks, hcode⟩ := h
  obtain ⟨code', hmarks', hcode'⟩ := k
  rw [loads_congr hmarks.config] at hmarks'
  rw [executes_congr hmarks.config] at hcode'
  refine ⟨_, (hmarks.trans hmarks').congr (fun _ => Iff.rfl) fun offset => ?_, ?_⟩
  · exact (loads_append m es fs offset).symm
  · rintro ⟨hp, hq⟩ offset
    rw [executes_append, hcode hp, hcode' hq]

/-- Gains that are complete under a condition are so under a stronger one. -/
theorem mono (h : Gains es p m m') (hpq : q → p) : Gains es q m m' := by
  obtain ⟨code, hmarks, hcode⟩ := h
  exact ⟨code, hmarks, hcode ∘ hpq⟩

theorem trans_idle (h : Gains es p m m') (k : Idle m' m'') : Gains es p m m'' := by
  obtain ⟨code, hmarks, hcode⟩ := h
  refine ⟨_, (hmarks.trans k.marks).congr (fun _ => Iff.rfl) fun _ => by simp, fun hp offset => ?_⟩
  rw [or_false, hcode hp]

end Gains

theorem gains_nil (hconfig : m'.config = m.config) (huses : m'.log.uses = m.log.uses) (p : Prop) :
    Gains [] p m m' := by
  refine ⟨_, (marks_of_uses_eq hconfig huses).congr (fun _ => Iff.rfl) fun _ => ?_, fun _ _ => ?_⟩
  · simp [Loads]
  · simp [Executes]

theorem Idle.gains (h : Idle m m') (p : Prop) : Gains [] p m m' :=
  gains_nil h.config (by rw [h.log]) p

/-- Outside an instruction every read of the image is a load. -/
theorem gains_perform (p : Microcode α) (m : Machine) :
    Gains [⟨none, m.board, p.transfers m.core⟩] True m (finalState (perform none p m)) := by
  refine ⟨_, marks_perform none p m, fun _ offset => ?_⟩
  simp [Executes, Episode.ExecutesAt]

/-- A step gains the loads of its episode, and its code if it succeeds. -/
theorem gains_step (m : Machine) :
    Gains [m.stepEpisode] (Succeeds (step m)) m (finalState (step m)) := by
  obtain ⟨reached, m', hprogress, hidle, hreached⟩ := step_progress m
  have hgains : Gains [m.stepEpisode] (reached = true) m m' := hprogress.marks
  refine (hgains.trans_idle hidle).mono ?_
  rintro ⟨_, k, hk⟩
  exact hreached k hk

/-- A run gains what its steps gain, by induction on the budget. -/
theorem gains_runFrom (budget executed : Nat) (m : Machine) :
    Gains ((begunFrom budget executed m).map stepEpisode)
      (Succeeds (runFrom budget executed m)) m (finalState (runFrom budget executed m)) := by
  refine runFrom_induct (motive := fun begun m r =>
    Gains (begun.map stepEpisode) (Succeeds r) m (finalState r)) ?_ ?_ ?_ budget executed m
  · exact fun m r hidle => hidle.gains _
  · intro m m' begun r hstep hrest
    have hgains := gains_step m
    rw [hstep] at hgains
    exact (hgains.trans hrest).mono fun hr => ⟨⟨(), m', rfl⟩, hr⟩
  · intro m m' e fault m'' hstep hidle
    have hgains := gains_step m
    rw [hstep] at hgains
    refine (hgains.trans_idle hidle).mono ?_
    rintro ⟨_, _, hr⟩
    cases hr

theorem gains_runRoutine (address : UInt16) (budget : Nat) (m : Machine) :
    Gains (Operation.episodes (.runRoutine address budget) m)
      (Succeeds (runRoutine address budget m)) m (finalState (runRoutine address budget m)) := by
  have hpush := gains_perform (Microcode.pushWord (m.registers.pc - 1)) m
  let pushed := finalState (perform none (Microcode.pushWord (m.registers.pc - 1)) m)
  have hconfig : (m.enter address).config = pushed.config := rfl
  have henter : Gains [] True pushed (m.enter address) := gains_nil hconfig rfl True
  have hrun := (gains_runFrom budget 0 (m.enter address)).trans_idle
    (idle_runRoutine address budget m)
  exact (hpush.trans (henter.trans hrun)).mono
    fun h => ⟨trivial, trivial, succeeds_run_of_runRoutine h⟩

theorem gains_interrupt (i : Interrupt) (m : Machine) :
    Gains [⟨none, m.board, i.microcode.transfers m.core⟩] True m (finalState (interrupt i m)) := by
  have hnote := idle_note m .debug fun _ => i.name ++ " from " ++ Text.address m.registers.pc
  have hperform := gains_perform i.microcode
    (m.note .debug fun _ => i.name ++ " from " ++ Text.address m.registers.pc)
  exact ((hnote.gains True).trans hperform).mono fun _ => ⟨trivial, trivial⟩

/-- Every operation gains what its episodes say. -/
theorem gains_act (op : Operation) (m : Machine) :
    Gains (op.episodes m) (Succeeds (op.act m)) m (finalState (op.act m)) := by
  cases op with
  | step => exact gains_step m
  | run budget =>
    rw [Operation.act, finalState_ofFault]
    exact (gains_runFrom budget 0 m).mono succeeds_of_ofFault
  | runRoutine address budget =>
    rw [Operation.act, finalState_ofFault]
    exact (gains_runRoutine address budget m).mono succeeds_of_ofFault
  | interrupt i => exact (gains_interrupt i m).mono fun _ => trivial
  | irq =>
    rw [Operation.act, finalState_bind_pure, irq_apply, Operation.episodes]
    split
    next => exact (Idle.refl m).gains _
    next =>
      rw [finalState_bind_pure]
      exact (gains_interrupt .irq m).mono fun _ => trivial
  | access p => exact (gains_perform p m).mono fun _ => trivial
  | look view =>
    rw [Operation.act, finalState_observe]
    exact (Idle.refl m).gains _

theorem gains_actAll (m : Machine) (ops : List Operation) (h : actAll ops m = .ok () m') :
    Gains (m.episodes ops) True m m' := by
  induction ops generalizing m with
  | nil =>
    cases h
    exact (Idle.refl _).gains True
  | cons op rest ih =>
    obtain ⟨_, m₁, hact, hrest⟩ := bind_eq_ok.mp h
    have hgains := gains_act op m
    rw [hact] at hgains
    have hafter := ih m₁ hrest
    rw [episodes, hact]
    exact (hgains.trans hafter).mono fun _ => ⟨⟨(), m₁, rfl⟩, trivial⟩

/-! ## No flag is lost -/

/-- What was logged as code or as data is still logged. -/
def KeepsFlags (m m' : Machine) : Prop :=
  ∀ offset, ((m.log.usage offset).code = true → (m'.log.usage offset).code = true) ∧
    ((m.log.usage offset).data = true → (m'.log.usage offset).data = true)

theorem keepsFlags_of_log_eq (h : m'.log = m.log) : KeepsFlags m m' := by
  intro offset
  rw [h]
  exact ⟨id, id⟩

theorem Marks.keepsFlags {code data : Nat → Prop} (h : Marks code data m m') : KeepsFlags m m' :=
  fun offset => ⟨fun hcode => (h.code offset).mpr (.inl hcode),
    fun hdata => (h.data offset).mpr (.inl hdata)⟩

/-- No operation takes a mark away. -/
theorem keepsFlags_act (op : Operation) (m : Machine) : KeepsFlags m (finalState (op.act m)) := by
  obtain ⟨code, hmarks, -⟩ := gains_act op m
  exact hmarks.keepsFlags

theorem log_hardReset (m : Machine) : (finalState (hardReset m)).log = m.log := by
  rw [hardReset, modify_bind_apply]
  cases hpc : Core.peekWord ⟨.powerOn, m.core.board.clearRam⟩ Interrupt.reset.vector with
  | ok pc => rw [bind_of_ok (observe_of_ok hpc)]; rfl
  | error e => rw [bind_of_error (observe_of_error hpc)]; rfl

theorem log_restoreBoard (s : Snapshot) (m : Machine) :
    (finalState (restoreBoard s m)).log = m.log := by
  unfold restoreBoard
  split <;> rfl

theorem keepsFlags_apply (d : Disturbance) (m : Machine) : KeepsFlags m (d.apply m) := by
  cases d with
  | call c =>
    cases c with
    | step => rw [Disturbance.apply, Call.act, finalState_bind_pure]; exact keepsFlags_act .step m
    | nmi =>
      rw [Disturbance.apply, Call.act, finalState_bind_pure]
      exact keepsFlags_act (.interrupt .nmi) m
    | reset =>
      rw [Disturbance.apply, Call.act, finalState_bind_pure]
      exact keepsFlags_act (.interrupt .reset) m
    | irq =>
      have hirq := keepsFlags_act .irq m
      rwa [Operation.act, finalState_bind_pure] at hirq
  | interrupt i => exact keepsFlags_act (.interrupt i) m
  | write address value => exact keepsFlags_act (.access (Microcode.writeByte address value)) m
  | poke address value => exact keepsFlags_of_log_eq (log_poke m address value)
  | clearRam => exact keepsFlags_of_log_eq rfl
  | hardReset => exact keepsFlags_of_log_eq (log_hardReset m)
  | restore s => exact keepsFlags_of_log_eq (log_restoreBoard s m)
  | configure config => exact keepsFlags_of_log_eq rfl

/-! ## The log as a whole -/

/-- Operations that all succeed log, on an empty log, exactly the bytes of the executed instructions
as code and exactly the bytes that were read from outside of the instruction being executed as data,
each by the offset that it had at that moment. On a cartridge all of them lie in the ROM window. No
operation and no other disturbance lowers a flag, however it ends; only to clear the log does. -/
theorem usage_after (m m' : Machine) (ops : List Operation) (hon : m.config.codeDataLog = true)
    (hempty : m.log = .empty) (hok : actAll ops m = .ok () m') :
    (∀ offset,
      ((m'.log.usage offset).code = true ↔
        ∃ e ∈ m.episodes ops, ∃ address, e.ExecutesAt address offset) ∧
      ((m'.log.usage offset).data = true ↔
        ∃ e ∈ m.episodes ops, ∃ address, e.LoadsAt address offset)) ∧
    (m.board.kind ≠ .flat → ∀ e ∈ m.episodes ops, ∀ address offset,
      e.ExecutesAt address offset ∨ e.LoadsAt address offset → 0x8000 ≤ address) ∧
    (∀ (op : Operation) k, KeepsFlags k (finalState (op.act k))) ∧
    (∀ (d : Disturbance) k, KeepsFlags k (d.apply k)) ∧
    ∀ (k : Machine) offset, k.clearLog.log.usage offset = {} := by
  refine ⟨fun offset => ?_, fun hkind e he address offset huses => ?_, keepsFlags_act,
    keepsFlags_apply, fun k offset => rfl⟩
  · obtain ⟨code, hmarks, hcode⟩ := gains_actAll m ops hok
    have hnone : m.log.usage offset = {} := by rw [hempty]; rfl
    rw [hmarks.code, hmarks.data, hcode trivial, hnone]
    simp [Executes, Loads, hon]
  · obtain ⟨earlier, later, hepisodes⟩ := List.append_of_mem he
    have hboard := (conveys_after m ops).unfolds.board_eq hepisodes
    have hrom : e.board.kind ≠ .flat := by rwa [hboard, Board.kind_replay]
    rcases huses with ⟨span, -, -, hlocate⟩ | ⟨before, value, behind, -, -, hlocate⟩
    · exact Board.rom_of_locate hrom hlocate
    · exact Board.rom_of_locate (by rwa [Board.kind_replay]) hlocate

/-- A machine that keeps the log, in front of some code on a cartridge of 16 KiB. -/
def logging (code : List UInt8) : Machine where
  core := ⟨{ Registers.powerOn with pc := 0x8000 }, .nrom (.ofCode code)⟩
  config := { codeDataLog := true }
  history := .ofCapacity 0

/-- `LDA $8004`, `NOP` and an interrupt: code is what the instructions are made of, data what the
load points at and the vector of the interrupt. -/
theorem usage_after_load :
    ∃ m', actAll [.step, .step, .interrupt .nmi] (logging [0xAD, 0x04, 0x80, 0xEA]) = .ok () m' ∧
      m'.log.uses.toList = [(0, .executed), (1, .executed), (2, .executed), (3, .executed),
        (4, .loaded), (0x3FFA, .loaded), (0x3FFB, .loaded)] ∧
      ∀ offset,
        ((m'.log.usage offset).code = true ↔
          ∃ e ∈ (logging [0xAD, 0x04, 0x80, 0xEA]).episodes [.step, .step, .interrupt .nmi],
            ∃ address, e.ExecutesAt address offset) ∧
        ((m'.log.usage offset).data = true ↔
          ∃ e ∈ (logging [0xAD, 0x04, 0x80, 0xEA]).episodes [.step, .step, .interrupt .nmi],
            ∃ address, e.LoadsAt address offset) := by
  have hrun : succeedsWith (fun _ m' => m'.log.uses.toList == [(0, .executed), (1, .executed),
        (2, .executed), (3, .executed), (4, .loaded), (0x3FFA, .loaded), (0x3FFB, .loaded)])
      (actAll [.step, .step, .interrupt .nmi] (logging [0xAD, 0x04, 0x80, 0xEA])) = true := by
    decide +kernel
  obtain ⟨u, m', hok, huses⟩ := exists_of_succeedsWith hrun
  exact ⟨m', hok, beq_iff_eq.mp huses, (usage_after _ m' _ rfl rfl hok).1⟩

end Machine

end Mos6502
