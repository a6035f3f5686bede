import Mos6502.Proofs.Calls

/-!
# What the code/data log flags

An offset is flagged once the log has it as code or as data. Flags are never lowered. While the log
is kept, all bytes of an instruction are flagged before it is performed, and every other byte of ROM
is flagged when it is read; the observers that render text flag nothing.
-/

namespace Mos6502

namespace CodeDataLog

/-- The offset is logged as code or as data. -/
def Flags (log : CodeDataLog) (offset : Nat) : Prop :=
  (log.usage offset).code = true ∨ (log.usage offset).data = true

/-- A mark is added to what its byte had, and to no other byte. -/
theorem usage_mark (log : CodeDataLog) (marked offset : Nat) (u : Usage) :
    (log.mark marked u).usage offset =
      if marked = offset then (log.usage offset).union u else log.usage offset := by
  unfold usage mark
  dsimp only
  rw [Std.TreeMap.getD_insert]
  by_cases h : marked = offset
  · rw [if_pos h, if_pos (compare_eq_iff_eq.mpr h), h]
  · rw [if_neg h, if_neg fun hcompare => h (compare_eq_iff_eq.mp hcompare)]

variable {log : CodeDataLog} {marked offset : Nat} {u : Usage}

theorem Flags.mark (h : log.Flags offset) : (log.mark marked u).Flags offset := by
  rw [Flags, usage_mark]
  split
  next => exact h.imp (fun hcode => by simp [hcode]) fun hdata => by simp [hdata]
  next => exact h

/-- A mark with either flag flags its byte. -/
theorem flags_mark (hu : u.code = true ∨ u.data = true) : (log.mark offset u).Flags offset := by
  rw [Flags, usage_mark, if_pos rfl]
  exact hu.imp (fun hcode => by simp [hcode]) fun hdata => by simp [hdata]

end CodeDataLog

def Span.addresses (span : Span) : List UInt16 :=
  (List.range span.size).map fun n => span.start + UInt16.ofNat n

theorem Span.mem_addresses {span : Span} {address : UInt16} (h : span.contains address = true) :
    address ∈ span.addresses := by
  refine List.mem_map.mpr ⟨(address - span.start).toNat, ?_, ?_⟩
  · exact List.mem_range.mpr (of_decide_eq_true h)
  · rw [UInt16.ofNat_toNat, UInt16.add_comm, UInt16.sub_add_cancel]

namespace Machine

variable {α : Type}

/-! ## The log behind each action -/

@[simp]
theorem log_note (m : Machine) (level : Level) (text : Unit → String) :
    (m.note level text).log = m.log := rfl

@[simp]
theorem log_fire (m : Machine) (events : Events) (address : UInt16) (value : UInt8) :
    (m.fire events address value).log = m.log := by
  obtain ⟨journal, hfire, -⟩ := m.fire_eq events address value
  rw [hfire]

@[simp]
theorem log_poke (m : Machine) (address : UInt16) (value : UInt8) :
    (m.poke address value).log = m.log := by
  obtain ⟨journal, hpoke, -⟩ := m.poke_eq address value
  rw [hpoke]

@[simp]
theorem log_record (m : Machine) (line : String) : (m.record line).log = m.log := by
  obtain ⟨journal, hrecord, -⟩ := m.record_eq line
  rw [hrecord]

theorem observe_eq_ok {view : Core → Except BoardError α} {m m' : Machine} {a : α}
    (h : observe view m = .ok a m') : m' = m := by
  unfold observe at h
  split at h <;> cases h
  rfl

theorem log_trace {i : Instruction} {m m' : Machine} (h : trace i m = .ok () m') :
    m'.log = m.log := by
  rw [trace_apply] at h
  split at h
  next =>
    obtain ⟨line, m₁, hline, hrecord⟩ := bind_eq_ok.mp h
    cases observe_eq_ok hline
    cases hrecord
    exact log_record m line
  next => cases h; rfl

/-- Listing an instruction marks no byte. -/
theorem uses_list {i : Instruction} {bytes : List UInt8} {m m' : Machine}
    (h : list i bytes m = .ok () m') : m'.log.uses = m.log.uses := by
  rw [list_apply] at h
  split at h
  next =>
    split at h
    next => cases h; rfl
    next =>
      obtain ⟨line, m₁, hline, hvisit⟩ := bind_eq_ok.mp h
      cases observe_eq_ok hline
      cases hvisit
      rfl
  next => cases h; rfl
  next => cases h; rfl

def markAll (addresses : List UInt16) (m : Machine) : Machine :=
  addresses.foldl (fun m address => m.mark address .executed) m

/-- Marking code is marking each address after its byte was read. -/
theorem markCode_eq_ok {addresses : List UInt16} {bytes : List UInt8} {m m' : Machine}
    (h : markCode addresses m = .ok bytes m') : m' = m.markAll addresses := by
  induction addresses generalizing bytes m with
  | nil => cases h; rfl
  | cons address rest ih =>
    obtain ⟨v, m₁, hpeek, hmark⟩ := bind_eq_ok.mp h
    cases observe_eq_ok hpeek
    rw [modify_bind_apply] at hmark
    obtain ⟨vs, m₂, hrest, hpure⟩ := bind_eq_ok.mp hmark
    cases hpure
    exact ih hrest

/-- Recording code marks the bytes of the instruction and nothing else. -/
theorem uses_logCode {i : Instruction} {m m' : Machine} (hon : m.config.codeDataLog = true)
    (h : logCode i m = .ok () m') :
    m'.log.uses = (m.markAll (Span.addresses ⟨m.registers.pc, i.size⟩)).log.uses := by
  rw [logCode_apply, if_pos hon] at h
  obtain ⟨bytes, m₁, hmark, hlist⟩ := bind_eq_ok.mp h
  rw [uses_list hlist, markCode_eq_ok hmark]
  rfl

/-! ## Flags are never lowered -/

/-- Between two moments of a run: the configuration stays, and what was flagged stays flagged. -/
structure LogGrows (m m' : Machine) : Prop where
  config : m'.config = m.config
  flags : ∀ offset, m.log.Flags offset → m'.log.Flags offset

instance : IsPreorder Machine LogGrows where
  refl _ := ⟨rfl, fun _ => id⟩
  trans _ _ _ h k := ⟨k.config.trans h.config, fun offset => k.flags offset ∘ h.flags offset⟩

theorem logGrows_of_uses_eq {m m' : Machine} (hconfig : m'.config = m.config)
    (huses : m'.log.uses = m.log.uses) : LogGrows m m' := by
  refine ⟨hconfig, fun offset h => ?_⟩
  unfold CodeDataLog.Flags CodeDataLog.usage at h ⊢
  rwa [huses]

theorem logGrows_fire (m : Machine) (events : Events) (address : UInt16) (value : UInt8) :
    LogGrows m (m.fire events address value) :=
  logGrows_of_uses_eq (inStep_fire m events address value).config (by rw [log_fire])

theorem logGrows_mark (m : Machine) (address : UInt16) (u : Usage) :
    LogGrows m (m.mark address u) := by
  refine ⟨(onlyLogs_mark m address u).config, fun offset h => ?_⟩
  unfold mark
  split
  next => exact h.mark
  next => exact h
  next => exact h

theorem logGrows_markAll (addresses : List UInt16) (m : Machine) :
    LogGrows m (m.markAll addresses) := by
  induction addresses generalizing m with
  | nil => exact refl m
  | cons address rest ih => exact IsTrans.trans _ _ _ (logGrows_mark m address .executed) (ih _)

theorem eachUpdate_logGrows : EachUpdate LogGrows where
  fire := logGrows_fire
  markLoaded m address := logGrows_mark m address .loaded
  markExecuted m address := logGrows_mark m address .executed
  poke m address value :=
    logGrows_of_uses_eq (inStep_poke m address value).config (by rw [log_poke])
  setRegisters _ _ := logGrows_of_uses_eq rfl rfl
  record m line := logGrows_of_uses_eq (onlyLogs_record m line).config (by rw [log_record])
  visit _ _ _ := logGrows_of_uses_eq rfl rfl
  nest _ _ := logGrows_of_uses_eq rfl rfl
  tick _ := logGrows_of_uses_eq rfl rfl
  note m level text := logGrows_of_uses_eq rfl rfl

/-! ## All bytes of an instruction are flagged -/

theorem locate_mark (m : Machine) (address marked : UInt16) (u : Usage) :
    (m.mark marked u).core.board.locate address = m.core.board.locate address := by
  rw [(onlyLogs_mark m marked u).core]

/-- A mark flags the byte at its address, if that lies in the image. -/
theorem flags_mark {m : Machine} {address : UInt16} {offset : Nat} {u : Usage}
    (hu : u.code = true ∨ u.data = true)
    (hlocate : m.core.board.locate address = .ok ⟨offset, true⟩) :
    (m.mark address u).log.Flags offset := by
  unfold mark
  rw [hlocate]
  exact CodeDataLog.flags_mark hu

theorem flags_markAll {addresses : List UInt16} {address : UInt16} (haddress : address ∈ addresses)
    {m : Machine} {offset : Nat} (hlocate : m.core.board.locate address = .ok ⟨offset, true⟩) :
    (m.markAll addresses).log.Flags offset := by
  induction addresses generalizing m with
  | nil => cases haddress
  | cons first rest ih =>
    rcases List.mem_cons.mp haddress with rfl | hrest
    · exact (logGrows_markAll rest _).flags offset (flags_mark (by decide) hlocate)
    · exact ih hrest ((locate_mark m address first .executed).trans hlocate)

/-- A read outside the instruction flags its byte. -/
theorem flags_markRead {m : Machine} (hon : m.config.codeDataLog = true) {span : Option Span}
    {address : UInt16} (houtside : span.any (·.contains address) = false) {offset : Nat}
    (hlocate : m.core.board.locate address = .ok ⟨offset, true⟩) :
    (m.markRead span address).log.Flags offset := by
  unfold markRead
  rw [hon, houtside]
  exact flags_mark (by decide) hlocate

theorem flags_logCode {i : Instruction} {m m' : Machine} (hon : m.config.codeDataLog = true)
    (h : logCode i m = .ok () m') {address : UInt16}
    (hinside : Span.contains ⟨m.registers.pc, i.size⟩ address = true) {offset : Nat}
    (hlocate : m.core.board.locate address = .ok ⟨offset, true⟩) : m'.log.Flags offset := by
  have hflags := flags_markAll (Span.mem_addresses hinside) hlocate
  unfold CodeDataLog.Flags CodeDataLog.usage at hflags ⊢
  rwa [uses_logCode hon h]

end Machine

end Mos6502
