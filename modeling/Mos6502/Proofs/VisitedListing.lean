import Mos6502.Proofs.Coverage
import Mos6502.Proofs.FramingBits
import Mos6502.Proofs.LogOutput

/-!
# What the listing lists

While the log is kept, an instruction whose opcode lies in ROM is listed when it is executed, unless
its offset has a line: so each offset keeps the line of the first instruction that was executed
there. `Lists` follows the lines through all parts of an operation. When the listing is written, the
mnemonic is read back from the line (`lineMnemonic_listingLine`), and an empty line behind it shows
where a block ends.
-/

namespace Mos6502

/-! ## The mnemonic of a line -/

namespace Text

theorem hexDigit_ne_space : ∀ n < 16, hexDigit n ≠ ' ' := by decide

theorem space_not_mem_hexDigits (width n : Nat) : ' ' ∉ hexDigits width n := by
  induction width generalizing n with
  | zero => exact List.not_mem_nil
  | succ width ih =>
    rw [hexDigits, List.mem_append, List.mem_singleton, not_or]
    exact ⟨ih (n / 16), (hexDigit_ne_space (n % 16) (Nat.mod_lt n (by decide))).symm⟩

theorem dropWhile_reverse {cs : List Char} (h : ' ' ∉ cs) :
    cs.reverse.dropWhile (· == ' ') = cs.reverse :=
  dropWhile_eq_self fun _ hc => beq_false_of_ne fun hspace => h (hspace ▸ List.mem_reverse.mp hc)

/-- Trimming a word and a text behind it leaves the word, and a space behind it if anything. -/
theorem exists_trimRight_eq {word : String} (hword : ' ' ∉ word.toList) (text : String) :
    ∃ rest, (trimRight (word ++ " " ++ text)).toList = word.toList ++ rest ∧
      (rest = [] ∨ ∃ more, rest = ' ' :: more) := by
  have hreverse : (word ++ " " ++ text).toList.reverse =
      text.toList.reverse ++ ' ' :: word.toList.reverse := by simp
  have hkept : (' ' :: word.toList.reverse).dropWhile (· == ' ') = word.toList.reverse := by
    rw [List.dropWhile_cons_of_pos (by decide), dropWhile_reverse hword]
  rw [trimRight, String.toList_ofList, hreverse, List.dropWhile_append, hkept]
  split
  next => exact ⟨[], by simp, .inl rfl⟩
  next =>
    exact ⟨' ' :: (text.toList.reverse.dropWhile (· == ' ')).reverse, by simp, .inr ⟨_, rfl⟩⟩

end Text

namespace Instruction

/-- A routine or an interrupt is left, an interrupt is raised, or execution goes on elsewhere. -/
def closesBlock : Instruction → Bool
  | rts | rti | brk | jmp _ => true
  | _ => false

/-- A mnemonic is one word. -/
theorem space_not_mem_mnemonic (i : Instruction) : ' ' ∉ i.mnemonic.toList := by
  cases i with
  | read op | store op | modify op | internal op | stack op | branch op =>
    change ' ' ∉ op.mnemonic.toList
    cases op <;> decide
  | jmp => exact (by decide : ' ' ∉ "JMP".toList)
  | jsr | rts | rti | brk => decide

theorem endsBlock_mnemonic (i : Instruction) :
    CodeDataLog.endsBlock i.mnemonic = i.closesBlock := by
  cases i with
  | read op | store op | modify op | internal op | stack op | branch op =>
    change CodeDataLog.endsBlock op.mnemonic = false
    cases op <;> decide
  | jmp | jsr | rts | rti | brk => rfl

end Instruction

/-! ## The lines of a log -/

namespace CodeDataLog

/-- A visit adds its line where there is none. -/
theorem getElem?_visit (log : CodeDataLog) {offset : Nat} (h : log.lines[offset]? = none)
    (line : String) (other : Nat) :
    (log.visit offset line).lines[other]? =
      if offset = other then some line else log.lines[other]? := by
  have hnew : offset ∉ log.lines := by
    rw [← Std.TreeMap.contains_iff_mem, Std.TreeMap.contains_eq_isSome_getElem?, h]
    exact Bool.false_ne_true
  rw [visit, Std.TreeMap.getElem?_insertIfNew]
  simp only [Std.compare_eq_iff_eq, hnew, not_false_eq_true, and_true]

/-- An offset is visited once it has a line. -/
theorem isVisited_eq (log : CodeDataLog) (offset : Nat) :
    log.isVisited offset = (log.lines[offset]?).isSome :=
  Std.TreeMap.contains_eq_isSome_getElem?

theorem visited_eq (log : CodeDataLog) : log.visited = log.lines.toList.map (·.2) := by
  simp only [visited, Std.TreeMap.values, Std.DTreeMap.values, Std.TreeMap.toList,
    Std.DTreeMap.Const.toList, Std.DTreeMap.Internal.Impl.values_eq_map_snd,
    Std.DTreeMap.Internal.Impl.Const.toList_eq_toListModel_map, List.map_map, Function.comp_def]

end CodeDataLog

def listingText (i : Instruction) (offset : Nat) (pc : UInt16) (operand : Operand)
    (bytes : List UInt8) : String :=
  "[$" ++ Text.hex 6 offset ++ ":" ++ Text.address pc ++ "] " ++
    Text.trimRight (i.mnemonic ++ " " ++ operand.text) ++ " ; " ++
    Text.join " " (bytes.map Text.hexByte)

/-- Neither offset nor address has a space, and what follows the mnemonic begins with one. -/
theorem lineMnemonic_listingText (i : Instruction) (offset : Nat) (pc : UInt16) (operand : Operand)
    (bytes : List UInt8) :
    CodeDataLog.lineMnemonic (listingText i offset pc operand bytes) = i.mnemonic := by
  obtain ⟨rest, hsource, hrest⟩ := Text.exists_trimRight_eq i.space_not_mem_mnemonic operand.text
  let front := "[$".toList ++ Text.hexDigits (max 6 (Text.hexLength offset)) offset ++
    ":$".toList ++ Text.hexDigits 4 pc.toNat ++ "]".toList
  have hfront : ' ' ∉ front := by
    simp [front, Text.space_not_mem_hexDigits]
  obtain ⟨back, hback⟩ : ∃ back, rest ++ (" ; " ++ Text.join " " (bytes.map Text.hexByte)).toList =
      ' ' :: back := by
    rcases hrest with rfl | ⟨more, rfl⟩
    · exact ⟨("; " ++ Text.join " " (bytes.map Text.hexByte)).toList, by simp⟩
    · exact ⟨_, List.cons_append⟩
  have hline : (listingText i offset pc operand bytes).toList =
      front ++ ' ' :: (i.mnemonic.toList ++ ' ' :: back) := by
    rw [← hback, ← List.append_assoc i.mnemonic.toList, ← hsource]
    simp [listingText, front, Text.hex, Text.address, Text.hexWord]
  rw [CodeDataLog.lineMnemonic, hline, Text.splitOn_append hfront,
    Text.splitOn_append i.space_not_mem_mnemonic]
  exact String.ofList_toList

namespace Machine

variable {α : Type} {m m' m'' : Machine}

/-! ## What an instruction is listed as -/

/-- The opcode at the program counter lies in ROM at the offset. -/
def OpcodeAt (m : Machine) (offset : Nat) : Prop :=
  m.board.locate m.registers.pc = .ok ⟨offset, true⟩

/-- The instruction at the program counter and the line that shows it as it is at present: its
address, mnemonic, operand and bytes. -/
structure ListsAs (m : Machine) (offset : Nat) (i : Instruction) (line : String) : Prop where
  opcode : m.OpcodeAt offset
  fetched : i.FetchedFrom m.core
  line : ∃ bytes operand, m.core.instructionBytes i.size = .ok bytes ∧
    m.core.operand i.mode = .ok operand ∧
    line = listingText i offset m.registers.pc operand bytes

/-- The first of some machines whose opcode lies at the offset has the line. -/
def FirstListed (begun : List Machine) (offset : Nat) (i : Instruction) (line : String) : Prop :=
  ∃ earlier k later, begun = earlier ++ k :: later ∧ (∀ j ∈ earlier, ¬j.OpcodeAt offset) ∧
    k.ListsAs offset i line

/-- Between the two moments the listing has gained the first lines of these machines. -/
structure Lists (begun : List Machine) (m m' : Machine) : Prop where
  config : m'.config = m.config
  kept : ∀ (offset : Nat) (line : String), m.log.lines[offset]? = some line →
    m'.log.lines[offset]? = some line
  gained : ∀ offset : Nat, m.log.lines[offset]? = none →
    (∀ k ∈ begun, ¬k.OpcodeAt offset) ∧ m'.log.lines[offset]? = none ∨
      ∃ i line, FirstListed begun offset i line ∧ m'.log.lines[offset]? = some line

theorem Lists.trans {begun begun' : List Machine} (h : Lists begun m m')
    (k : Lists begun' m' m'') : Lists (begun ++ begun') m m'' where
  config := k.config.trans h.config
  kept offset line := k.kept offset line ∘ h.kept offset line
  gained offset hnone := by
    rcases h.gained offset hnone with ⟨habsent, hnone'⟩ | ⟨i, line, ⟨e, j, l, rfl, he, hj⟩, hline⟩
    · rcases k.gained offset hnone' with ⟨habsent', hnone''⟩ | ⟨i, line, hfirst, hline⟩
      · refine .inl ⟨fun j hj => ?_, hnone''⟩
        exact (List.mem_append.mp hj).elim (habsent j) (habsent' j)
      · obtain ⟨e, j, l, rfl, he, hj⟩ := hfirst
        refine .inr ⟨i, line, ⟨begun ++ e, j, l, by simp, fun x hx => ?_, hj⟩, hline⟩
        exact (List.mem_append.mp hx).elim (habsent x) (he x)
    · exact .inr ⟨i, line, ⟨e, j, l ++ begun', by simp, he, hj⟩, k.kept offset line hline⟩

/-! ## Steps -/

structure SameLines (m m' : Machine) : Prop where
  config : m'.config = m.config
  lines : m'.log.lines = m.log.lines

instance : IsPreorder Machine SameLines where
  refl _ := ⟨rfl, rfl⟩
  trans _ _ _ h k := ⟨k.config.trans h.config, k.lines.trans h.lines⟩

theorem sameLines_mark (m : Machine) (address : UInt16) (u : Usage) :
    SameLines m (m.mark address u) := by
  unfold mark
  split <;> exact ⟨rfl, rfl⟩

theorem eachOutside_sameLines : EachOutside SameLines where
  fire m events address value := ⟨(inStep_fire m events address value).config, by rw [log_fire]⟩
  markLoaded m address := sameLines_mark m address .loaded
  poke m address value := ⟨(inStep_poke m address value).config, by rw [log_poke]⟩
  setRegisters _ _ := ⟨rfl, rfl⟩
  note _ _ _ := ⟨rfl, rfl⟩

theorem sameLines_markCode {addresses : List UInt16} {bytes : List UInt8}
    (h : markCode addresses m = .ok bytes m') : SameLines m m' := by
  rw [markCode_eq_ok h]
  clear h
  induction addresses generalizing m with
  | nil => exact refl m
  | cons address rest ih => exact IsTrans.trans _ _ _ (sameLines_mark m address .executed) ih

theorem Idle.sameLines (h : Idle m m') : SameLines m m' := ⟨h.config, by rw [h.log]⟩

theorem SameLines.lists (h : SameLines m m') : Lists [] m m' where
  config := h.config
  kept offset line hline := by rw [h.lines, hline]
  gained offset hnone := .inl ⟨fun k hk => (List.not_mem_nil hk).elim, by rw [h.lines, hnone]⟩

theorem Lists.trans_sameLines {begun : List Machine} (h : Lists begun m m') (k : SameLines m' m'') :
    Lists begun m m'' := by
  have hlists := h.trans k.lists
  rwa [List.append_nil] at hlists

theorem SameLines.trans_lists {begun : List Machine} (h : SameLines m m') (k : Lists begun m' m'') :
    Lists begun m m'' := h.lists.trans k

theorem view_of_observe {view : Core → Except BoardError α} {a : α}
    (h : observe view m = .ok a m') : view m.core = .ok a := by
  cases hview : view m.core with
  | error e => cases (observe_of_error hview).symm.trans h
  | ok b => cases (observe_of_ok hview).symm.trans h; rfl

/-- An instruction that is new at its offset is listed. -/
theorem lists_list {k : Machine} {i : Instruction} {bytes : List UInt8}
    (hfetched : i.FetchedFrom k.core) (hbytes : k.core.instructionBytes i.size = .ok bytes)
    (hcore : m.core = k.core) (h : list i bytes m = .ok () m') : Lists [k] m m' := by
  have hlocate : m.board.locate m.registers.pc = k.board.locate k.registers.pc := by
    rw [board, registers, board, registers, hcore]
  -- Where nothing is new, the listing may stay as it is.
  have hsame : (∀ offset, m.log.lines[offset]? = none → ¬k.OpcodeAt offset) → Lists [k] m m :=
    fun hnot => ⟨rfl, fun _ _ => id, fun offset hnone =>
      .inl ⟨List.forall_mem_singleton.mpr (hnot offset hnone), hnone⟩⟩
  rw [list_apply, hlocate] at h
  split at h
  next offset hopcode =>
    -- The opcode has one place, so only the line there is at stake.
    have honly : ∀ other, k.OpcodeAt other → offset = other := fun other hother =>
      congrArg Location.offset (Except.ok.inj (hopcode.symm.trans hother))
    rw [CodeDataLog.isVisited_eq] at h
    cases hline : m.log.lines[offset]? with
    | some line =>
      rw [hline, Option.isSome_some, if_pos rfl] at h
      cases h
      refine hsame fun other hnone hother => ?_
      rw [← honly other hother, hline] at hnone
      cases hnone
    | none =>
      rw [hline, Option.isSome_none, if_neg Bool.false_ne_true] at h
      obtain ⟨line, m₁, hobserve, hvisit⟩ := bind_eq_ok.mp h
      cases observe_eq_ok hobserve
      cases hvisit
      obtain ⟨operand, hoperand, hshown⟩ := except_map_eq_ok.mp (view_of_observe hobserve)
      rw [hcore] at hoperand hshown
      have hlists : k.ListsAs offset i line :=
        ⟨hopcode, hfetched, bytes, operand, hbytes, hoperand, hshown.symm⟩
      have hlines := m.log.getElem?_visit hline line
      refine ⟨rfl, fun other shown hshown => ?_, fun other hnone => ?_⟩
      · rw [hlines, if_neg, hshown]
        rintro rfl
        cases hline.symm.trans hshown
      · by_cases hother : offset = other
        · subst hother
          refine .inr ⟨i, line, ⟨[], k, [], rfl, ?_, hlists⟩, (hlines _).trans (if_pos rfl)⟩
          exact fun j hj => (List.not_mem_nil hj).elim
        · refine .inl ⟨?_, by rw [hlines, if_neg hother, hnone]⟩
          exact List.forall_mem_singleton.mpr (hother ∘ honly other)
  next hram =>
    cases h
    exact hsame fun other _ hother => by cases hram.symm.trans hother
  next hoff =>
    cases h
    exact hsame fun other _ hother => by cases hoff.symm.trans hother

theorem bytes_of_markCode {addresses : List UInt16} {bytes : List UInt8}
    (h : markCode addresses m = .ok bytes m') : addresses.mapM m.core.peekByte = .ok bytes := by
  have hspec := markCode_spec addresses m
  cases hread : addresses.mapM m.core.peekByte with
  | error e =>
    rw [hread] at hspec
    obtain ⟨k, hk⟩ := hspec
    cases hk.symm.trans h
  | ok vs =>
    rw [hread] at hspec
    obtain ⟨k, hk⟩ := hspec
    cases hk.symm.trans h
    rfl

/-- A step lists its instruction, unless its offset has a line already. -/
theorem lists_step (hon : m.config.codeDataLog = true) (h : step m = .ok () m') :
    Lists [m] m m' := by
  obtain ⟨m₅, hcycle, rfl⟩ := step_eq_ok h
  obtain ⟨opcode, m₁, i, m₂, m₃, m₄, hfetch, hdecode, htrace, hlog, hperform, rfl⟩ :=
    cycle_eq_ok_iff.mp hcycle
  obtain ⟨hread, hcore⟩ := fetch_eq_ok hfetch
  have hlogs := (leaves_trace i).of_ok htrace
  have hcore₂ : m₂.core = m.core := hlogs.core.trans hcore
  have hfetched : SameLines m m₁ := eachOutside_sameLines.leaves_fetch.of_ok hfetch
  have htraced : SameLines m₁ m₂ := ⟨hlogs.config, by rw [log_trace htrace]⟩
  have hperformed : SameLines m₃ m₄ := (eachOutside_sameLines.leaves_perform _ _).of_ok hperform
  have hbefore : SameLines m m₂ := IsTrans.trans _ _ _ hfetched htraced
  rw [logCode_apply, if_pos (by rw [hbefore.config, hon])] at hlog
  obtain ⟨bytes, m₂', hmark, hlist⟩ := bind_eq_ok.mp hlog
  have hbytes : m.core.instructionBytes i.size = .ok bytes := by
    rw [← hcore₂, ← bytes_of_markCode hmark]
    exact List.mapM_map.symm
  have hlists : Lists [m] m₂' m₃ := by
    refine lists_list ⟨opcode, hread, hdecode⟩ hbytes ?_ hlist
    exact ((leaves_markCode _).of_ok hmark).core.trans hcore₂
  have hmarked : SameLines m m₂' := IsTrans.trans _ _ _ hbefore (sameLines_markCode hmark)
  have hended : SameLines m₄ { m₄.nest i with ticks := (m₄.nest i).ticks + 1 } := ⟨rfl, rfl⟩
  exact (hmarked.trans_lists hlists).trans_sameLines (IsTrans.trans _ _ _ hperformed hended)

/-! ## Operations -/

theorem lists_runFrom (budget executed : Nat) (hon : m.config.codeDataLog = true)
    (h : Succeeds (runFrom budget executed m)) :
    Lists (begunFrom budget executed m) m (finalState (runFrom budget executed m)) := by
  revert hon h
  refine runFrom_induct (motive := fun begun m r =>
    m.config.codeDataLog = true → Succeeds r → Lists begun m (finalState r)) ?_ ?_ ?_
    budget executed m
  · exact fun m r hidle _ _ => hidle.sameLines.lists
  · intro m m' begun r hstep ih hon hr
    have hlists := lists_step hon hstep
    exact hlists.trans (ih (by rw [hlists.config, hon]) hr)
  · rintro m m' e fault m'' - - - ⟨_, _, hr⟩
    cases hr

def begun (m : Machine) : List Operation → List Machine
  | [] => []
  | op :: rest => Interaction.begun m (.operation op) ++ (finalState (op.act m)).begun rest

theorem sameLines_perform (span : Option Span) (p : Microcode α) (m : Machine) :
    SameLines m (finalState (perform span p m)) :=
  eachOutside_sameLines.leaves_perform span p m

/-- Every operation lists the steps that it begins. -/
theorem lists_act (op : Operation) (hon : m.config.codeDataLog = true)
    (h : Succeeds (op.act m)) :
    Lists (Interaction.begun m (.operation op)) m (finalState (op.act m)) := by
  cases op with
  | step =>
    obtain ⟨_, m', hstep⟩ := h
    rw [hstep]
    exact lists_step hon hstep
  | run budget =>
    rw [Operation.act, finalState_ofFault]
    exact lists_runFrom budget 0 hon (succeeds_of_ofFault h)
  | runRoutine address budget =>
    have hrun := succeeds_run_of_runRoutine (succeeds_of_ofFault h)
    have hpushed := sameLines_perform none (Microcode.pushWord (m.registers.pc - 1)) m
    have henter : SameLines m (m.enter address) := ⟨hpushed.config, hpushed.lines⟩
    have hlists := lists_runFrom budget 0 (by rw [henter.config, hon]) hrun
    rw [Operation.act, finalState_ofFault]
    exact (henter.trans_lists hlists).trans_sameLines (idle_runRoutine address budget m).sameLines
  | interrupt i => exact (eachOutside_sameLines.leaves_interrupt i m).lists
  | irq =>
    rw [Operation.act, finalState_bind_pure]
    exact (eachOutside_sameLines.leaves_irq m).lists
  | access p => exact (sameLines_perform none p m).lists
  | look view =>
    rw [Operation.act, finalState_observe]
    exact SameLines.lists (refl m)

theorem lists_actAll (ops : List Operation) (hon : m.config.codeDataLog = true)
    (h : actAll ops m = .ok () m') : Lists (m.begun ops) m m' := by
  induction ops generalizing m with
  | nil =>
    cases h
    exact SameLines.lists (refl _)
  | cons op rest ih =>
    obtain ⟨_, m₁, hact, hrest⟩ := bind_eq_ok.mp h
    have hlists := lists_act op hon ⟨_, m₁, hact⟩
    rw [hact] at hlists
    rw [begun, hact]
    exact hlists.trans (ih (by rw [hlists.config, hon]) hrest)

/-! ## Listed offsets are code -/

/-- The instruction that is begun belongs to its episode, however far it comes. -/
theorem executesAt_stepEpisode {offset : Nat} (h : m.OpcodeAt offset) :
    m.stepEpisode.ExecutesAt m.registers.pc offset := by
  unfold stepEpisode
  dsimp only
  split
  next => exact ⟨_, rfl, Span.start_mem_addresses _ Nat.one_pos, h⟩
  next =>
    split
    next => exact ⟨_, rfl, Span.start_mem_addresses _ Nat.one_pos, h⟩
    next i _ => split <;> exact ⟨_, rfl, Span.start_mem_addresses _ i.size_pos, h⟩

theorem stepEpisode_mem_episodes {k : Machine} (ops : List Operation) (h : k ∈ m.begun ops) :
    k.stepEpisode ∈ m.episodes ops := by
  induction ops generalizing m with
  | nil => cases h
  | cons op rest ih =>
    refine List.mem_append.mpr ((List.mem_append.mp h).imp (fun hbegun => ?_) ih)
    cases op with
    | step => exact List.mem_singleton.mpr (congrArg stepEpisode (List.mem_singleton.mp hbegun))
    | run budget => exact List.mem_map_of_mem hbegun
    | runRoutine address budget => exact List.mem_cons_of_mem _ (List.mem_map_of_mem hbegun)
    | interrupt | irq | access | look => cases hbegun

/-! ## The listing as a whole -/

/-- A line of the listing, with the instruction that it shows. -/
structure ListingEntry where
  offset : Nat
  instruction : Instruction
  line : String

/-- The line as it is written, with an empty line behind it if a block ends there. -/
def ListingEntry.text (e : ListingEntry) : String :=
  e.line ++ "\n" ++ if e.instruction.closesBlock then "\n" else ""

/-- The mnemonic is found again in the line of its instruction. -/
theorem FirstListed.lineMnemonic_eq {executed : List Machine} {offset : Nat} {i : Instruction}
    {line : String} (h : FirstListed executed offset i line) :
    CodeDataLog.lineMnemonic line = i.mnemonic := by
  obtain ⟨-, k, -, -, -, hlists⟩ := h
  obtain ⟨bytes, operand, -, -, rfl⟩ := hlists.line
  exact lineMnemonic_listingText i offset k.registers.pc operand bytes

/-- A line is written with its line break, and an empty line behind the end of a block. -/
theorem join_linePieces {e : ListingEntry}
    (h : CodeDataLog.lineMnemonic e.line = e.instruction.mnemonic) :
    String.join (CodeDataLog.linePieces e.line) = e.text := by
  rw [CodeDataLog.linePieces, h, e.instruction.endsBlock_mnemonic, ListingEntry.text]
  split <;> simp [String.join_cons, String.append_assoc]

theorem join_flatMap_linePieces {entries : List ListingEntry}
    (h : ∀ e ∈ entries, CodeDataLog.lineMnemonic e.line = e.instruction.mnemonic) :
    String.join ((entries.map (·.line)).flatMap CodeDataLog.linePieces) =
      String.join (entries.map (·.text)) := by
  induction entries with
  | nil => rfl
  | cons e rest ih =>
    obtain ⟨hfirst, hrest⟩ := List.forall_mem_cons.mp h
    rw [List.map_cons, List.map_cons, List.flatMap_cons, String.join_append, String.join_cons,
      join_linePieces hfirst, ih hrest]

/-- Operations that all succeed list, on an empty log, the offsets at which the opcode of an
executed instruction lay in ROM, and these are all logged as code. Each has one line, in the order
of the offsets: the one that showed the first instruction executed there, as it was at that time.
When the listing is written, a new line follows each line and an empty line follows those of `RTS`,
`RTI`, `BRK` and `JMP`. -/
theorem listing_follows_execution (ops : List Operation) (hon : m.config.codeDataLog = true)
    (hempty : m.log = .empty) (hok : actAll ops m = .ok () m') :
    (∀ offset, m'.log.isVisited offset = true ↔ ∃ k ∈ m.begun ops, k.OpcodeAt offset) ∧
    (∀ offset, m'.log.isVisited offset = true → (m'.log.usage offset).code = true) ∧
    ∃ entries : List ListingEntry,
      entries.Pairwise (·.offset < ·.offset) ∧
      (∀ offset, m'.log.isVisited offset = true ↔ ∃ e ∈ entries, e.offset = offset) ∧
      (∀ e ∈ entries, FirstListed (m.begun ops) e.offset e.instruction e.line) ∧
      m'.log.visited = entries.map (·.line) ∧
      Sink.Receives m'.log.writeListing (String.join (entries.map (·.text))).toUTF8.toList := by
  have hlists := lists_actAll ops hon hok
  have hnone : ∀ offset : Nat, m.log.lines[offset]? = none := by
    intro offset
    rw [hempty]
    exact Std.TreeMap.getElem?_emptyc
  have hvisited : ∀ offset,
      m'.log.isVisited offset = true ↔ ∃ k ∈ m.begun ops, k.OpcodeAt offset := by
    intro offset
    rw [CodeDataLog.isVisited_eq]
    rcases hlists.gained offset (hnone offset) with ⟨habsent, hline⟩ | ⟨i, line, hfirst, hline⟩
    · rw [hline]
      exact ⟨nofun, fun ⟨k, hk, hopcode⟩ => absurd hopcode (habsent k hk)⟩
    · obtain ⟨earlier, k, later, hbegun, -, hk⟩ := hfirst
      rw [hline]
      exact ⟨fun _ => ⟨k, by simp [hbegun], hk.opcode⟩, fun _ => rfl⟩
  -- Every line is that of a first instruction.
  have hfirst : ∀ p : Nat × String, ∃ i, p ∈ m'.log.lines.toList →
      FirstListed (m.begun ops) p.1 i p.2 := by
    intro p
    by_cases hp : p ∈ m'.log.lines.toList
    · have hsome := Std.TreeMap.mem_toList_iff_getElem?_eq_some.mp hp
      rcases hlists.gained p.1 (hnone p.1) with ⟨-, hline⟩ | ⟨i, line, hfirst, hline⟩
      · cases hline.symm.trans hsome
      · cases hline.symm.trans hsome
        exact ⟨i, fun _ => hfirst⟩
    · exact ⟨.brk, fun hmem => absurd hmem hp⟩
  choose instruction hinstruction using hfirst
  let entries := m'.log.lines.toList.map fun p => ListingEntry.mk p.1 (instruction p) p.2
  have hentries : ∀ e ∈ entries, FirstListed (m.begun ops) e.offset e.instruction e.line := by
    intro e he
    obtain ⟨p, hp, rfl⟩ := List.mem_map.mp he
    exact hinstruction p hp
  have hlines : m'.log.visited = entries.map (·.line) := by
    rw [CodeDataLog.visited_eq, List.map_map]
    rfl
  refine ⟨hvisited, fun offset hoffset => ?_, entries, ?_, fun offset => ?_, hentries, hlines, ?_⟩
  · obtain ⟨code, hmarks, hcode⟩ := gains_actAll m ops hok
    obtain ⟨k, hk, hopcode⟩ := (hvisited offset).mp hoffset
    refine (hmarks.code offset).mpr (.inr ((hcode trivial offset).mpr ⟨hon, k.stepEpisode, ?_⟩))
    exact ⟨stepEpisode_mem_episodes ops hk, _, executesAt_stepEpisode hopcode⟩
  · exact List.pairwise_map.mpr
      (Std.TreeMap.ordered_keys_toList.imp Std.compare_eq_lt.mp)
  · rw [CodeDataLog.isVisited_eq, Option.isSome_iff_exists]
    simp [entries]
  · have hreceives := m'.log.receives_writeListing
    rwa [CodeDataLog.listing, hlines,
      join_flatMap_linePieces fun e he => (hentries e he).lineMnemonic_eq] at hreceives

/-- `NOP` and a jump back to it, and an interrupt: `NOP` is executed twice and listed once. -/
theorem listing_follows_loop :
    let m := logging [0xEA, 0x4C, 0x00, 0x80]
    let ops := [Operation.step, .step, .step, .interrupt .nmi]
    ∃ m', m.config.codeDataLog = true ∧ m.log = .empty ∧ actAll ops m = .ok () m' ∧
      m'.log.listing = "[$000000:$8000] NOP ; EA\n[$000001:$8001] JMP $8000 ; 4C 00 80\n\n" ∧
      ∃ entries : List ListingEntry, m'.log.visited = entries.map (·.line) ∧
        ∀ e ∈ entries, FirstListed (m.begun ops) e.offset e.instruction e.line := by
  intro m ops
  have hrun : Succeeds (actAll ops m) ∧ (finalState (actAll ops m)).log.listing =
      "[$000000:$8000] NOP ; EA\n[$000001:$8001] JMP $8000 ; 4C 00 80\n\n" := by decide +kernel
  obtain ⟨hsucceeds, hlisting⟩ := hrun
  have hok := hsucceeds.eq_ok
  obtain ⟨-, -, entries, -, -, hfirst, hlines, -⟩ := listing_follows_execution ops rfl rfl hok
  exact ⟨_, rfl, rfl, hok, hlisting, entries, hlines, hfirst⟩

end Machine

end Mos6502
