import Mos6502.Proofs.Routines

/-!
# A breakpoint that ends the run

A machine whose only breakpoint watches for the execution of one address, and then always asks for a
halt, runs until an instruction is fetched there (`guardedRun_runFrom`). The halt is due at the next
boundary, where it comes before all other conditions, so that instruction is the last one of the
run. The run halts unless the instruction fails or is found to have left the program counter where
it was.
-/

namespace Mos6502

open Breakpoints (Entry Hit offer)

/-! ## The breakpoint -/

namespace Breakpoints

/-- There is one entry. It watches for executions of the address and always asks for a halt. -/
structure Guards (b : Breakpoints) (name : String) (address : UInt16) : Prop where
  here : ∃ seen, b.slots[address]? =
    some [{ name, events := .execute, callback := .halt, seen }]
  elsewhere : ∀ a, a ≠ address → b.slots[a]? = none

variable {b : Breakpoints} {name : String} {address : UInt16}

/-- Where nothing else is watched, an entry at the address guards it, whatever it has seen. -/
theorem guards_insert (h : ∀ a, a ≠ address → b.slots[a]? = none) (seen : List Context) :
    Guards ⟨b.slots.insert address [{ name, events := .execute, callback := .halt, seen }]⟩
      name address where
  here := ⟨seen, Std.TreeMap.getElem?_insert_self⟩
  elsewhere := by
    intro a ha
    have hcompare : compare address a ≠ .eq :=
      fun heq => ha (Std.LawfulEqOrd.eq_of_compare heq).symm
    rw [Std.TreeMap.getElem?_insert, if_neg hcompare]
    exact h a ha

theorem guards_register (name : String) (address : UInt16) :
    (empty.register .execute name address .halt).Guards name address :=
  guards_insert (fun _ _ => Std.TreeMap.getElem?_emptyc) []

/-- The entry is called for executions of its address. -/
theorem Guards.fire_execute (h : b.Guards name address) (access : Access)
    (hkind : Events.execute.intersects access.events = true) (hhere : access.address = address) :
    (b.fire access).breakpoints.Guards name address ∧ (b.fire access).halt = true ∧
      (b.fire access).hits =
        [{ name, access, given := { toAccess := access },
           left := { access with halt := true } }] := by
  obtain ⟨seen, hslot⟩ := h.here
  subst hhere
  simp only [Breakpoints.fire, hslot, offer, hkind, Entry.call, if_true]
  exact ⟨guards_insert h.elsewhere ({ toAccess := access } :: seen), rfl, rfl⟩

/-- The entry is not called for anything else. -/
theorem Guards.fire_other (h : b.Guards name address) (access : Access)
    (hother : ¬ (Events.execute.intersects access.events = true ∧ access.address = address)) :
    (b.fire access).breakpoints.Guards name address ∧ (b.fire access).halt = false ∧
      (b.fire access).hits = [] := by
  by_cases hhere : access.address = address
  · obtain ⟨seen, hslot⟩ := h.here
    have hkind := Bool.eq_false_iff.mpr fun hkind => hother ⟨hkind, hhere⟩
    subst hhere
    simp [Breakpoints.fire, hslot, offer, hkind, guards_insert h.elsewhere seen]
  · simp [Breakpoints.fire, h.elsewhere access.address hhere, h]

end Breakpoints

namespace Machine

variable {name : String} {address : UInt16} {m m' m'' : Machine}

/-- A guarding breakpoint stays as it is and is shown nothing. -/
def Unnoticed (name : String) (address : UInt16) (m m' : Machine) : Prop :=
  m.breakpoints.Guards name address →
    m'.breakpoints.Guards name address ∧ m'.hits = m.hits ∧ m'.halted = m.halted

instance : IsPreorder Machine (Unnoticed name address) where
  refl _ hguards := ⟨hguards, rfl, rfl⟩
  trans _ _ _ h k hguards := by
    obtain ⟨hguards', hhits, hhalted⟩ := h hguards
    obtain ⟨hguards'', hhits', hhalted'⟩ := k hguards'
    exact ⟨hguards'', hhits'.trans hhits, hhalted'.trans hhalted⟩

theorem OnlyLogs.unnoticed (h : OnlyLogs m m') : Unnoticed name address m m' :=
  fun hguards => ⟨h.breakpoints ▸ hguards, h.hits, h.halted⟩

/-- The guarding breakpoint has been shown one execution of its address, and a halt is due. -/
structure Noticed (name : String) (address : UInt16) (m m' : Machine) : Prop where
  guards : m'.breakpoints.Guards name address
  halted : m'.halted = true
  hit : ∃ hit, m'.hits = m.hits.push hit ∧ hit.name = name ∧ hit.given.events = .execute ∧
    hit.given.address = address

theorem Noticed.trans (h : Noticed name address m m') (k : Unnoticed name address m' m'') :
    Noticed name address m m'' := by
  obtain ⟨hguards, hhits, hhalted⟩ := k h.guards
  refine ⟨hguards, hhalted.trans h.halted, ?_⟩
  rw [hhits]
  exact h.hit

theorem Noticed.of_unnoticed (h : Noticed name address m' m'') (hhits : m'.hits = m.hits) :
    Noticed name address m m'' := ⟨h.guards, h.halted, hhits ▸ h.hit⟩

/-- An access of another kind or at another address goes unnoticed. -/
theorem unnoticed_fire (m : Machine) {events : Events} {a : UInt16} (value : UInt8)
    (hother : ¬ (Events.execute.intersects events = true ∧ a = address)) :
    Unnoticed name address m (m.fire events a value) := by
  intro hguards
  obtain ⟨journal, hfire, hhits⟩ := m.fire_eq events a value
  obtain ⟨hguards', hhalt, hshown⟩ :=
    hguards.fire_other ⟨events, a, value, m.core.registers⟩ hother
  rw [hshown] at hhits
  rw [hfire, hhalt]
  exact ⟨hguards', hhits.trans Array.append_empty, Bool.or_false _⟩

theorem noticed_fire (hguards : m.breakpoints.Guards name address) (value : UInt8) :
    Noticed name address m (m.fire .execute address value) := by
  obtain ⟨journal, hfire, hhits⟩ := m.fire_eq .execute address value
  have hkind : Events.execute.intersects .execute = true := by decide
  obtain ⟨hguards', hhalt, hshown⟩ :=
    hguards.fire_execute ⟨.execute, address, value, m.core.registers⟩ hkind rfl
  rw [hshown] at hhits
  rw [hfire, hhalt]
  exact ⟨hguards', Bool.or_true _, _, hhits, rfl, rfl, rfl⟩

/-! ## Instructions -/

theorem eachTransfer_unnoticed : EachTransfer (Unnoticed name address) where
  read m span a value := by
    have hmark : Unnoticed name address m (m.markRead span a) :=
      (onlyLogs_markRead m span a).unnoticed
    exact IsTrans.trans _ _ _ hmark (unnoticed_fire _ value fun hhere => absurd hhere.1 (by decide))
  write m a value := by
    have hpoke : Unnoticed name address m (m.poke a value) := by
      obtain ⟨journal, hpoke, hhits⟩ := m.poke_eq a value
      rw [hpoke]
      exact fun hguards => ⟨hguards, hhits, rfl⟩
    exact IsTrans.trans _ _ _ hpoke (unnoticed_fire _ value fun hhere => absurd hhere.1 (by decide))
  assign _ _ hguards := ⟨hguards, rfl, rfl⟩

theorem unnoticed_fetch {opcode : UInt8} (helsewhere : m.registers.pc ≠ address)
    (h : fetch m = .ok opcode m') : Unnoticed name address m m' := by
  rw [fetch_of_read (fetch_eq_ok h).1] at h
  cases h
  have hread := eachTransfer_unnoticed.read (R := Unnoticed name address) m
    (some ⟨m.registers.pc, 1⟩) m.registers.pc opcode
  exact IsTrans.trans _ _ _ hread (unnoticed_fire _ opcode fun hhere => helsewhere hhere.2)

/-- Fetching at the address is noticed. -/
theorem noticed_fetch {opcode : UInt8} (hguards : m.breakpoints.Guards name address)
    (hhere : m.registers.pc = address) (h : fetch m = .ok opcode m') :
    Noticed name address m m' := by
  rw [fetch_of_read (fetch_eq_ok h).1] at h
  cases h
  subst hhere
  obtain ⟨hguards', hhits, -⟩ :=
    eachTransfer_unnoticed.read m (some ⟨m.registers.pc, 1⟩) m.registers.pc opcode hguards
  exact (noticed_fire hguards' opcode).of_unnoticed hhits

/-- What follows the fetch of an instruction is not noticed. -/
theorem exists_fetch_of_cycle (h : cycle m = .ok () m') :
    ∃ opcode m₁, fetch m = .ok opcode m₁ ∧ Unnoticed name address m₁ m' := by
  obtain ⟨opcode, i, m₁, m₂, m₃, hfetch, -, hlogs, hperform, rfl⟩ := cycle_eq_ok h
  have hperformed : Unnoticed name address m₂ m₃ :=
    (eachTransfer_unnoticed.leaves_perform _ _).of_ok hperform
  exact ⟨opcode, m₁, hfetch, IsTrans.trans _ _ _ hlogs.unnoticed hperformed⟩

/-- A step that begins elsewhere goes unnoticed. -/
theorem unnoticed_step (helsewhere : m.registers.pc ≠ address) (h : step m = .ok () m') :
    Unnoticed name address m m' := by
  obtain ⟨mc, hcycle, rfl⟩ := step_eq_ok h
  obtain ⟨opcode, m₁, hfetch, hrest⟩ := exists_fetch_of_cycle hcycle
  exact IsTrans.trans _ _ _ (unnoticed_fetch helsewhere hfetch) hrest

/-- A cycle that begins at the address is noticed, whatever the instruction does. -/
theorem noticed_cycle (hguards : m.breakpoints.Guards name address)
    (hhere : m.registers.pc = address) (h : cycle m = .ok () m') : Noticed name address m m' := by
  obtain ⟨opcode, m₁, hfetch, hrest⟩ := exists_fetch_of_cycle h
  exact (noticed_fetch hguards hhere hfetch).trans hrest

/-- The instruction at the address is executed: it is fetched there, the breakpoint of this name is
shown its execution, and it has run to completion in `m'`. -/
structure CompletesAt (m : Machine) (name : String) (address : UInt16) (m' : Machine) : Prop where
  fetched : m.registers.pc = address
  hit : ∃ hit, m'.hits = m.hits.push hit ∧ hit.name = name ∧ hit.given.events = .execute ∧
    hit.given.address = address
  completed : cycle m = .ok () m'

/-! ## Runs -/

/-- How a run ends that has begun these steps, the breakpoint having been shown `hits` before. -/
inductive GuardedRun (name : String) (address : UInt16) (hits : Array Hit) :
    List Machine → EStateM.Result Fault Machine (Option Outcome) → Prop where
  /-- No instruction at the address is begun, and the breakpoint is shown nothing. -/
  | missed {begun : List Machine} {r : EStateM.Result Fault Machine (Option Outcome)}
      (helsewhere : ∀ mj ∈ begun, mj.registers.pc ≠ address)
      (hhits : ∀ outcome m', r = .ok outcome m' → m'.hits = hits) :
      GuardedRun name address hits begun r
  /-- The first instruction at the address is begun and fails. -/
  | failed {before : List Machine} {mk mf m' : Machine} {fault : Fault}
      (helsewhere : ∀ mj ∈ before, mj.registers.pc ≠ address) (hhere : mk.registers.pc = address)
      (hstep : step mk = .error fault.error mf) (hcore : m'.core = mf.core) :
      GuardedRun name address hits (before ++ [mk]) (.error fault m')
  /-- The first instruction at the address is executed and ends the run. -/
  | halted {before : List Machine} {mk mc mk' m' : Machine}
      (helsewhere : ∀ mj ∈ before, mj.registers.pc ≠ address)
      (hcompletes : mk.CompletesAt name address mc) (hstep : step mk = .ok () mk')
      (hcore : m'.core = mk'.core) (hhits : m'.hits = mc.hits) :
      GuardedRun name address hits (before ++ [mk]) (.ok (some .halted) m')

/-- A step that begins elsewhere can be put in front of a guarded run. -/
theorem GuardedRun.cons {hits : Array Hit} {begun : List Machine}
    {r : EStateM.Result Fault Machine (Option Outcome)} (h : GuardedRun name address hits begun r)
    (helsewhere : m.registers.pc ≠ address) : GuardedRun name address hits (m :: begun) r := by
  have hcons : ∀ before : List Machine, (∀ mj ∈ before, mj.registers.pc ≠ address) →
      ∀ mj ∈ m :: before, mj.registers.pc ≠ address := by
    rintro before hbefore mj (_ | ⟨_, hmem⟩)
    · exact helsewhere
    · exact hbefore mj hmem
  cases h with
  | missed hbegun hhits => exact .missed (hcons begun hbegun) hhits
  | failed hbefore hhere hstep hcore => exact .failed (hcons _ hbefore) hhere hstep hcore
  | halted hbefore hcompletes hstep hcore hhits =>
    exact .halted (hcons _ hbefore) hcompletes hstep hcore hhits

/-- A halt that is due ends a run at once. -/
theorem runFrom_of_halted (hdepth : m.depth = none) (hhalted : m.halted = true)
    (budget executed : Nat) :
    begunFrom budget executed m = [] ∧
      ∃ m', runFrom budget executed m = .ok (some .halted) m' ∧ Idle m m' := by
  have hboundary : m.boundary executed = .stop .halted := by
    simp [boundary, hdepth, hhalted]
  have hnot : m.boundary executed ≠ .proceed := by simp [hboundary]
  obtain ⟨hbegun, hidle⟩ := runFrom_of_not_proceed hnot budget
  obtain ⟨text, hrun⟩ := runFrom_of_stop hboundary budget
  rw [hrun] at hidle ⊢
  exact ⟨hbegun, _, rfl, hidle⟩

/-- A run that does not begin a step leaves what has been shown. -/
theorem GuardedRun.nil {r : EStateM.Result Fault Machine (Option Outcome)}
    (h : Idle m (finalState r)) : GuardedRun name address m.hits [] r := by
  refine .missed (by simp) fun outcome m' hr => ?_
  rw [hr] at h
  exact h.hits

/-- The induction is on the budget. The breakpoint guards the address in front of every step, and no
routine is running, so that nothing is tested before the halt. -/
theorem guardedRun_runFrom (hguards : m.breakpoints.Guards name address) (hdepth : m.depth = none)
    (budget executed : Nat) :
    GuardedRun name address m.hits (begunFrom budget executed m) (runFrom budget executed m) := by
  have hnone : ∀ mj ∈ ([] : List Machine), mj.registers.pc ≠ address := by simp
  induction budget generalizing executed m with
  | zero => exact .nil (idle_runFrom_zero m executed)
  | succ budget ih =>
    by_cases hboundary : m.boundary executed = .proceed
    swap
    · obtain ⟨hbegun, hidle⟩ := runFrom_of_not_proceed hboundary (budget + 1)
      rw [hbegun]
      exact .nil hidle
    cases hstep : step m with
    | error e mf =>
      obtain ⟨journal, hfault, -⟩ := fault_apply (α := Option Outcome) e mf
      simp only [begunFrom, hboundary, hstep, runFrom_succ_of_error hboundary hstep, hfault]
      by_cases hhere : m.registers.pc = address
      · exact .failed hnone hhere hstep rfl
      · refine .missed (by simpa using hhere) fun outcome m' hrun => ?_
        cases hrun
    | ok u m' =>
      -- The step may call or return, but no routine was entered by `runRoutine`.
      have houtside := eachUpdate_staysOutside.leaves_step.of_ok hstep hdepth
      simp only [begunFrom, hboundary, hstep, runFrom_succ_of_ok hboundary hstep]
      by_cases hhere : m.registers.pc = address
      · -- The halt is due behind this step, so the rest of the run begins none.
        obtain ⟨mc, hcycle, rfl⟩ := step_eq_ok hstep
        obtain ⟨-, hhalted, hhit⟩ := noticed_cycle hguards hhere hcycle
        obtain ⟨hbegun, m'', hrun, hidle⟩ :=
          runFrom_of_halted houtside hhalted budget (executed + 1)
        rw [hbegun, hrun]
        exact .halted hnone ⟨hhere, hhit, hcycle⟩ hstep hidle.core hidle.hits
      · obtain ⟨hguards', hhits, -⟩ := unnoticed_step hhere hstep hguards
        have hrest := ih hguards' houtside (executed + 1)
        rw [← hhits]
        exact hrest.cons hhere

/-! ## The last instruction -/

/-- An instruction that runs to completion is a successful step unless it is found to be stuck. -/
theorem exists_step_iff {mc : Machine} (h : cycle m = .ok () mc) :
    (∃ m', step m = .ok () m') ↔
      ¬ (m.config.checkStuck = true ∧ mc.registers.pc = m.registers.pc) := by
  rw [step_apply, h, ← (leaves_cycle.of_ok h).config]
  dsimp only
  rw [← beq_iff_eq (a := mc.registers.pc), ← Bool.and_eq_true]
  split
  next hstuck => simp [hstuck]
  next hmoved => simp [hmoved]

theorem config_of_begun (budget executed : Nat) (m : Machine) :
    ∀ mk ∈ begunFrom budget executed m, mk.config = m.config := by
  refine runFrom_induct (motive := fun begun m _ => ∀ mk ∈ begun, mk.config = m.config)
    (fun m r _ mk hmem => by cases hmem) (fun m m' begun r hstep ih mk hmem => ?_)
    (fun m m' e fault m'' _ _ mk hmem => ?_) budget executed m
  · rcases List.mem_cons.mp hmem with rfl | hmem
    · rfl
    · exact (ih mk hmem).trans (config_of_step_ok hstep)
  · cases List.mem_singleton.mp hmem
    rfl

namespace GuardedRun

variable {hits : Array Hit} {begun : List Machine}
  {r : EStateM.Result Fault Machine (Option Outcome)}

/-- A guarded run stops with the breakpoint shown something exactly if the instruction at the
address is executed and is not found to be stuck. -/
theorem shown_iff (h : GuardedRun name address #[] begun r) :
    (∃ outcome m', r = .ok (some outcome) m' ∧ m'.hits ≠ #[]) ↔
      ∃ mk ∈ begun, ∃ mc, mk.CompletesAt name address mc ∧
        ¬ (mk.config.checkStuck = true ∧ mc.registers.pc = address) := by
  cases h with
  | missed helsewhere hhits =>
    constructor
    · rintro ⟨outcome, m', hr, hshown⟩
      exact absurd (hhits _ _ hr) hshown
    · rintro ⟨mk, hmem, mc, hcompletes, -⟩
      exact absurd hcompletes.fetched (helsewhere mk hmem)
  | failed helsewhere hhere hstep =>
    constructor
    · rintro ⟨outcome, m', hr, -⟩
      cases hr
    · rintro ⟨mk, hmem, mc, hcompletes, hmoved⟩
      rcases List.mem_append.mp hmem with hbefore | hlast
      · exact absurd hcompletes.fetched (helsewhere mk hbefore)
      · cases List.mem_singleton.mp hlast
        subst hhere
        -- It has completed and was not stuck, so the step cannot have failed.
        obtain ⟨m', hok⟩ := (exists_step_iff hcompletes.completed).mpr hmoved
        cases hok.symm.trans hstep
  | halted helsewhere hcompletes hstep hcore hhits =>
    rename_i before mk mc mk' m'
    constructor
    · rintro -
      refine ⟨mk, by simp, mc, hcompletes, ?_⟩
      have hmoved := (exists_step_iff hcompletes.completed).mp ⟨_, hstep⟩
      rwa [hcompletes.fetched] at hmoved
    · rintro -
      obtain ⟨hit, hpush, -⟩ := hcompletes.hit
      refine ⟨_, _, rfl, ?_⟩
      rw [hhits, hpush]
      exact Array.push_ne_empty

/-- The instruction at the address is the last one of a guarded run, which then leaves registers and
board alone. -/
theorem last (h : GuardedRun name address hits begun r) {mk : Machine} (hmem : mk ∈ begun)
    (hhere : mk.registers.pc = address) :
    begun.getLast? = some mk ∧ (finalState r).core = (finalState (step mk)).core := by
  have hlast : ∀ {before : List Machine} {ml : Machine},
      (∀ mj ∈ before, mj.registers.pc ≠ address) → mk ∈ before ++ [ml] → mk = ml := by
    intro before ml hbefore hmem
    rcases List.mem_append.mp hmem with hmem | hmem
    · exact absurd hhere (hbefore mk hmem)
    · exact List.mem_singleton.mp hmem
  cases h with
  | missed helsewhere => exact absurd hhere (helsewhere mk hmem)
  | failed helsewhere _ hstep hcore =>
    cases hlast helsewhere hmem
    rw [hstep]
    exact ⟨List.getLast?_concat, hcore⟩
  | halted helsewhere _ hstep hcore =>
    cases hlast helsewhere hmem
    rw [hstep]
    exact ⟨List.getLast?_concat, hcore⟩

end GuardedRun

end Machine

end Mos6502
