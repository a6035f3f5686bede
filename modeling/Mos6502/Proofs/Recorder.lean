import Mathlib.Data.List.Basic
import Mos6502.Proofs.Observation
import Mos6502.Proofs.Operations

/-!
# Breakpoints record the traffic

An entry that watches every address for every kind of access is a recorder. Whatever is done with
the machine, and whether it succeeds or fails, the recorder is shown the traffic of the bus and
nothing else (`recorder_shows_traffic`). So its record tells the board: the writes in it, replayed
on the board that there was at first, give the board that there is, and each read in it found what
the writes before it had left.
-/

namespace Mos6502

open Breakpoints (Entry Hit offer)

namespace Transfer

/-- A transfer as a breakpoint sees it: kind of access, address and byte. -/
def shown : Transfer → Events × UInt16 × UInt8
  | read address value => (.read, address, value)
  | write address value => (.write, address, value)
  | execute address value => (.execute, address, value)

end Transfer

/-- What a breakpoint sees of an access besides the registers. -/
def Access.shown (access : Access) : Events × UInt16 × UInt8 :=
  (access.events, access.address, access.value)

namespace Breakpoints

/-! ## What a slot holds -/

/-- A slot is replaced at its own address. -/
theorem slot_insert (b : Breakpoints) (address : UInt16) (entries : List Entry) (a : UInt16) :
    slot ⟨b.slots.insert address entries⟩ a = if address = a then entries else b.slot a := by
  rw [slot, Std.TreeMap.getD_insert]
  simp only [Std.compare_eq_iff_eq]
  rfl

theorem slot_register (b : Breakpoints) (events : Events) (name : String) (address a : UInt16)
    (callback : Callback) :
    (b.register events name address callback).slot a =
      if address = a then place { name, events, callback } (b.slot address) else b.slot a :=
  slot_insert b address _ a

/-- Where nothing is registered, nothing is there to be called. -/
theorem slot_eq (b : Breakpoints) (address : UInt16) :
    b.slot address = b.slots[address]?.getD [] :=
  Std.TreeMap.getD_eq_getD_getElem?

/-- What an access leads to is decided by the entries at its address. -/
theorem fire_offers (b : Breakpoints) (access : Access) :
    let offering := offer access { toAccess := access } (b.slot access.address)
    (b.fire access).hits = offering.hits ∧ (b.fire access).halt = offering.context.halt ∧
      ∀ a, (b.fire access).breakpoints.slot a =
        if access.address = a then offering.entries else b.slot a := by
  rw [fire]
  split
  next hnone =>
    have hslot : b.slot access.address = [] := by rw [slot_eq, hnone]; rfl
    rw [hslot]
    refine ⟨rfl, rfl, fun a => ?_⟩
    split
    next h => rw [← h, hslot]; rfl
    next => rfl
  next entries hsome =>
    have hslot : b.slot access.address = entries := by rw [slot_eq, hsome]; rfl
    rw [hslot]
    exact ⟨rfl, rfl, slot_insert b access.address _⟩

/-- An access is shown to the entries of its address. -/
theorem hits_fire (b : Breakpoints) (access : Access) :
    (b.fire access).hits =
      (offer access { toAccess := access } (b.slot access.address)).hits :=
  (b.fire_offers access).1

/-- An access leaves the slots of other addresses alone. -/
theorem slot_fire (b : Breakpoints) (access : Access) (a : UInt16) :
    (b.fire access).breakpoints.slot a =
      if access.address = a then
        (offer access { toAccess := access } (b.slot access.address)).entries
      else b.slot a :=
  (b.fire_offers access).2.2 a

/-- What a registration says. -/
def Entry.registration (entry : Entry) : String × Events × Callback :=
  (entry.name, entry.events, entry.callback)

/-- An offer changes no registration. -/
theorem registration_offer (access : Access) (context : Context) (entries : List Entry) :
    (offer access context entries).entries.map (·.registration) =
      entries.map (·.registration) := by
  induction entries generalizing context with
  | nil => rfl
  | cons entry rest ih =>
    rw [offer]
    split
    next => exact congrArg (entry.registration :: ·) (ih _)
    next => exact congrArg (entry.registration :: ·) (ih context)

/-- All callbacks do what they are meant to do. -/
def Observed (b : Breakpoints) : Prop :=
  ∀ address, ∀ entry ∈ b.slot address, entry.callback.Observes

/-- Without entries there is none that interferes. -/
theorem observed_empty : Observed empty := fun _ _ hentry => absurd hentry List.not_mem_nil

/-- Callbacks that observe go on observing. -/
theorem Observed.fire {b : Breakpoints} (h : b.Observed) (access : Access) :
    (b.fire access).breakpoints.Observed := by
  intro a entry hentry
  rw [slot_fire] at hentry
  split at hentry
  next =>
    have hregistered := List.mem_map_of_mem (f := (·.registration)) hentry
    rw [registration_offer, List.mem_map] at hregistered
    obtain ⟨registered, hmem, hsame⟩ := hregistered
    have hcallback : registered.callback = entry.callback := congrArg (·.2.2) hsame
    exact hcallback ▸ h access.address registered hmem
  next => exact h a entry hentry

theorem eq_or_mem_of_mem_place {entry other : Entry} {entries : List Entry}
    (h : other ∈ place entry entries) : other = entry ∨ other ∈ entries := by
  induction entries with
  | nil => exact .inl (List.mem_singleton.mp h)
  | cons first rest ih =>
    rw [place] at h
    split at h
    next => exact (List.mem_cons.mp h).imp_right (List.mem_cons_of_mem first)
    next =>
      rcases List.mem_cons.mp h with rfl | hrest
      · exact .inr List.mem_cons_self
      · exact (ih hrest).imp_right (List.mem_cons_of_mem first)

theorem Observed.register {b : Breakpoints} (h : b.Observed) (events : Events) (name : String)
    (address : UInt16) {callback : Callback} (hcallback : callback.Observes) :
    (b.register events name address callback).Observed := by
  intro a entry hentry
  rw [slot_register] at hentry
  split at hentry
  next =>
    rcases eq_or_mem_of_mem_place hentry with rfl | hmem
    · exact hcallback
    · exact h address entry hmem
  next => exact h a entry hentry

/-! ## Recorders -/

/-- Exactly one entry of this name watches each address, and it does so for all accesses. Neither it
nor any other entry does more than to observe. -/
structure Records (b : Breakpoints) (name : String) : Prop where
  events : ∀ address, ((b.slot address).filter (·.name == name)).map (·.events) = [.all]
  observed : b.Observed

/-- What an entry of this name has been shown. -/
def shownTo (name : String) (hits : List Hit) : List (Events × UInt16 × UInt8) :=
  (hits.filter (·.name == name)).map (·.given.shown)

theorem shownTo_append (name : String) (hits more : List Hit) :
    shownTo name (hits ++ more) = shownTo name hits ++ shownTo name more := by
  rw [shownTo, List.filter_append, List.map_append, ← shownTo, ← shownTo]

/-- As long as callbacks observe, an offer shows the access to all entries that match. -/
theorem shownTo_offer (name : String) (access : Access) (context : Context) (entries : List Entry)
    (hobserves : ∀ entry ∈ entries, entry.callback.Observes) :
    shownTo name (offer access context entries).hits =
      ((entries.filter (·.events.intersects access.events)).filter (·.name == name)).map
        fun _ => context.shown := by
  induction entries generalizing context with
  | nil => rfl
  | cons entry rest ih =>
    obtain ⟨hentry, hothers⟩ := List.forall_mem_cons.mp hobserves
    cases hmatch : entry.events.intersects access.events with
    | false => simpa [offer, hmatch] using ih context hothers
    | true =>
      have hrest := ih (entry.callback entry.seen context) hothers
      rw [(hentry entry.seen context).1] at hrest
      cases hname : entry.name == name with
      | false => simpa [offer, hmatch, shownTo, Entry.call, hname] using hrest
      | true =>
        simpa [offer, hmatch, shownTo, Entry.call, hname] using
          congrArg (context.shown :: ·) hrest

/-- An offer changes neither names nor the accesses that are watched for. -/
theorem events_offer (name : String) (access : Access) (context : Context)
    (entries : List Entry) :
    ((offer access context entries).entries.filter (·.name == name)).map (·.events) =
      (entries.filter (·.name == name)).map (·.events) := by
  have hevents : ∀ entries : List Entry, (entries.filter (·.name == name)).map (·.events) =
      ((entries.map (·.registration)).filter (·.1 == name)).map (·.2.1) := by
    intro entries
    rw [List.filter_map, List.map_map]
    rfl
  rw [hevents, hevents, registration_offer]

namespace Records

variable {b : Breakpoints} {name : String}

/-- A recorder is shown each access once, and goes on recording. -/
theorem fire (h : b.Records name) (access : Access)
    (hkind : Events.all.intersects access.events = true) :
    (b.fire access).breakpoints.Records name ∧
      shownTo name (b.fire access).hits = [access.shown] := by
  have hone := h.events access.address
  constructor
  · refine ⟨fun address => ?_, h.observed.fire access⟩
    rw [slot_fire]
    split
    next =>
      rw [events_offer]
      exact hone
    next => exact h.events address
  · obtain ⟨entry, hentry, hevents⟩ := List.map_eq_singleton_iff.mp hone
    have hmatch : entry.events.intersects access.events = true := by rw [hevents, hkind]
    have hshown := shownTo_offer name access { toAccess := access } (b.slot access.address)
      (h.observed access.address)
    rw [List.filter_comm, hentry] at hshown
    simpa [hits_fire, hmatch] using hshown

end Records

/-! ## Setting up a recorder -/

def watch (b : Breakpoints) (name : String) (callback : Callback) (addresses : List UInt16) :
    Breakpoints :=
  addresses.foldl (fun b address => b.register .all name address callback) b

theorem events_place (entry : Entry) (entries : List Entry)
    (hfew : (entries.filter (·.name == entry.name)).length ≤ 1) :
    ((place entry entries).filter (·.name == entry.name)).map (·.events) = [entry.events] := by
  induction entries with
  | nil => simp [place]
  | cons other rest ih =>
    by_cases hname : other.name = entry.name
    · have hrest : rest.filter (·.name == entry.name) = [] := by
        simpa [hname] using hfew
      simp [place, hname, hrest]
    · simpa [place, hname] using ih (by simpa [hname] using hfew)

def everywhere : List UInt16 := (List.range 0x10000).map UInt16.ofNat

theorem mem_everywhere (address : UInt16) : address ∈ everywhere :=
  List.mem_map.mpr ⟨address.toNat, List.mem_range.mpr address.toNat_lt, by simp⟩

/-- Watching adds one entry at each of the addresses, if there was none of the name before. -/
theorem events_watch (name : String) (callback : Callback) (addresses : List UInt16)
    (b : Breakpoints) (a : UInt16)
    (hbefore : ((b.slot a).filter (·.name == name)).map (·.events) = [.all] ∨
      a ∈ addresses ∧ (b.slot a).filter (·.name == name) = []) :
    (((b.watch name callback addresses).slot a).filter (·.name == name)).map (·.events) =
      [.all] := by
  induction addresses generalizing b with
  | nil =>
    rcases hbefore with hone | ⟨ha, -⟩
    · exact hone
    · cases ha
  | cons address rest ih =>
    refine ih (b.register .all name address callback) ?_
    rw [slot_register]
    by_cases haddress : address = a
    · subst haddress
      rw [if_pos rfl]
      -- The entry takes the place of its namesake, or there was none.
      refine .inl (events_place { name, events := .all, callback } _ ?_)
      rcases hbefore with hone | ⟨-, hnone⟩
      · rw [← List.length_map (·.events), hone]
        exact Nat.le_refl 1
      · rw [hnone]
        exact Nat.zero_le 1
    · rw [if_neg haddress]
      rcases hbefore with hone | ⟨ha, hnone⟩
      · exact .inl hone
      · exact .inr ⟨(List.mem_cons.mp ha).resolve_left (Ne.symm haddress), hnone⟩

theorem Observed.watch {b : Breakpoints} (h : b.Observed) (name : String) {callback : Callback}
    (hcallback : callback.Observes) (addresses : List UInt16) :
    (b.watch name callback addresses).Observed := by
  induction addresses generalizing b with
  | nil => exact h
  | cons address rest ih => exact ih (h.register .all name address hcallback)

/-- An entry that is registered at every address under a new name records. -/
theorem records_watch {b : Breakpoints} (h : b.Observed) (name : String) {callback : Callback}
    (hcallback : callback.Observes) (hfresh : ∀ address, b.contains address name = false) :
    (b.watch name callback everywhere).Records name := by
  refine ⟨fun address => ?_, h.watch name hcallback everywhere⟩
  have hnone := hfresh address
  rw [contains, List.any_eq_false] at hnone
  exact events_watch name callback everywhere b address
    (.inr ⟨mem_everywhere address, List.filter_eq_nil_iff.mpr hnone⟩)

end Breakpoints

namespace Machine

open Breakpoints (Records shownTo shownTo_append)

variable {α : Type} {m m' m'' : Machine}

/-- What an entry of this name has been shown, the oldest access first. -/
def shown (name : String) (m : Machine) : List (Events × UInt16 × UInt8) :=
  shownTo name m.hits.toList

/-- Between the two moments recorders have been shown just this, and they go on recording. -/
def Shows (new : List (Events × UInt16 × UInt8)) (m m' : Machine) : Prop :=
  ∀ name, m.breakpoints.Records name →
    m'.breakpoints.Records name ∧ m'.shown name = m.shown name ++ new

theorem Shows.trans {new more : List (Events × UInt16 × UInt8)} (h : Shows new m m')
    (k : Shows more m' m'') : Shows (new ++ more) m m'' := by
  intro name hrecords
  obtain ⟨hrecords', hshown⟩ := h name hrecords
  obtain ⟨hrecords'', hshown'⟩ := k name hrecords'
  exact ⟨hrecords'', by rw [hshown', hshown, List.append_assoc]⟩

theorem shows_nil (hbreakpoints : m'.breakpoints = m.breakpoints) (hhits : m'.hits = m.hits) :
    Shows [] m m' := by
  intro name hrecords
  rw [hbreakpoints, List.append_nil, shown, hhits]
  exact ⟨hrecords, rfl⟩

theorem Idle.shows (h : Idle m m') : Shows [] m m' := shows_nil h.breakpoints h.hits

theorem OnlyLogs.shows (h : OnlyLogs m m') : Shows [] m m' := shows_nil h.breakpoints h.hits

/-- An access is shown to the recorder, which hears all kinds of them. -/
theorem shows_fire (m : Machine) {events : Events}
    (hkind : Events.all.intersects events = true) (address : UInt16) (value : UInt8) :
    Shows [(events, address, value)] m (m.fire events address value) := by
  intro name hrecords
  obtain ⟨journal, hfire, hhits⟩ := m.fire_eq events address value
  obtain ⟨hrecords', hshown⟩ :=
    hrecords.fire { events, address, value, registers := m.core.registers } hkind
  rw [hfire]
  refine ⟨hrecords', ?_⟩
  rw [shown, hits, hhits, Array.toList_append, shownTo_append, hshown]
  rfl

/-! ## Traffic -/

/-- Between the two moments the bus has made these transfers, and recorders have been shown them. -/
structure Moves (ts : List Transfer) (m m' : Machine) : Prop where
  traffic : Traffic m.board ts m'.board
  shows : Shows (ts.map Transfer.shown) m m'

theorem Moves.trans {ts us : List Transfer} (h : Moves ts m m') (k : Moves us m' m'') :
    Moves (ts ++ us) m m'' where
  traffic := h.traffic.append k.traffic
  shows := List.map_append ▸ h.shows.trans k.shows

theorem Idle.moves (h : Idle m m') : Moves [] m m' where
  traffic := by rw [board, board, h.core]; exact .done _
  shows := h.shows

theorem OnlyLogs.moves (h : OnlyLogs m m') : Moves [] m m' where
  traffic := by rw [board, board, h.core]; exact .done _
  shows := h.shows

/-- A read is shown behind the mark in the log. -/
theorem moves_read (span : Option Span) {address : UInt16} {v : UInt8}
    (hread : m.core.board.read address = .ok v) :
    Moves [.read address v] m ((m.markRead span address).fire .read address v) where
  traffic := by
    rw [board, board, core_fire, (onlyLogs_markRead m span address).core]
    exact .read hread (.done _)
  shows := (onlyLogs_markRead m span address).shows.trans (shows_fire _ (by decide) address v)

/-- A write is shown after it was made. -/
theorem moves_write (m : Machine) (address : UInt16) (v : UInt8) :
    Moves [.write address v] m ((m.poke address v).fire .write address v) where
  traffic := by
    rw [board, board, core_fire, core_poke]
    exact .write (.done _)
  shows := by
    have hpoke : Shows [] m (m.poke address v) := by
      obtain ⟨journal, hwrite, hhits⟩ := m.poke_eq address v
      rw [hwrite]
      exact shows_nil rfl hhits
    exact hpoke.trans (shows_fire _ (by decide) address v)

/-- A fetched opcode has been read and executed. -/
theorem moves_fetch {opcode : UInt8} (h : fetch m = .ok opcode m') :
    Moves [.read m.registers.pc opcode, .execute m.registers.pc opcode] m m' := by
  have hread := (fetch_eq_ok h).1
  cases h.symm.trans (fetch_of_read hread)
  have hmoves := moves_read (some ⟨m.registers.pc, 1⟩) hread
  refine ⟨?_, hmoves.shows.trans (shows_fire _ (by decide) m.registers.pc opcode)⟩
  rw [board, board, core_fire, core_fire, (onlyLogs_markRead _ _ _).core]
  exact .fetch hread (.done _)

/-- The relation between two machines and the transfers in between holds of everything that a step
does, and it composes. -/
structure EachMove (R : List Transfer → Machine → Machine → Prop) : Prop where
  refl : ∀ m, R [] m m
  trans : ∀ {ts us : List Transfer} {m m' m'' : Machine},
    R ts m m' → R us m' m'' → R (ts ++ us) m m''
  read : ∀ {m : Machine} (span : Option Span) {address : UInt16} {v : UInt8},
    m.core.board.read address = .ok v →
      R [.read address v] m ((m.markRead span address).fire .read address v)
  write : ∀ m address v, R [.write address v] m ((m.poke address v).fire .write address v)
  assign : ∀ m r, R [] m (m.setRegisters r)
  fetch : ∀ {m m' : Machine} {opcode : UInt8}, Machine.fetch m = .ok opcode m' →
    R [.read m.registers.pc opcode, .execute m.registers.pc opcode] m m'
  logs : ∀ {m m' : Machine}, OnlyLogs m m' → R [] m m'
  count : ∀ (m : Machine) i, R [] m { m.nest i with ticks := m.ticks + 1 }

namespace EachMove

variable {R : List Transfer → Machine → Machine → Prop}

/-- Performed microcode makes the transfers that it makes on the bare processor and board. -/
theorem perform (h : EachMove R) (span : Option Span) (p : Microcode α) (m : Machine) :
    R (p.transfers m.core) m (finalState (perform span p m)) := by
  induction p generalizing m with
  | done result => exact h.refl m
  | read address next ih =>
    rw [Machine.perform, Microcode.transfers]
    dsimp only
    cases hread : m.core.board.read address with
    | error e => exact h.refl m
    | ok v =>
      -- The rest starts from a machine with a longer record, on the processor and board of before.
      have hrest := ih v ((m.markRead span address).fire .read address v)
      rw [core_fire, (onlyLogs_markRead m span address).core] at hrest
      exact h.trans (h.read span hread) hrest
  | write address value next ih =>
    have hrest := ih ((m.poke address value).fire .write address value)
    rw [core_fire, core_poke] at hrest
    exact h.trans (h.write m address value) hrest
  | inspect next ih => exact ih m.core.registers m
  | assign registers next ih => exact h.trans (h.assign m registers) (ih (m.setRegisters registers))

/-- A step that succeeds fetches, and then performs the instruction on the processor and board that
there were before. -/
theorem step (h : EachMove R) {m m' : Machine} (hstep : step m = .ok () m') {opcode : UInt8}
    {i : Instruction} (hread : m.board.read m.registers.pc = .ok opcode)
    (hdecode : Instruction.decode opcode = some i) :
    R ([.read m.registers.pc opcode, .execute m.registers.pc opcode] ++
      i.microcode.transfers m.core) m m' := by
  obtain ⟨m₁, hcycle, rfl⟩ := step_eq_ok hstep
  obtain ⟨opcode', i', mf, ml, mp, hfetch, hdecode', hlogs, hperform, rfl⟩ := cycle_eq_ok hcycle
  obtain ⟨hread', hcore⟩ := fetch_eq_ok hfetch
  cases hread.symm.trans hread'
  cases hdecode.symm.trans hdecode'
  have htransfers := h.perform (some ⟨ml.registers.pc, i.size⟩) i.microcode ml
  rw [hperform, hlogs.core, hcore] at htransfers
  have hbehind := h.trans (h.logs hlogs) (h.trans htransfers (h.count mp i))
  rw [List.append_nil, List.nil_append] at hbehind
  exact h.trans (h.fetch hfetch) hbehind

end EachMove

theorem eachMove_moves : EachMove Moves where
  refl m := (Idle.refl m).moves
  trans := Moves.trans
  read := moves_read
  write := moves_write
  assign _ _ := ⟨.done _, shows_nil rfl rfl⟩
  fetch := moves_fetch
  logs := OnlyLogs.moves
  count _ _ := ⟨.done _, shows_nil rfl rfl⟩

/-- Performed microcode moves what it moves on the bare processor and board. -/
theorem moves_perform (span : Option Span) (p : Microcode α) (m : Machine) :
    Moves (p.transfers m.core) m (finalState (perform span p m)) :=
  eachMove_moves.perform span p m

/-! ## Episodes -/

/-- Between the two moments these episodes have happened on the bus, and recorders have been shown
them. -/
structure Conveys (es : List Episode) (m m' : Machine) : Prop where
  unfolds : Unfolds m.board es m'.board
  shows : Shows ((es.flatMap (·.transfers)).map Transfer.shown) m m'

theorem Conveys.trans {es fs : List Episode} (h : Conveys es m m') (k : Conveys fs m' m'') :
    Conveys (es ++ fs) m m'' where
  unfolds := h.unfolds.append k.unfolds
  shows := by
    rw [List.flatMap_append, List.map_append]
    exact h.shows.trans k.shows

theorem Idle.conveys (h : Idle m m') : Conveys [] m m' where
  unfolds := by rw [board, board, h.core]; exact .done _
  shows := h.shows

theorem Conveys.trans_idle {es : List Episode} (h : Conveys es m m') (k : Idle m' m'') :
    Conveys es m m'' := by
  have hboth := h.trans k.conveys
  rwa [List.append_nil] at hboth

theorem Moves.conveys {during : Option Span} {ts : List Transfer} (h : Moves ts m m')
    (hopcodes : opcodes ts = (Episode.opcode? ⟨during, m.board, ts⟩).toList) :
    Conveys [⟨during, m.board, ts⟩] m m' where
  unfolds := .next (e := ⟨during, m.board, ts⟩) h.traffic hopcodes (.done _)
  shows := by
    rw [List.flatMap_singleton]
    exact h.shows

/-- Accesses outside of instructions. -/
theorem conveys_perform (p : Microcode α) (m : Machine) :
    Conveys [⟨none, m.board, p.transfers m.core⟩] m (finalState (perform none p m)) :=
  (moves_perform none p m).conveys (p.opcodes_transfers m.core)

/-- An episode that starts with a fetch has its opcode. -/
theorem opcode?_of_fetch {opcode : UInt8} (h : fetch m = .ok opcode m') (size : Nat)
    (ts : List Transfer) :
    Episode.opcode? ⟨some ⟨m.registers.pc, size⟩, m.board, ts⟩ =
      some (m.registers.pc, opcode) := by
  have hread := (fetch_eq_ok h).1
  simp only [Episode.opcode?, Option.bind_some, board, hread]

/-- Whatever part of an episode was gone through is conveyed. -/
theorem Progress.conveys {e : Episode} {reached : Bool} (h : Progress m e reached m') :
    Conveys [e] m m' := by
  cases h with
  | @unreadable err hfetch =>
    refine (Idle.refl m).moves.conveys ?_
    cases hread : m.core.board.read m.registers.pc with
    | error e => simp only [Episode.opcode?, Option.bind_some, board, hread]; rfl
    | ok opcode => exact absurd hread ((fetch_eq_error hfetch).2 opcode)
  | undecoded hfetch hdecode =>
    refine (moves_fetch hfetch).conveys ?_
    rw [opcode?_of_fetch hfetch]
    rfl
  | unannounced hfetch hdecode hannounce =>
    have hmoves := (moves_fetch hfetch).trans ((leaves_announce _).of_error hannounce).moves
    refine hmoves.conveys ?_
    rw [opcode?_of_fetch hfetch]
    rfl
  | @performed opcode i m₁ m₂ hfetch hdecode hannounce =>
    have hlogs := (leaves_announce _).of_ok hannounce
    have hperform := moves_perform (some ⟨m.registers.pc, i.size⟩) i.microcode m₂
    rw [hlogs.core, (fetch_eq_ok hfetch).2] at hperform
    have hmoves := (moves_fetch hfetch).trans (hlogs.moves.trans hperform)
    rw [List.nil_append] at hmoves
    refine hmoves.conveys ?_
    rw [opcode?_of_fetch hfetch, opcodes, List.filterMap_append, ← opcodes, ← opcodes,
      Microcode.opcodes_transfers]
    rfl

/-- A step conveys its episode, also where it fails. -/
theorem conveys_step (m : Machine) : Conveys [m.stepEpisode] m (finalState (step m)) := by
  obtain ⟨reached, m', hprogress, hidle, -⟩ := step_progress m
  exact hprogress.conveys.trans_idle hidle

theorem conveys_runFrom (budget executed : Nat) (m : Machine) :
    Conveys ((begunFrom budget executed m).map stepEpisode) m
      (finalState (runFrom budget executed m)) := by
  refine runFrom_induct (motive := fun begun m r =>
    Conveys (begun.map stepEpisode) m (finalState r)) ?_ ?_ ?_ budget executed m
  · exact fun m r hidle => hidle.conveys
  · intro m m' begun r hstep hrest
    have hconveys := conveys_step m
    rw [hstep] at hconveys
    exact hconveys.trans hrest
  · intro m m' e fault m'' hstep hidle
    have hconveys := conveys_step m
    rw [hstep] at hconveys
    exact hconveys.trans_idle hidle

theorem conveys_runRoutine (address : UInt16) (budget : Nat) (m : Machine) :
    Conveys (Operation.episodes (.runRoutine address budget) m) m
      (finalState (runRoutine address budget m)) := by
  have hpush := conveys_perform (Microcode.pushWord (m.registers.pc - 1)) m
  have henter : Conveys [] (finalState (perform none (Microcode.pushWord (m.registers.pc - 1)) m))
      (m.enter address) := ⟨.done _, shows_nil rfl rfl⟩
  have hrun := conveys_runFrom budget 0 (m.enter address)
  exact hpush.trans (henter.trans (hrun.trans_idle (idle_runRoutine address budget m)))

theorem conveys_interrupt (i : Interrupt) (m : Machine) :
    Conveys [⟨none, m.board, i.microcode.transfers m.core⟩] m (finalState (interrupt i m)) := by
  have hnote := idle_note m .debug fun _ => i.name ++ " from " ++ Text.address m.registers.pc
  have hperform := conveys_perform i.microcode
    (m.note .debug fun _ => i.name ++ " from " ++ Text.address m.registers.pc)
  exact hnote.conveys.trans hperform

/-- An operation conveys its episodes, whether it succeeds or fails. -/
theorem conveys_act (op : Operation) (m : Machine) :
    Conveys (op.episodes m) m (finalState (op.act m)) := by
  cases op with
  | step => exact conveys_step m
  | run budget =>
    rw [Operation.act, finalState_ofFault]
    exact conveys_runFrom budget 0 m
  | runRoutine address budget =>
    rw [Operation.act, finalState_ofFault]
    exact conveys_runRoutine address budget m
  | interrupt i => exact conveys_interrupt i m
  | irq =>
    rw [Operation.act, finalState_bind_pure, irq_apply, Operation.episodes]
    split
    next => exact (Idle.refl m).conveys
    next =>
      rw [finalState_bind_pure]
      exact conveys_interrupt .irq m
  | access p => exact conveys_perform p m
  | look view =>
    rw [Operation.act, finalState_observe]
    exact (Idle.refl m).conveys

/-- Operations convey their episodes, by induction on their list. -/
theorem conveys_after (m : Machine) (ops : List Operation) :
    Conveys (m.episodes ops) m (m.after ops) := by
  induction ops generalizing m with
  | nil => exact (Idle.refl m).conveys
  | cons op rest ih => exact (conveys_act op m).trans (ih _)

/-- Whatever is done with the machine, and whether it succeeds or fails, a recorder is shown the
transfers of the episodes in their order and nothing else. The writes among them make the board what
it is, at the end and at the beginning of each episode, and a read found what the writes before it
had left. An opcode is executed once for each fetch, right behind the read that fetched it.
Observers that render, and looks from outside, are no accesses. -/
theorem recorder_shows_traffic (m : Machine) (name : String)
    (hrecords : m.breakpoints.Records name) (ops : List Operation) :
    let traffic := (m.episodes ops).flatMap (·.transfers)
    (m.after ops).shown name = m.shown name ++ traffic.map Transfer.shown ∧
      (m.after ops).board = m.board.replay traffic ∧
      (∀ earlier e later, m.episodes ops = earlier ++ e :: later →
        e.board = m.board.replay (earlier.flatMap (·.transfers))) ∧
      (∀ earlier address value later, traffic = earlier ++ .read address value :: later →
        (m.board.replay earlier).read address = .ok value) ∧
      (∀ earlier address value later, traffic = earlier ++ .execute address value :: later →
        ∃ before, earlier = before ++ [.read address value]) ∧
      opcodes traffic = (m.episodes ops).filterMap Episode.opcode? ∧
      (∀ i (k : Machine), (finalState (announce i k)).hits = k.hits) ∧
      ∀ view (k : Machine), (finalState (Operation.act (.look view) k)).hits = k.hits := by
  intro traffic
  obtain ⟨hunfolds, hshows⟩ := conveys_after m ops
  have htraffic := hunfolds.traffic
  refine ⟨(hshows name hrecords).2, htraffic.eq_replay, fun _ _ _ => hunfolds.board_eq,
    fun _ _ _ _ => htraffic.read_eq, fun _ _ _ _ => htraffic.execute_follows,
    hunfolds.opcodes_eq, fun i k => (leaves_announce i k).hits, fun view k => ?_⟩
  exact (leaves_observe view k).hits

/-- A recorder follows a program into its unknown opcode and beyond. -/
theorem recorder_shows_unknown_opcode :
    let m : Machine :=
      { core :=
          ⟨{ Registers.powerOn with pc := 0x8000 }, .flat (.ofProgram 0x8000 [0x85, 0x10, 0x02])⟩
        config := {}
        history := .ofCapacity 0
        breakpoints := Breakpoints.empty.watch "all" .ignore Breakpoints.everywhere }
    let ops : List Operation := [.step, .step, .look fun c => c.peekByte 0x10 >>= fun _ => pure (),
      .runRoutine 0x8000 9, .access (Microcode.pull >>= fun _ => pure ()), .interrupt .nmi]
    let traffic := (m.episodes ops).flatMap (·.transfers)
    m.breakpoints.Records "all" ∧ (m.after ops).shown "all" = traffic.map Transfer.shown ∧
      (m.after ops).board = m.board.replay traffic ∧
      opcodes traffic = (m.episodes ops).filterMap Episode.opcode? := by
  intro m ops traffic
  have hrecords : m.breakpoints.Records "all" := by
    dsimp only [m]
    exact Breakpoints.records_watch Breakpoints.observed_empty "all" Callback.observes_ignore
      fun _ => rfl
  have hnone : m.shown "all" = [] := rfl
  obtain ⟨hshown, hboard, -, -, -, hopcodes, -, -⟩ := recorder_shows_traffic m "all" hrecords ops
  rw [hnone, List.nil_append] at hshown
  exact ⟨hrecords, hshown, hboard, hopcodes⟩

end Machine

end Mos6502
