import Mathlib.Data.List.Induction
import Mos6502.Proofs.Recorder

/-!
# What a history of edits puts in force

The entries of a registry at one address are told by the edits that have made the registry, without
any mention of how it is stored. A name is in force there with the events and the callback of its
last registration, unless it has been taken away since; and it stands where its first registration
since then has put it, behind the names that were there already (`follows_after`). An edit is
understood once for one address: what it makes of the entries (`Edit.onSlot`), and what this does
to registrations and to the order of names.
-/

namespace Mos6502.Breakpoints

/-! ## Histories -/

inductive Edit where
  | register (events : Events) (name : String) (address : UInt16) (callback : Callback)
  | remove (address : UInt16) (name : String)
  | clear
  | fire (access : Access)

namespace Edit

def apply (b : Breakpoints) : Edit → Breakpoints
  | register events name address callback => b.register events name address callback
  | remove address name => (b.erase address name).1
  | clear => .empty
  | fire access => (b.fire access).breakpoints

def Places (address : UInt16) (name : String) : Edit → Prop
  | register _ n a _ => a = address ∧ n = name
  | remove .. | clear | fire _ => False

def Drops (address : UInt16) (name : String) : Edit → Prop
  | remove a n => a = address ∧ n = name
  | clear => True
  | register .. | fire _ => False

variable {x : Edit} {address : UInt16} {name : String}

theorem places_iff :
    x.Places address name ↔ ∃ events callback, x = .register events name address callback := by
  cases x <;> simp [Places, and_comm]

theorem Places.not_drops (h : x.Places address name) : ¬ x.Drops address name := by
  obtain ⟨events, callback, rfl⟩ := places_iff.mp h
  exact id

end Edit

def after (edits : List Edit) : Breakpoints := edits.foldl Edit.apply .empty

/-- The last registration of the name at the address has these events and this callback, and the
name has not been taken away since. -/
def InForce (edits : List Edit) (address : UInt16) (name : String) (events : Events)
    (callback : Callback) : Prop :=
  ∃ earlier later, edits = earlier ++ .register events name address callback :: later ∧
    ∀ e ∈ later, ¬ e.Places address name ∧ ¬ e.Drops address name

def Absent (edits : List Edit) (address : UInt16) (name : String) : Prop :=
  ∀ events callback, ¬ InForce edits address name events callback

/-- Behind `start` edits the name was registered at the address, where it was absent, and it has
not been taken away since. -/
def PresentSince (edits : List Edit) (address : UInt16) (name : String) (start : Nat) : Prop :=
  ∃ earlier later events callback,
    edits = earlier ++ .register events name address callback :: later ∧ earlier.length = start ∧
      Absent earlier address name ∧ ∀ e ∈ later, ¬ e.Drops address name

section Histories

variable {edits earlier later : List Edit} {x y : Edit} {address : UInt16} {name : String}
  {events : Events} {callback : Callback} {start : Nat}

/-- The last edit of a history, seen from an edit in it: it is that edit, or it comes later. -/
theorem concat_eq_append_cons :
    edits ++ [x] = earlier ++ y :: later ↔
      (later = [] ∧ edits = earlier ∧ x = y) ∨
        ∃ between, later = between ++ [x] ∧ edits = earlier ++ y :: between := by
  rcases List.eq_nil_or_concat' later with rfl | ⟨between, z, rfl⟩
  · simp [List.append_singleton_inj]
  · have hassoc : earlier ++ y :: (between ++ [z]) = (earlier ++ y :: between) ++ [z] := by simp
    rw [hassoc, List.append_singleton_inj]
    constructor
    · rintro ⟨rfl, rfl⟩
      exact .inr ⟨between, rfl, rfl⟩
    · rintro (⟨hnil, -⟩ | ⟨between', hlater, rfl⟩)
      · simp at hnil
      · obtain ⟨rfl, rfl⟩ := List.append_singleton_inj.mp hlater
        exact ⟨rfl, rfl⟩

theorem after_concat : after (edits ++ [x]) = x.apply (after edits) := by
  rw [after, List.foldl_append]
  rfl

/-- A registration is in force if the last edit made it, or if it was and the last edit neither
replaced nor dropped it. -/
theorem inForce_concat :
    InForce (edits ++ [x]) address name events callback ↔
      x = .register events name address callback ∨
        InForce edits address name events callback ∧ ¬ x.Places address name ∧
          ¬ x.Drops address name := by
  simp only [InForce, concat_eq_append_cons]
  constructor
  · rintro ⟨earlier, later, ⟨rfl, rfl, rfl⟩ | ⟨between, rfl, rfl⟩, hlater⟩
    · exact .inl rfl
    · rw [List.forall_mem_append, List.forall_mem_singleton] at hlater
      exact .inr ⟨⟨earlier, between, rfl, hlater.1⟩, hlater.2⟩
  · rintro (rfl | ⟨⟨earlier, between, rfl, hbetween⟩, hx⟩)
    · exact ⟨edits, [], .inl ⟨rfl, rfl, rfl⟩, by simp⟩
    · refine ⟨earlier, between ++ [x], .inr ⟨between, rfl, rfl⟩, ?_⟩
      rw [List.forall_mem_append, List.forall_mem_singleton]
      exact ⟨hbetween, hx⟩

/-- A name is absent if the last edit dropped it, or if it was and the last edit did not place it.
-/
theorem absent_concat :
    Absent (edits ++ [x]) address name ↔
      ¬ x.Places address name ∧ (Absent edits address name ∨ x.Drops address name) := by
  simp only [Absent, inForce_concat]
  constructor
  · intro h
    have hplaces : ¬ x.Places address name := fun hx => by
      obtain ⟨events, callback, hregister⟩ := Edit.places_iff.mp hx
      exact h events callback (.inl hregister)
    exact ⟨hplaces, or_iff_not_imp_right.mpr fun hdrops events callback hinForce =>
      h events callback (.inr ⟨hinForce, hplaces, hdrops⟩)⟩
  · rintro ⟨hplaces, hbefore⟩ events callback (rfl | ⟨hinForce, -, hdrops⟩)
    · exact hplaces ⟨rfl, rfl⟩
    · exact hbefore.elim (· events callback hinForce) hdrops

/-- A name is present since the edit that placed it, as long as none drops it. -/
theorem presentSince_concat :
    PresentSince (edits ++ [x]) address name start ↔
      (edits.length = start ∧ Absent edits address name ∧ x.Places address name) ∨
        PresentSince edits address name start ∧ ¬ x.Drops address name := by
  simp only [PresentSince, concat_eq_append_cons, Edit.places_iff]
  constructor
  · rintro ⟨earlier, later, events, callback, ⟨rfl, rfl, rfl⟩ | ⟨between, rfl, rfl⟩, hstart,
      habsent, hlater⟩
    · exact .inl ⟨hstart, habsent, events, callback, rfl⟩
    · rw [List.forall_mem_append, List.forall_mem_singleton] at hlater
      exact .inr ⟨⟨earlier, between, events, callback, rfl, hstart, habsent, hlater.1⟩, hlater.2⟩
  · rintro (⟨hstart, habsent, events, callback, rfl⟩ |
      ⟨⟨earlier, between, events, callback, rfl, hstart, habsent, hbetween⟩, hx⟩)
    · exact ⟨edits, [], events, callback, .inl ⟨rfl, rfl, rfl⟩, hstart, habsent, by simp⟩
    · refine ⟨earlier, between ++ [x], events, callback, .inr ⟨between, rfl, rfl⟩, hstart, habsent,
        ?_⟩
      rw [List.forall_mem_append, List.forall_mem_singleton]
      exact ⟨hbetween, hx⟩

theorem PresentSince.lt_length (h : PresentSince edits address name start) :
    start < edits.length := by
  obtain ⟨earlier, later, events, callback, rfl, rfl, -⟩ := h
  simp

/-- An edit that does not drop a name leaves its seniority alone. -/
theorem PresentSince.concat (h : PresentSince edits address name start)
    (hx : ¬ x.Drops address name) : PresentSince (edits ++ [x]) address name start :=
  presentSince_concat.mpr (.inr ⟨h, hx⟩)

/-- A name is present exactly if it has been present since some edit. -/
theorem exists_presentSince :
    (∃ start, PresentSince edits address name start) ↔ ¬ Absent edits address name := by
  induction edits using List.reverseRecOn with
  | nil => simp [PresentSince, Absent, InForce]
  | append_singleton edits x ih =>
    simp only [presentSince_concat, exists_or, exists_and_right, exists_eq', true_and, ih,
      absent_concat]
    have hplaces : x.Places address name → ¬ x.Drops address name := Edit.Places.not_drops
    tauto

/-- There is only one such edit. -/
theorem PresentSince.unique {start' : Nat} (h : PresentSince edits address name start)
    (h' : PresentSince edits address name start') : start = start' := by
  induction edits using List.reverseRecOn with
  | nil => simp [PresentSince] at h
  | append_singleton edits x ih =>
    rw [presentSince_concat] at h h'
    rcases h with ⟨rfl, habsent, -⟩ | ⟨h, -⟩ <;> rcases h' with ⟨rfl, habsent', -⟩ | ⟨h', -⟩
    · rfl
    · exact absurd habsent (exists_presentSince.mp ⟨_, h'⟩)
    · exact absurd habsent' (exists_presentSince.mp ⟨_, h⟩)
    · exact ih h h'

end Histories

/-! ## Slots -/

def Edit.onSlot (address : UInt16) : Edit → List Entry → List Entry
  | register events name a callback, entries =>
    if a = address then place { name, events, callback } entries else entries
  | remove a name, entries =>
    if a = address then entries.filter fun entry => entry.name != name else entries
  | clear, _ => []
  | fire access, entries =>
    if access.address = address then (offer access { toAccess := access } entries).entries
    else entries

section Slots

variable {x : Edit} {entries : List Entry} {address : UInt16} {name : String}
  {events : Events} {callback : Callback}

/-- Placing an entry replaces the registration of its name, and no other. -/
theorem mem_place {entry : Entry} (hnames : (entries.map (·.name)).Nodup)
    (r : String × Events × Callback) :
    r ∈ (place entry entries).map (·.registration) ↔
      r = entry.registration ∨ r ∈ entries.map (·.registration) ∧ r.1 ≠ entry.name := by
  induction entries with
  | nil => simp [place]
  | cons other rest ih =>
    rw [List.map_cons, List.nodup_cons] at hnames
    by_cases hname : other.name = entry.name
    · -- No other entry has the name, so the rest is kept whole.
      have hrest : r ∈ rest.map (·.registration) → r.1 ≠ entry.name := by
        rw [List.mem_map]
        rintro ⟨kept, hkept, rfl⟩ hkeptName
        exact hnames.1 (List.mem_map.mpr ⟨kept, hkept, hkeptName.trans hname.symm⟩)
      have hother : r = other.registration → r.1 = entry.name := fun hr => hr ▸ hname
      simp only [place, if_pos hname, List.map_cons, List.mem_cons]
      tauto
    · have hother : r = other.registration → r.1 ≠ entry.name := fun hr => hr ▸ hname
      simp only [place, if_neg hname, List.map_cons, List.mem_cons, ih hnames.2]
      tauto

/-- A name keeps its place, and a new one goes behind all others. -/
theorem names_place (entry : Entry) (entries : List Entry) :
    (place entry entries).map (·.name) =
      if entry.name ∈ entries.map (·.name) then entries.map (·.name)
      else entries.map (·.name) ++ [entry.name] := by
  induction entries with
  | nil => simp [place]
  | cons other rest ih =>
    by_cases hname : other.name = entry.name
    · simp [place, hname]
    · rw [place, if_neg hname, List.map_cons, ih, List.map_cons]
      simp only [List.mem_cons, Ne.symm hname, false_or]
      split <;> rfl

/-- The registrations behind an edit are those that it leaves in force. -/
theorem mem_onSlot (hnames : (entries.map (·.name)).Nodup) :
    (name, events, callback) ∈ (x.onSlot address entries).map (·.registration) ↔
      x = .register events name address callback ∨
        (name, events, callback) ∈ entries.map (·.registration) ∧ ¬ x.Places address name ∧
          ¬ x.Drops address name := by
  cases x with
  | register events' name' a callback' =>
    by_cases ha : a = address
    · have hsame : (name, events, callback) = (name', events', callback') ↔
          Edit.register events' name' a callback' = .register events name address callback := by
        rw [Prod.mk.injEq, Prod.mk.injEq, Edit.register.injEq]
        tauto
      rw [Edit.onSlot, if_pos ha, mem_place hnames, Entry.registration, hsame]
      simp [Edit.Places, Edit.Drops, ha, @eq_comm _ name']
    · simp [Edit.onSlot, ha, Edit.Places, Edit.Drops]
  | remove a name' =>
    by_cases ha : a = address
    · have hfilter : (entries.filter fun entry => entry.name != name').map (·.registration) =
          (entries.map (·.registration)).filter (·.1 != name') := by
        rw [List.filter_map]
        rfl
      rw [Edit.onSlot, if_pos ha, hfilter, List.mem_filter]
      simp [Edit.Places, Edit.Drops, ha, @eq_comm _ name']
    · simp [Edit.onSlot, ha, Edit.Places, Edit.Drops]
  | clear => simp [Edit.onSlot, Edit.Places, Edit.Drops]
  | fire access =>
    rw [Edit.onSlot]
    split <;> simp [registration_offer, Edit.Places, Edit.Drops]

/-- An edit takes some names out of the order, or adds one behind all others. -/
theorem names_onSlot (x : Edit) (address : UInt16) (entries : List Entry) :
    ∃ kept, kept.Sublist (entries.map (·.name)) ∧ (∀ name ∈ kept, ¬ x.Drops address name) ∧
      ((x.onSlot address entries).map (·.name) = kept ∨
        ∃ name, x.Places address name ∧ name ∉ entries.map (·.name) ∧
          (x.onSlot address entries).map (·.name) = kept ++ [name]) := by
  cases x with
  | register events name a callback =>
    refine ⟨entries.map (·.name), .refl _, fun _ _ => id, ?_⟩
    rw [Edit.onSlot]
    split
    next ha =>
      -- A replacement keeps the place of the name, a new entry comes behind all others.
      rw [names_place]
      split
      next => exact .inl rfl
      next hnew => exact .inr ⟨name, ⟨ha, rfl⟩, hnew, rfl⟩
    next => exact .inl rfl
  | remove a name =>
    refine ⟨_, ?_, ?_, .inl rfl⟩ <;> rw [Edit.onSlot] <;> split
    next => exact List.filter_sublist.map _
    next => exact .refl _
    next =>
      simp only [List.mem_map, List.mem_filter, bne_iff_ne]
      rintro _ ⟨entry, ⟨-, hother⟩, rfl⟩ ⟨-, hname⟩
      exact hother hname.symm
    next ha => exact fun _ _ hdrops => ha hdrops.1
  | clear => exact ⟨[], List.nil_sublist _, by simp, .inl rfl⟩
  | fire access =>
    refine ⟨entries.map (·.name), .refl _, fun _ _ => id, .inl ?_⟩
    rw [Edit.onSlot]
    split
    next =>
      -- Calling an entry changes what it has seen, but not its registration.
      have hregistrations := congrArg (List.map Prod.fst)
        (registration_offer access { toAccess := access } entries)
      simpa [Entry.registration, Function.comp_def] using hregistrations
    next => rfl

end Slots

/-! ## What a slot tells -/

/-- The first of the names has been present for longer. -/
def Senior (edits : List Edit) (address : UInt16) (first second : String) : Prop :=
  ∃ start start', PresentSince edits address first start ∧
    PresentSince edits address second start' ∧ start < start'

/-- The entries are those in force at the address, by seniority. -/
structure Follows (edits : List Edit) (address : UInt16) (entries : List Entry) : Prop where
  inForce : ∀ name events callback,
    (name, events, callback) ∈ entries.map (·.registration) ↔
      InForce edits address name events callback
  seniority : (entries.map (·.name)).Pairwise (Senior edits address)

section Following

variable {edits : List Edit} {address : UInt16} {entries : List Entry} {name first second : String}

/-- No name is senior to itself. -/
theorem Senior.ne (h : Senior edits address first second) : first ≠ second := by
  rintro rfl
  obtain ⟨start, start', hfirst, hsecond, hlt⟩ := h
  exact hlt.ne (hfirst.unique hsecond)

/-- Two names keep their order until one of them is dropped. -/
theorem Senior.concat {x : Edit} (h : Senior edits address first second)
    (hfirst : ¬ x.Drops address first) (hsecond : ¬ x.Drops address second) :
    Senior (edits ++ [x]) address first second := by
  obtain ⟨start, start', hstart, hstart', hlt⟩ := h
  exact ⟨start, start', hstart.concat hfirst, hstart'.concat hsecond, hlt⟩

namespace Follows

theorem nodup (h : Follows edits address entries) : (entries.map (·.name)).Nodup :=
  h.seniority.imp Senior.ne

theorem mem_names (h : Follows edits address entries) :
    name ∈ entries.map (·.name) ↔ ¬ Absent edits address name := by
  simp only [Absent, not_forall, not_not, ← h.inForce, List.mem_map, Entry.registration,
    Prod.mk.injEq]
  constructor
  · rintro ⟨entry, hentry, rfl⟩
    exact ⟨_, _, entry, hentry, rfl, rfl, rfl⟩
  · rintro ⟨_, _, entry, hentry, hname, -⟩
    exact ⟨entry, hentry, hname⟩

/-- An edit moves the entries along with the history. -/
theorem concat (h : Follows edits address entries) (x : Edit) :
    Follows (edits ++ [x]) address (x.onSlot address entries) where
  inForce := fun name events callback => by
    rw [mem_onSlot h.nodup, inForce_concat, h.inForce]
  seniority := by
    obtain ⟨kept, hsublist, hdrops, hnames⟩ := names_onSlot x address entries
    have hkept : kept.Pairwise (Senior (edits ++ [x]) address) :=
      (h.seniority.sublist hsublist).imp_of_mem fun hfirst hsecond hsenior =>
        hsenior.concat (hdrops _ hfirst) (hdrops _ hsecond)
    rcases hnames with hnames | ⟨name, hplaces, hnew, hnames⟩
    · rwa [hnames]
    · rw [hnames, List.pairwise_append]
      refine ⟨hkept, List.pairwise_singleton _ _, fun old hold _ hmem => ?_⟩
      obtain rfl := List.mem_singleton.mp hmem
      obtain ⟨start, hstart⟩ := exists_presentSince.mpr (h.mem_names.mp (hsublist.subset hold))
      have habsent := not_not.mp (mt h.mem_names.mpr hnew)
      exact ⟨start, edits.length, hstart.concat (hdrops _ hold),
        presentSince_concat.mpr (.inl ⟨rfl, habsent, hplaces⟩), hstart.lt_length⟩

end Follows

end Following

end Mos6502.Breakpoints
