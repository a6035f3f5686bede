import Mos6502.Registers
import Mos6502.Text.Quoted
import Std.Data.TreeMap

/-!
# Breakpoints

Named entries that watch an address for some kinds of access. An access is shown to the matching
entries at its address, in the order of their first registration. One context is handed from each
callback to the next, and what the last of them leaves in it decides about a halt. Callbacks are
meant to observe the access and to ask for a halt at most (`Callback.Observes`); nothing keeps them
from changing the context, and then the later ones are shown what they have made of it. Registering
a name again at the same address replaces the entry where it stands.
-/

namespace Mos6502

/-- A set of kinds of access. Bits 0 to 2 stand for the kinds; the others have no name. -/
structure Events where
  bits : UInt8
deriving DecidableEq

namespace Events

def read : Events := ⟨0b001⟩

def write : Events := ⟨0b010⟩

def execute : Events := ⟨0b100⟩

def all : Events := ⟨0b111⟩

def intersects (e f : Events) : Bool := e.bits &&& f.bits != 0

def names (e : Events) : List String :=
  [(read, "READ"), (write, "WRITE"), (execute, "EXECUTE")].filterMap fun kind =>
    if e.intersects kind.1 then some kind.2 else none

def text (e : Events) : String := Text.join "|" e.names

def unnamed (e : Events) : UInt8 := e.bits &&& ~~~all.bits

/-- The set as diagnostics print it: the names, and what has no name as a number. -/
def inspect (e : Events) : String :=
  let rest :=
    if e.unnamed = 0 then [] else ["0x" ++ String.ofList (Nat.toDigits 16 e.unnamed.toNat)]
  let parts := e.names ++ rest
  "Event(" ++ (if parts.isEmpty then "0x0" else Text.join " | " parts) ++ ")"

end Events

/-- An access to the bus, and the registers at that time. -/
structure Access where
  events : Events
  address : UInt16
  /-- The byte read or written, or the opcode fetched. -/
  value : UInt8
  registers : Registers
deriving DecidableEq

/-- What a callback is shown of an access. It may change all of it. -/
structure Context extends Access where
  /-- A halt has been asked for. -/
  halt : Bool := false
deriving DecidableEq

def Context.requestHalt (c : Context) : Context := { c with halt := true }

/-- What a callback makes of a context that it is shown, given the contexts that it was shown
before, the newest first. -/
abbrev Callback := List Context → Context → Context

/-- What callbacks are meant to do: they keep the access as it is, and a halt that has been asked
for stays asked for. -/
def Callback.Observes (callback : Callback) : Prop :=
  ∀ before context, (callback before context).toAccess = context.toAccess ∧
    (context.halt = true → (callback before context).halt = true)

namespace Callback

def ignore : Callback := fun _ context => context

def halt : Callback := fun _ context => context.requestHalt

theorem observes_ignore : Observes ignore := fun _ _ => ⟨rfl, id⟩

end Callback

namespace Breakpoints

structure Entry where
  name : String
  events : Events
  callback : Callback
  /-- The contexts shown to this entry since it was registered, newest first. -/
  seen : List Context := []

/-- An entry was called because of an access. -/
structure Hit where
  name : String
  access : Access
  /-- The context that the callback was shown. -/
  given : Context
  /-- The context as the callback left it. -/
  left : Context

def Hit.message (hit : Hit) : String :=
  "Breakpoint " ++ Text.quote hit.name ++ " hit: " ++ hit.access.events.text ++ " " ++
    Text.address hit.access.address

/-- What an access has led to at one address. -/
structure Offering where
  entries : List Entry
  hits : List Hit
  /-- The context as the last callback left it. -/
  context : Context

def Entry.call (entry : Entry) (access : Access) (context : Context) : Entry × Hit :=
  ({ entry with seen := context :: entry.seen },
    { name := entry.name, access, given := context, left := entry.callback entry.seen context })

/-- Call the entries of a list that match an access, and hand the context from one to the next. -/
def offer (access : Access) (context : Context) : List Entry → Offering
  | [] => { entries := [], hits := [], context }
  | entry :: rest =>
    if entry.events.intersects access.events then
      let (entry, hit) := entry.call access context
      let behind := offer access hit.left rest
      { behind with entries := entry :: behind.entries, hits := hit :: behind.hits }
    else
      let behind := offer access context rest
      { behind with entries := entry :: behind.entries }

/-- Put an entry in the place of its namesake, or behind all others. -/
def place (entry : Entry) : List Entry → List Entry
  | [] => [entry]
  | other :: rest =>
    if other.name = entry.name then entry :: rest else other :: place entry rest

end Breakpoints

/-- The entries at each address. -/
structure Breakpoints where
  slots : Std.TreeMap UInt16 (List Breakpoints.Entry) := {}

namespace Breakpoints

def empty : Breakpoints := {}

/-- The entries at an address, in the order of their first registration. -/
def slot (b : Breakpoints) (address : UInt16) : List Entry := b.slots.getD address []

def isEmpty (b : Breakpoints) : Bool := b.slots.isEmpty

/-- Every entry with its address, by address and then by registration. -/
def toList (b : Breakpoints) : List (UInt16 × Entry) :=
  b.slots.toList.flatMap fun slot => slot.2.map fun entry => (slot.1, entry)

def contains (b : Breakpoints) (address : UInt16) (name : String) : Bool :=
  (b.slot address).any fun entry => entry.name == name

def register (b : Breakpoints) (events : Events) (name : String) (address : UInt16)
    (callback : Callback) : Breakpoints :=
  ⟨b.slots.insert address (place { name, events, callback } (b.slot address))⟩

def registerMessage (b : Breakpoints) (events : Events) (name : String) (address : UInt16) :
    String :=
  (if b.contains address name then "Replacing" else "Registering") ++ " breakpoint " ++
    Text.quote name ++ " at " ++ Text.address address ++ " (" ++ events.text ++ ")"

/-- Remove the entry of this name at the address; the answer says whether there was one. -/
def erase (b : Breakpoints) (address : UInt16) (name : String) : Breakpoints × Bool :=
  match b.slots[address]? with
  | none => (b, false)
  | some entries =>
    let kept := entries.filter fun entry => entry.name != name
    let slots :=
      if kept.isEmpty then b.slots.erase address else b.slots.insert address kept
    (⟨slots⟩, kept.length != entries.length)

structure Fired where
  breakpoints : Breakpoints
  hits : List Hit
  /-- The last callback has left the context with a halt asked for. -/
  halt : Bool

/-- Show an access to the matching entries at its address. -/
def fire (b : Breakpoints) (access : Access) : Fired :=
  match b.slots[access.address]? with
  | none => { breakpoints := b, hits := [], halt := false }
  | some entries =>
    let offering := offer access { toAccess := access } entries
    { breakpoints := ⟨b.slots.insert access.address offering.entries⟩
      hits := offering.hits
      halt := offering.context.halt }

def haltMessage (access : Access) : String :=
  "Halt requested by breakpoint at " ++ Text.address access.address ++ " (" ++
    access.events.text ++ ")"

def inspect (b : Breakpoints) : String :=
  "[" ++ Text.join ", " (b.toList.map fun (address, entry) =>
    "(" ++ toString address.toNat ++ ", " ++ Text.quote entry.name ++ ", " ++
      entry.events.inspect ++ ")") ++ "]"

end Breakpoints

end Mos6502
