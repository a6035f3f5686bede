/-!
# Writers that can run full

A writer accepts bytes until its room is used up. A piece that does not fit is accepted as far as
the room goes, and then writing has failed: no later piece is tried. A writer may hold bytes back in
a buffer, so that it fails at a later piece than the one that does not fit, or only when it is
flushed.
-/

namespace Mos6502

/-- A writer and what it has accepted. -/
structure Sink where
  /-- How many more bytes it takes; without a bound it takes everything. -/
  room : Option Nat
  accepted : List UInt8 := []
  /-- How many bytes the buffer has space for. -/
  capacity : Nat := 0
  /-- The bytes in the buffer. -/
  held : List UInt8 := []

namespace Sink

/-- Hand bytes on, past the buffer. -/
def pass (bytes : List UInt8) : EStateM Unit Sink Unit := fun s =>
  match s.room with
  | none => .ok () { s with accepted := s.accepted ++ bytes }
  | some room =>
    let after := { s with
      room := some (room - bytes.length)
      accepted := s.accepted ++ bytes.take room }
    if bytes.length ≤ room then .ok () after else .error () after

/-- Hand on what the buffer holds. What is not accepted stays there. -/
def flush : EStateM Unit Sink Unit := fun s =>
  match pass s.held s with
  | .ok () after => .ok () { after with held := [] }
  | .error () after =>
    .error () { after with held := s.held.drop (after.accepted.length - s.accepted.length) }

/-- Flush the buffer if it has no space for so many bytes. -/
def reserve (count : Nat) : EStateM Unit Sink Unit := fun s =>
  if s.capacity - s.held.length < count then flush s else .ok () s

/-- Put bytes into the buffer, unless they would fill it alone. -/
def put (bytes : List UInt8) : EStateM Unit Sink Unit := fun s =>
  if s.capacity ≤ bytes.length then pass bytes s else .ok () { s with held := s.held ++ bytes }

def write (piece : List UInt8) : EStateM Unit Sink Unit := do
  reserve piece.length
  put piece

/-- Write pieces one behind the other, up to the first that fails. -/
def writeAll (pieces : List (List UInt8)) : EStateM Unit Sink Unit := pieces.forM write

end Sink

end Mos6502
