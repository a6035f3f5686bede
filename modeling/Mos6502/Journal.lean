import Mos6502.Breakpoints

/-!
# The journal

What a machine tells about itself while it works: log records up to a chosen level, and the accesses
that breakpoints were shown. Nothing in the machine reads its journal.
-/

namespace Mos6502

/-- The importance of a log record, the most important first. -/
inductive Level where
  | error | warn | info | debug | trace
deriving DecidableEq

namespace Level

/-- The position of the level; records of a higher rank are less important. -/
def rank : Level → Nat
  | error => 1
  | warn => 2
  | info => 3
  | debug => 4
  | trace => 5

def name : Level → String
  | error => "ERROR"
  | warn => "WARN"
  | info => "INFO"
  | debug => "DEBUG"
  | trace => "TRACE"

end Level

structure Record where
  level : Level
  text : String
deriving DecidableEq

/-- The records and hits so far, oldest first. -/
structure Journal where
  /-- Records beyond this level are not kept; without a level none are. -/
  level : Option Level := none
  records : Array Record := #[]
  hits : Array Breakpoints.Hit := #[]

namespace Journal

def keeps (j : Journal) (level : Level) : Bool :=
  match j.level with
  | none => false
  | some most => level.rank ≤ most.rank

def note (j : Journal) (level : Level) (text : Unit → String) : Journal :=
  if j.keeps level then { j with records := j.records.push ⟨level, text ()⟩ } else j

def hit (j : Journal) (h : Breakpoints.Hit) : Journal :=
  let j := j.note .trace fun _ => h.message
  { j with hits := j.hits.push h }

def clear (j : Journal) : Journal := { level := j.level }

end Journal

end Mos6502
