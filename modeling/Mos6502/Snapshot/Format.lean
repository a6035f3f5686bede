import Mos6502.Document
import Mos6502.Snapshot.Status

/-!
# Kept values

States are kept by a library that has a document for the values of every type: numbers, truth
values, byte strings and sets of flags, and records and unions of these. What a state says about
its fields, their names and their types is written against `Format`; `Format.json` is the format
in which states are kept.
-/

namespace Mos6502

/-- How the values of each type are written and read. What a record has under a key is read as a
value that may be missing, since it is for the type of the value to say whether it may. -/
structure Format where
  number : Nat → Document
  /-- A number that is at most the bound. -/
  number? (bound : Nat) : Option Document → Option Nat
  bool : Bool → Document
  bool? : Option Document → Option Bool
  bytes : Array UInt8 → Document
  bytes? : Option Document → Option (Array UInt8)
  /-- A byte string that may be absent. -/
  optional : Option (Array UInt8) → Document
  optional? : Option Document → Option (Option (Array UInt8))
  flags : Status → Document
  flags? : Option Document → Option Status
  record : List (String × Document) → Document
  /-- What a record has under each of the keys. -/
  fields? (keys : List String) : Option Document → Option (List (Option Document))
  /-- A value of a union behind the name of its variant. -/
  tagged : String → Document → Document
  /-- Which of the variants a document has a value of, and that value. -/
  tagged? (names : List String) : Document → Option (String × Document)

namespace Format

variable (format : Format)

def byte (v : UInt8) : Document := format.number v.toNat

def byte? (given : Option Document) : Option UInt8 :=
  (format.number? 0xFF given).map UInt8.ofNat

def word (v : UInt16) : Document := format.number v.toNat

def word? (given : Option Document) : Option UInt16 :=
  (format.number? 0xFFFF given).map UInt16.ofNat

/-- Records by key, unions as records of one key, flags as a text, and all else by its own kind of
document. -/
def json : Format where
  number := .ofNat
  number? bound given := given.bind (·.nat? bound)
  bool := .bool
  bool? given := given.bind (·.bool?)
  bytes := .ofBytes
  bytes? given := given.bind (·.bytes?)
  optional := .ofOptional
  optional?
    | none | some .null => some none
    | some d => d.bytes?.map some
  flags s := .text s.write
  flags? given := do Status.read? (← (← given).text?)
  record := .record
  fields? keys given := given.bind (·.values? keys)
  tagged name d := .record [(name, d)]
  tagged? names
    | .record [(name, d)] => if name ∈ names then some (name, d) else none
    | _ => none

end Format

end Mos6502
