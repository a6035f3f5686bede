/-!
# Documents

Structured data in which snapshots are kept: the values of JSON. A number is a decimal fraction; it
is an integer only if it is written without places.
-/

namespace Mos6502

/-- A value of JSON. -/
inductive Document where
  | null
  | bool (b : Bool)
  /-- The mantissa divided by ten to the number of places. -/
  | number (mantissa : Int) (places : Nat)
  | text (s : String)
  | list (items : List Document)
  | record (fields : List (String × Document))
deriving Inhabited

namespace Document

def ofNat (n : Nat) : Document := number n 0

def nat? (bound : Nat) : Document → Option Nat
  | number (.ofNat n) 0 => if n ≤ bound then some n else none
  | _ => none

def bool? : Document → Option Bool
  | bool b => some b
  | _ => none

def text? : Document → Option String
  | text s => some s
  | _ => none

/-- A byte string as a list of numbers. -/
def ofBytes (bytes : Array UInt8) : Document :=
  list (bytes.toList.map fun b => ofNat b.toNat)

def bytes? : Document → Option (Array UInt8)
  | list items => (items.mapM fun item => (nat? 0xFF item).map UInt8.ofNat).map List.toArray
  | _ => none

/-- A byte string that may be absent. -/
def ofOptional : Option (Array UInt8) → Document
  | some bytes => ofBytes bytes
  | none => null

/-- All values that a record has under a key. -/
def under (fields : List (String × Document)) (key : String) : List Document :=
  fields.filterMap fun field => if field.1 = key then some field.2 else none

/-- The value under a key, if the record has one. It must not have several. -/
def field? (fields : List (String × Document)) (key : String) : Option (Option Document) :=
  match under fields key with
  | [] => some none
  | [d] => some (some d)
  | _ :: _ :: _ => none

/-- The values of the keys, in their order. A record may leave keys out and may have others; a list
gives exactly the values. -/
def values? (keys : List String) : Document → Option (List (Option Document))
  | record fields => keys.mapM (field? fields)
  | list items => if items.length = keys.length then some (items.map some) else none
  | _ => none

end Document

end Mos6502
