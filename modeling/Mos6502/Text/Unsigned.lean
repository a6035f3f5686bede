/-!
# Reading unsigned numbers

An unsigned number is one or more digits, after at most one plus sign, and must not exceed a bound.
Leading zeros are allowed.
-/

namespace Mos6502.Text

/-- The value of a digit, in either case of letters. -/
def digitValue (c : Char) : Option Nat :=
  if '0' ≤ c ∧ c ≤ '9' then some (c.toNat - 48)
  else if 'a' ≤ c ∧ c ≤ 'z' then some (c.toNat - 87)
  else if 'A' ≤ c ∧ c ≤ 'Z' then some (c.toNat - 55)
  else none

/-- The value of a digit in a number system. -/
def digit? (base : Nat) (c : Char) : Option Nat := (digitValue c).filter (· < base)

/-- The number with these digits behind the digits of `start`. -/
def digitsFrom? (base start : Nat) : List Char → Option Nat
  | [] => some start
  | c :: rest => (digit? base c).bind fun d => digitsFrom? base (start * base + d) rest

def dropPlus : List Char → List Char
  | '+' :: rest => rest
  | cs => cs

def unsigned? (base bound : Nat) (cs : List Char) : Option Nat :=
  match dropPlus cs with
  | [] => none
  | digits => (digitsFrom? base 0 digits).filter (· ≤ bound)

end Mos6502.Text
