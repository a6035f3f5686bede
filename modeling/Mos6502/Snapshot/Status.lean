import Mos6502.Status
import Mos6502.Text.Blank
import Mos6502.Text.Unsigned

/-!
# Written status flags

A set of flags is written as their names in bit order with bars between them. Reading also takes
other orders, blanks around a name, repeated names, and bits in hexadecimal after `0x`; a text of
blanks is the empty set.
-/

namespace Mos6502.Status

def write (s : Status) : String := Text.join " | " s.names

/-- The flags that one part of a written set names. -/
def readPart? : List Char → Option Status
  | '0' :: 'x' :: digits => (Text.unsigned? 16 0xFF digits).map fun n => ofByte (UInt8.ofNat n)
  | cs => (Flag.all.find? fun flag => flag.name.toList = cs).map only

def read? (text : String) : Option Status :=
  if (Text.trimBlanks text.toList).isEmpty then some {}
  else
    ((Text.splitOn '|' text.toList).mapM fun part => readPart? (Text.trimBlanks part)).map
      (·.foldl union {})

end Mos6502.Status
