/-!
# Numbers and columns of fixed width

Listings put numbers into columns: hexadecimal digits in upper case with leading zeros, decimals
padded on one side. A column never cuts its content: a number too long for its width is written in
full.
-/

namespace Mos6502.Text

/-- The upper-case hexadecimal digit of a value below sixteen. -/
def hexDigit (n : Nat) : Char :=
  if n < 10 then Char.ofNat (48 + n) else Char.ofNat (55 + n)

/-- The last `width` hexadecimal digits of `n`, most significant first. -/
def hexDigits : Nat → Nat → List Char
  | 0, _ => []
  | width + 1, n => hexDigits width (n / 16) ++ [hexDigit (n % 16)]

/-- How many hexadecimal digits `n` has; zero has one. -/
def hexLength (n : Nat) : Nat := n.log2 / 4 + 1

/-- `n` in hexadecimal, with leading zeros up to `width` digits. -/
def hex (width n : Nat) : String := String.ofList (hexDigits (max width (hexLength n)) n)

def hexByte (b : UInt8) : String := String.ofList (hexDigits 2 b.toNat)

def hexWord (w : UInt16) : String := String.ofList (hexDigits 4 w.toNat)

/-- An address as listings write it: a dollar sign and four digits. -/
def address (w : UInt16) : String := "$" ++ hexWord w

/-- The low five bits of a byte, most significant first. -/
def fiveBits (b : UInt8) : String :=
  String.ofList ((List.range 5).reverse.map fun i => if b.toNat.testBit i then '1' else '0')

def padRight (width : Nat) (s : String) : String :=
  s ++ String.ofList (List.replicate (width - s.length) ' ')

def decimal (width n : Nat) : String :=
  let digits := toString n
  String.ofList (List.replicate (width - digits.length) '0') ++ digits

def trimRight (s : String) : String :=
  String.ofList (s.toList.reverse.dropWhile (· == ' ')).reverse

def join (separator : String) (parts : List String) : String :=
  separator.intercalate parts

theorem exists_join_eq (separator w : String) (rest : List String) :
    ∃ more, (join separator (w :: rest)).toList = w.toList ++ more := by
  cases rest <;> simp [join]

end Mos6502.Text
