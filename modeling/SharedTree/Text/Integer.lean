/-!
# Integers in plain notation

Decimal digits, with an optional sign before them and nothing else around them.
-/

namespace SharedTree.Text

/-- The number that a row of digits stands for; there is at least one. -/
def digits? (cs : List Char) : Option Nat :=
  if !cs.isEmpty && cs.all Char.isDigit then some (Nat.ofDigitChars 10 cs 0) else none

/-- The natural number that a text stands for. A plus sign may stand before the digits. -/
def natural? : List Char → Option Nat
  | '+' :: cs => digits? cs
  | cs => digits? cs

/-- The integer that a text stands for. A sign may stand before the digits. -/
def integer? : List Char → Option Int
  | '-' :: cs => (digits? cs).map fun n => -(n : Int)
  | cs => (natural? cs).map fun n => (n : Int)

end SharedTree.Text
