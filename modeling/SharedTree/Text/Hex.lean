/-!
# Hexadecimal numerals

Digits are written in lower case and read in either case.
-/

namespace SharedTree.Text

/-- The hexadecimal digits of a number, without leading zeros. -/
def hexDigits (n : Nat) : List Char := Nat.toDigits 16 n

/-- The value of a hexadecimal digit. -/
def hexValue? (c : Char) : Option Nat :=
  if '0' ≤ c && c ≤ '9' then some (c.toNat - 48)
  else if 'a' ≤ c && c ≤ 'f' then some (c.toNat - 87)
  else if 'A' ≤ c && c ≤ 'F' then some (c.toNat - 55)
  else none

/-- The value of hexadecimal digits that follow those of `start`. -/
def hexFold (start : Nat) : List Char → Option Nat
  | [] => some start
  | c :: cs => match hexValue? c with
    | some d => hexFold (16 * start + d) cs
    | none => none

/-- The number that a numeral of at least one digit stands for. -/
def ofHex? (cs : List Char) : Option Nat := if cs.isEmpty then none else hexFold 0 cs

end SharedTree.Text
