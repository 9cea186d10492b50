/-!
# JSON numerals

A numeral is kept as it is written. It stands for a natural number when it has digits only, and it
is too large when the floating-point number that it would otherwise stand for has no finite value.
-/

namespace SharedTree.Json

/-- A numeral: its digits, those after the point and those of the exponent. -/
structure Numeral where
  negative : Bool := false
  whole : List Char := []
  fraction : Option (List Char) := none
  exponent : Option (Bool × List Char) := none
deriving DecidableEq, Repr, Inhabited

namespace Numeral

/-- The natural number that a numeral stands for. -/
def natural? (n : Numeral) : Option Nat :=
  match n.negative, n.fraction, n.exponent with
  | false, none, none => some (Nat.ofDigitChars 10 n.whole 0)
  | _, _, _ => none

/-! ### Size

The leading digits are gathered in a word of 64 bits. Digits that do not fit any more are dropped,
and each of them that stands before the point counts as a factor of ten.
-/

/-- Digits gathered so far, and the power of ten by which they are to be scaled. -/
structure Scaled where
  significand : Nat
  power : Int
  full : Bool := false

/-- The greatest number that the digits are gathered in. -/
private def limit : Nat := UInt64.size - 1

/-- The value of a decimal digit. -/
private def digit (c : Char) : Nat := c.toNat - 48

/-- Takes in a digit before the point. -/
private def gatherWhole (s : Scaled) (c : Char) : Scaled :=
  let next := 10 * s.significand + digit c
  if s.full || limit < next then { s with power := s.power + 1, full := true }
  else { s with significand := next }

/-- Takes in a digit after the point. -/
private def gatherFraction (s : Scaled) (c : Char) : Scaled :=
  let next := 10 * s.significand + digit c
  if s.full || limit < next then { s with full := true }
  else { s with significand := next, power := s.power - 1 }

/-- The leading digits of a numeral and the power of ten that goes with them, without the
exponent. -/
def scaled (n : Numeral) : Scaled :=
  let s := n.whole.foldl gatherWhole ⟨0, 0, false⟩
  (n.fraction.getD []).foldl gatherFraction { s with full := false }

/-- A number rounded to 53 significant bits, to the nearest and to even from half way. -/
def round53 (n : Nat) : Nat :=
  let drop := Nat.log2 n - 52
  let unit := Nat.pow 2 drop
  let q := n / unit
  let r := n % unit
  let up := unit < 2 * r || (2 * r == unit && q % 2 == 1)
  (if up then q + 1 else q) * unit

/-- Whether rounding a number to 53 bits leaves the range of 64-bit floating-point numbers. -/
def beyondDouble (n : Nat) : Bool := Nat.pow 2 1024 - Nat.pow 2 970 ≤ n

/-- Whether the significand times the power of ten is beyond the range, each factor rounded on its
own. -/
def Scaled.overflows (s : Scaled) (power : Int) : Bool :=
  s.significand != 0 && 0 ≤ power
    && (308 < power || beyondDouble (round53 s.significand * round53 (Nat.pow 10 power.toNat)))

/-- Whether a numeral is too large for a floating-point number. An exponent of more than 31 bits is
too large unless it is negative or all digits before it are zeros. -/
def overflows (n : Numeral) : Bool :=
  let s := n.scaled
  match n.exponent with
  | none => s.overflows s.power
  | some (negative, digits) =>
    let e := Nat.ofDigitChars 10 digits 0
    if 0x80000000 ≤ e then !negative && s.significand != 0
    else s.overflows (if negative then s.power - e else s.power + e)

end Numeral

end SharedTree.Json
