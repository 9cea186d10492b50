import SharedTree.Number.Shortest

/-!
# Numbers in plain notation

Binary floating-point numbers are written with the fewest digits that identify them, never with an
exponent, and without a point when they are whole. Zero keeps its sign.
-/

namespace SharedTree.Number

/-- An interchange format: the widths of its exponent and of its fraction. -/
structure Format where
  exponentBits : Nat
  fractionBits : Nat
deriving DecidableEq, Repr

/-- Numbers of 64 bits. -/
def Format.double : Format := ⟨11, 52⟩

/-- Numbers of 32 bits. -/
def Format.single : Format := ⟨8, 23⟩

/-- What the bits of a format stand for. -/
inductive Value where
  | notANumber
  | infinite (negative : Bool)
  | zero (negative : Bool)
  | finite (negative : Bool) (magnitude : Binary)
deriving DecidableEq, Repr

/-- The value of a pattern of bits. -/
def Format.value (f : Format) (bits : Nat) : Value :=
  let fraction := bits % Nat.pow 2 f.fractionBits
  let exponent := bits / Nat.pow 2 f.fractionBits % Nat.pow 2 f.exponentBits
  let negative := bits / Nat.pow 2 (f.fractionBits + f.exponentBits) % 2 == 1
  let bias := Nat.pow 2 (f.exponentBits - 1) - 1 + f.fractionBits
  if exponent = Nat.pow 2 f.exponentBits - 1 then
    if fraction = 0 then .infinite negative else .notANumber
  else if exponent = 0 then
    if fraction = 0 then .zero negative
    else .finite negative ⟨fraction, 1 - (bias : Int), false⟩
  else
    .finite negative
      ⟨Nat.pow 2 f.fractionBits + fraction, (exponent : Int) - bias, fraction = 0 && 1 < exponent⟩

/-- The digits of a decimal in plain notation. Digits that the notation does not need are not
written. -/
def Decimal.plain (d : Decimal) : List Char :=
  let digits := Nat.toDigits 10 d.digits
  let places := (-d.exponent).toNat
  let whole := digits.take (digits.length - places)
  let fraction := List.replicate (places - digits.length) '0' ++
    digits.drop (digits.length - places)
  let fraction := (fraction.reverse.dropWhile (· == '0')).reverse
  (if whole.isEmpty then ['0'] else whole ++ List.replicate d.exponent.toNat '0')
    ++ (if fraction.isEmpty then [] else '.' :: fraction)

/-- A text with the sign of what it stands for. -/
private def signed (negative : Bool) (text : List Char) : List Char :=
  if negative then '-' :: text else text

/-- A value in plain notation. -/
def Value.plain : Value → List Char
  | .notANumber => ['N', 'a', 'N']
  | .infinite negative => signed negative ['i', 'n', 'f']
  | .zero negative => signed negative ['0']
  | .finite negative magnitude => signed negative magnitude.shortest.plain

/-- The text of a number given by its bits. -/
def Format.text (f : Format) (bits : Nat) : String := String.ofList (f.value bits).plain

end SharedTree.Number
