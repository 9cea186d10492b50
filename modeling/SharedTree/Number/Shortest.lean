/-!
# Shortest decimals

A finite binary number `m * 2 ^ q` stands for the interval of reals that round to it. `shortest`
finds a decimal with the fewest digits in that interval, and among those the nearest to the number
itself. All arithmetic is exact.
-/

namespace SharedTree.Number

/-- A positive binary number `m * 2 ^ q`. The gap to the number below is half the gap to the number
above when `narrow` holds. -/
structure Binary where
  m : Nat
  q : Int
  narrow : Bool
deriving DecidableEq, Repr

/-- The decimal `digits * 10 ^ exponent`. -/
structure Decimal where
  digits : Nat
  exponent : Int
deriving DecidableEq, Repr

/-- The order of `d.digits * 10 ^ d.exponent` and `n * 2 ^ j`. -/
def Decimal.compareTo (d : Decimal) (n : Nat) (j : Int) : Ordering :=
  compare (d.digits * Nat.pow 10 d.exponent.toNat * Nat.pow 2 (-j).toNat)
    (n * Nat.pow 2 j.toNat * Nat.pow 10 (-d.exponent).toNat)

namespace Binary

/-- Whether a decimal lies among the reals that round to `x`: to the nearest, and from half way to
an even `m`. -/
def accepts (x : Binary) (d : Decimal) : Bool :=
  let low := d.compareTo (if x.narrow then 4 * x.m - 1 else 4 * x.m - 2) (x.q - 2)
  let high := d.compareTo (4 * x.m + 2) (x.q - 2)
  let even := x.m % 2 == 0
  (low == .gt || (even && low == .eq)) && (high == .lt || (even && high == .eq))

/-- The number of decimal digits of a natural number. -/
def digitCount (n : Nat) : Nat := (Nat.toDigits 10 n).length

/-- The least `k` with `x < 10 ^ k`. -/
def magnitude (x : Binary) : Int :=
  let top := x.m * Nat.pow 2 x.q.toNat
  let bottom := Nat.pow 2 (-x.q).toNat
  if bottom ≤ top then digitCount (top / bottom) else 1 - (digitCount ((bottom - 1) / top) : Int)

/-- The multiple of `10 ^ e` at or just below `x`. -/
def below (x : Binary) (e : Int) : Decimal :=
  ⟨x.m * Nat.pow 2 x.q.toNat * Nat.pow 10 (-e).toNat
    / (Nat.pow 10 e.toNat * Nat.pow 2 (-x.q).toNat), e⟩

/-- A decimal that reads back as `x` among the multiples of `10 ^ e`, the nearer of two, and of two
equally near ones the larger. -/
def onGrid? (x : Binary) (e : Int) : Option Decimal :=
  let lower := x.below e
  let upper : Decimal := ⟨lower.digits + 1, e⟩
  match x.accepts lower, x.accepts upper with
  | true, true =>
    let middle : Decimal := ⟨2 * lower.digits + 1, e⟩
    some (if middle.compareTo x.m (x.q + 1) == .gt then lower else upper)
  | true, false => some lower
  | false, true => some upper
  | false, false => none

/-- The first grid with a hit among those for `n`, `n + 1`, … digits. -/
def search (x : Binary) (k : Int) : (grids : Nat) → (n : Nat) → Decimal
  | 0, n => x.below (k - n)
  | grids + 1, n => match x.onGrid? (k - n) with
    | some d => d
    | none => search x k grids (n + 1)

/-- The decimal with the fewest digits that reads back as `x`. Seventeen digits always suffice for
numbers of at most 53 bits. -/
def shortest (x : Binary) : Decimal := search x x.magnitude 17 1

end Binary

end SharedTree.Number
