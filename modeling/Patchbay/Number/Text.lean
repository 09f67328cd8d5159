import Patchbay.Number.Double

/-!
# Decimal text of binary64 numbers

A double is written with the fewest decimal digits that read back as the same number
(`Double.shortest`). Which of two equally near decimals is taken, where the decimal point goes, and
when an exponent is written instead, is a matter of a `Layout`; the library has three of them.
-/

namespace Patchbay

namespace Double

/-! ### Fewest digits -/

/-- The interval of reals that round to a double, in quarters of its last binary place:
lower end, the number itself, upper end. Below a power of two the grid is twice as fine. -/
def roundingInterval (d : Double) : Nat × Nat × Nat :=
  let m := d.significand
  let lower := if d.magnitude % leadingBit = 0 ∧ 2 * leadingBit ≤ d.magnitude then 1 else 2
  (4 * m - lower, 4 * m, 4 * m + 2)

/-- Where a number goes that is as near to the decimal below it as to the one above. -/
inductive Tie where
  /-- To the one whose last digit is even. -/
  | toEven
  /-- To the one above. -/
  | up
deriving DecidableEq, Repr

/-- Whether a number that lies in the middle between `n` and `n + 1` goes to `n`. -/
def Tie.goesDown : Tie → Nat → Bool
  | .toEven, n => n % 2 == 0
  | .up, _ => false

/-- The multiple of `10 ^ e` that lies in the interval of the double and is nearest to it. The
ends of the interval belong to it when the significand is even. -/
def nearestOnGrid (tie : Tie) (d : Double) (e : Int) : Option Nat :=
  let (lo, v, hi) := d.roundingInterval
  let q := d.exponent - 2
  let unit := powTwo q * powTen (-e)
  let step := powTen e * powTwo (-q)
  let c := v * unit / step
  let closed := d.significand % 2 = 0
  let fits (n : Nat) : Bool :=
    if closed then lo * unit ≤ n * step ∧ n * step ≤ hi * unit
    else lo * unit < n * step ∧ n * step < hi * unit
  let below := v * unit - c * step
  let above := (c + 1) * step - v * unit
  match fits c, fits (c + 1) with
  | true, true =>
    if below < above ∨ (below = above ∧ tie.goesDown c) then some c else some (c + 1)
  | true, false => some c
  | false, true => some (c + 1)
  | false, false => none

/-- Searches ever finer decimal grids, from `10 ^ e` on. -/
def shortestFrom (tie : Tie) (d : Double) : Nat → Int → Nat × Int
  | 0, _ => (0, 0)
  | fuel + 1, e =>
    match d.nearestOnGrid tie e with
    | some n => (n, e)
    | none => shortestFrom tie d fuel (e - 1)

/-- The digits `n` and the exponent `e` of the shortest decimal `n * 10 ^ e` that reads back as
the absolute value: the first grid with a hit has the fewest digits. The search starts on a
grid coarser than the number, and 17 digits always suffice. -/
def shortest (tie : Tie) (d : Double) : Nat × Int :=
  if d.magnitude = 0 then (0, 0)
  else
    let top : Int := ((d.significand.log2 : Int) + d.exponent) * 30103 / 100000 + 2
    d.shortestFrom tie 24 top

/-! ### Layouts -/

/-- How a number is written as a decimal: which of two equally near decimals is taken, for which
positions of the decimal point no exponent is written, what follows the digits of a whole number,
and the sign of an exponent. -/
structure Layout where
  tie : Tie
  /-- The lowest position of the point, counted from the first digit, that needs no exponent. -/
  lowest : Option Int
  /-- The highest position of the point that needs no exponent. -/
  highest : Option Int
  /-- Written after a whole number in positional form. -/
  wholeSuffix : String
  /-- Written before an exponent that is not negative. -/
  positiveSign : String

/-- Whether a decimal point at this position is written without an exponent. -/
def Layout.positional (l : Layout) (point : Int) : Bool :=
  l.lowest.all (· ≤ point) && l.highest.all (point ≤ ·)

/-- JSON numbers: `2.0`, `0.00001`, `1e+16`, `1e-6`. -/
def Layout.json : Layout := ⟨.toEven, some (-4), some 16, ".0", "+"⟩

/-- Numbers inside a structured rendering: as in JSON, but `0.0001` is the smallest
power of ten without an exponent, an exponent has no sign but a minus, as in `1e16`, and of two
equally near decimals the one above is taken. -/
def Layout.rendering : Layout := ⟨.up, some (-3), some 16, ".0", ""⟩

/-- Bounds shown to a person: never an exponent, no fraction for a whole number, and of two equally
near decimals the one above. -/
def Layout.plain : Layout := ⟨.up, none, none, "", ""⟩

/-- A run of zeros. -/
def zeros (n : Nat) : String := String.ofList (List.replicate n '0')

/-- The decimal `digits * 10 ^ e` in a layout. -/
def Layout.write (l : Layout) (digits : Nat) (e : Int) : String :=
  let ds := digits.repr
  let point : Int := ds.length + e
  if l.positional point then
    if 0 ≤ e then ds ++ zeros e.toNat ++ l.wholeSuffix
    else if 0 < point then
      let chars := ds.toList
      String.ofList (chars.take point.toNat) ++ "." ++ String.ofList (chars.drop point.toNat)
    else "0." ++ zeros (-point).toNat ++ ds
  else
    let chars := ds.toList
    let fraction := String.ofList (chars.drop 1)
    String.ofList (chars.take 1) ++ (if fraction.isEmpty then "" else "." ++ fraction)
      ++ "e" ++ (if 0 < point then l.positiveSign else "") ++ toString (point - 1)

/-- The text of a double in a layout. -/
def render (l : Layout) (d : Double) : String :=
  let (digits, e) := d.shortest l.tie
  (if d.negative then "-" else "") ++ l.write digits e

end Double

end Patchbay
