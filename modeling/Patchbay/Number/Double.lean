/-!
# Finite binary64 numbers

A `Double` is a finite binary64 number in sign and magnitude form. The magnitude is the
number's bit pattern without the sign bit, so that the order of the numbers is the order
of their *ranks* (`Double.rank`), and comparing two doubles is comparing two integers.

Rounding is exact: a quotient of natural numbers goes to the nearest double, a half to
the even neighbour (`Double.round`), and the conversions from integers and from decimal
notation are built from that one function.
-/

namespace Patchbay

/-- A finite binary64 number: a sign, and the remaining 63 bits read as a number. Infinities and
numbers that are not a number are left out: JSON has no text for them, so that they do not come in
with a snapshot or an edit, and a bound that is open is absent. -/
structure Double where
  /-- Whether the sign bit is set; zero carries a sign too. -/
  negative : Bool
  /-- The bit pattern without the sign bit. -/
  magnitude : Nat
  /-- The bit pattern stands before that of infinity. -/
  finite : magnitude < 0x7FF0000000000000

namespace Double

/-! ### Order -/

/-- The position of a double on the number line of doubles; both zeros stand at `0`. -/
def rank (d : Double) : Int :=
  if d.negative then -(d.magnitude : Int) else d.magnitude

/-- Numeric equality: the two zeros are the same number. -/
def same (a b : Double) : Bool := a.rank == b.rank

/-- Numeric strict order. -/
def lt (a b : Double) : Bool := decide (a.rank < b.rank)

/-- Numeric order. -/
def le (a b : Double) : Bool := decide (a.rank ≤ b.rank)

/-- The larger of two numbers. Of two equal ones, which may differ in the sign of a zero, it is the
second one; nothing that is proved about constraints depends on this choice but where they are
without negative zeros, and then equal numbers are the same. -/
def max (a b : Double) : Double := if b.lt a then a else b

/-- The smaller of two numbers, and of two equal ones the second one, as for `Double.max`. -/
def min (a b : Double) : Double := if a.lt b then a else b

theorem same_iff {a b : Double} : a.same b = true ↔ a.rank = b.rank := by
  simp [same]

theorem lt_iff {a b : Double} : a.lt b = true ↔ a.rank < b.rank := by
  simp [lt]

theorem le_iff {a b : Double} : a.le b = true ↔ a.rank ≤ b.rank := by
  simp [le]

theorem rank_max (a b : Double) : (a.max b).rank = Max.max a.rank b.rank := by
  unfold max
  split <;> rename_i h <;> rw [lt_iff] at h <;> omega

theorem rank_min (a b : Double) : (a.min b).rank = Min.min a.rank b.rank := by
  unfold min
  split <;> rename_i h <;> rw [lt_iff] at h <;> omega

/-! ### Value -/

/-- Positive zero. -/
def zero : Double := ⟨false, 0, by decide⟩

/-- The number with the opposite sign. -/
def neg (d : Double) : Double := { d with negative := !d.negative }

/-- The largest finite double. -/
def largest : Double := ⟨false, 0x7FEFFFFFFFFFFFFF, by decide⟩

/-- The bit that normal numbers have in front of the 52 bits of their bit pattern. -/
def leadingBit : Nat := 0x10000000000000

/-- The integer significand of the absolute value. -/
def significand (d : Double) : Nat :=
  if d.magnitude < leadingBit then d.magnitude else leadingBit + d.magnitude % leadingBit

/-- The power of two that the significand is multiplied with. -/
def exponent (d : Double) : Int :=
  if d.magnitude < leadingBit then -1074 else (d.magnitude / leadingBit : Nat) - 1075

/-- A power of two as a whole number; below one, it is one. -/
def powTwo (e : Int) : Nat := Nat.pow 2 e.toNat

/-- A power of ten as a whole number; below one, it is one. -/
def powTen (e : Int) : Nat := Nat.pow 10 e.toNat

/-- The numerator and denominator that stand for `n * 2 ^ e`. -/
def scaled (n : Nat) (e : Int) : Nat × Nat := (n * powTwo e, powTwo (-e))

/-! ### Rounding -/

/-- `num / den` to the nearest whole number, a half to the even neighbour. -/
def roundDiv (num den : Nat) : Nat :=
  let q := num / den
  let r := num % den
  if 2 * r < den then q
  else if 2 * r > den then q + 1
  else q + q % 2

/-- The exponent of the binary grid on which `num / den` has 53 significant bits, or the
exponent of the finest grid there is. -/
def gridExponent (num den : Nat) : Int :=
  let e : Int := (num.log2 : Int) - den.log2 - 52
  let below := num * powTwo (-e) < den * leadingBit * powTwo e
  Max.max (if below then e - 1 else e) (-1074)

/-- The magnitude of the double nearest to `num / den`, which may lie past the finite ones.

On the grid `2 ^ e` the nearest multiple is `q`. A normal number has `2 ^ 52 ≤ q`, and its
bit pattern is `(e + 1074) * 2 ^ 52 + q`; for the finest grid this is `q` alone, the pattern
of a subnormal number, and rounding up to the next power of two carries into the exponent
field by itself. -/
def roundMagnitude (num den : Nat) : Nat :=
  if num = 0 then 0
  else
    let e := gridExponent num den
    let q := roundDiv (num * powTwo (-e)) (den * powTwo e)
    (e + 1074).toNat * leadingBit + q

/-- The double nearest to `num / den` under a sign; `none` past the largest double. -/
def round (negative : Bool) (num den : Nat) : Option Double :=
  let m := roundMagnitude num den
  if h : m < 0x7FF0000000000000 then some ⟨negative, m, h⟩ else none

/-- The double nearest to an integer; integers past the largest double stop there. -/
def ofInt (n : Int) : Double :=
  (round (n < 0) n.natAbs 1).getD { largest with negative := n < 0 }

/-- The product, rounded. -/
def mul (a b : Double) : Option Double :=
  let (num, den) := scaled (a.significand * b.significand) (a.exponent + b.exponent)
  round (a.negative != b.negative) num den

/-- The quotient by a number other than zero, rounded. -/
def div (a b : Double) : Option Double :=
  let (num, den) := scaled a.significand (a.exponent - b.exponent)
  round (a.negative != b.negative) num (den * b.significand)

/-! ### Decimal notation -/

/-- The double nearest to a power of ten. -/
def powerOfTen (n : Nat) : Option Double := round false (powTen n) 1

/-- Scales by powers of ten: a table of powers reaches up to `10 ^ 308`, and a smaller
number is divided by that largest one until the rest is in reach. -/
def scaleByPowerOfTen : Nat → Double → Int → Option Double
  | 0, d, _ => some { d with magnitude := 0, finite := by decide }
  | fuel + 1, d, e =>
    if e.natAbs ≤ 308 then
      match powerOfTen e.natAbs with
      | none => none
      | some p => if 0 ≤ e then d.mul p else d.div p
    else if d.magnitude = 0 then some d
    else if 0 ≤ e then none
    else
      match (powerOfTen 308).bind d.div with
      | none => none
      | some d => scaleByPowerOfTen fuel d (e + 308)

/-- Reads `significand * 10 ^ e` in two roundings: the significand becomes a double, and that
is scaled by a power of ten. `none` when the number is too large. Three divisions by the
largest power of ten bring every significand of 64 bits to zero. -/
def ofDecimal (negative : Bool) (significand : Nat) (e : Int) : Option Double :=
  (scaleByPowerOfTen 5 (ofInt significand) e).map fun d => { d with negative := negative }

end Double

end Patchbay
