import Custody.Decimal.Text

/-!
# Shortest decimals of binary numbers

A decimal that passes through a binary number of 53 bits comes out as the shortest decimal that the
same binary number is nearest to. Everything is computed exactly, on ratios of natural numbers.

* **`Binary.nearest`** takes a ratio to the nearest binary number, a tie to the even one.
* **`Binary.shortest`** finds the fewest digits that are taken back to it.
-/

namespace Custody

/-- The number `mantissa * 2 ^ exponent`, with the exponent shifted up by `1074` so that it is not
negative: the mantissa of a number in full precision has 53 bits. -/
structure Binary where
  mantissa : Nat
  raised : Nat
deriving DecidableEq

namespace Binary

/-- How far exponents are shifted. -/
def shift : Nat := 1074

/-- The leading bit of a mantissa in full precision. -/
def leading : Nat := 1 <<< 52

/-- The nearest binary number to `num / den`. The exponent is the least that leaves no more than
53 bits, and not below the least there is. -/
def nearest (num den : Nat) : Binary :=
  let scaled := num <<< shift
  let raised := (scaled / den).log2 - 52
  let mantissa := roundDiv scaled (den <<< raised)
  if mantissa = 2 * leading then ⟨leading, raised + 1⟩ else ⟨mantissa, raised⟩

/-! ### Writing -/

/-- Whether `digits * 10 ^ (up - down)` is nearer to this binary number than to its neighbours; a
number in the middle belongs to the even one. -/
def claims (b : Binary) (digits up down : Nat) : Bool :=
  -- All are brought to quarters of the last bit, times `10 ^ down`.
  let given := (digits * Decimal.scale up) <<< (shift + 2)
  let unit := Decimal.scale down <<< b.raised
  let belowHalf := if b.mantissa = leading && 0 < b.raised then 1 else 2
  let low := (4 * b.mantissa - belowHalf) * unit
  let high := (4 * b.mantissa + 2) * unit
  if b.mantissa % 2 = 0 then low ≤ given && given ≤ high else low < given && given < high

/-- The grid point of the given places that is nearest to the number, and the upper one of two, if
the number claims it. Without places the grid is the multiples of `10 ^ up`. -/
def onGrid? (b : Binary) (up down : Nat) : Option (Nat × Nat × Nat) :=
  let num := (b.mantissa * Decimal.scale down) <<< b.raised
  let den := Decimal.scale up <<< shift
  let low := num / den
  let nearer := if 2 * (num % den) < den then low else low + 1
  let other := if nearer = low then low + 1 else low
  if b.claims nearer up down then some (nearer, up, down)
  else if b.claims other up down then some (other, up, down)
  else none

/-- The coarsest grid on which the number claims a point, from multiples of `10 ^ up` downwards. -/
def shortestFrom (b : Binary) : Nat → Option (Nat × Nat × Nat)
  | 0 => (List.range (shift + 1)).findSome? fun down => b.onGrid? 0 down
  | up + 1 => (b.onGrid? (up + 1) 0).orElse fun _ => b.shortestFrom up

/-- The shortest decimal that the number is nearest to. -/
def shortest (b : Binary) : Decimal :=
  if b.mantissa = 0 then 0
  else match b.shortestFrom 308 with
    | some (digits, up, down) => ⟨digits * Decimal.scale up, down⟩
    | none => 0

/-! ### Reading -/

/-- The nearest binary number to a mantissa times a power of ten. What is below `10 ^ -330` is zero,
and `10 ^ 310` and all above it are out of range. -/
def ofScientific? (mantissa : Nat) (exponent : Int) : Option Binary :=
  let top : Int := (Text.digits mantissa).length + exponent
  if mantissa = 0 ∨ top < -330 then some ⟨0, 0⟩
  else if 310 < top then none
  else if 0 ≤ exponent then some (nearest (mantissa * Decimal.scale exponent.toNat) 1)
  else some (nearest mantissa (Decimal.scale (-exponent).toNat))

/-- The binary number nearest to the unsigned number that a text stands for: digits with a point
among them or without, and perhaps an exponent. -/
def ofUnsigned? (cs : List Char) : Option Binary := do
  if cs.contains '_' then none
  else
    let (number, exponent) := Numeral.splitExponent cs
    let n ← Numeral.ofChars? number
    let exponent ← match exponent with
      | none => some 0
      | some cs => Numeral.exponent? cs
    ofScientific? (Text.value (n.whole ++ n.places)) (exponent - n.places.length)

/-- The decimal of the shortest text of a binary number, if there is room for it. -/
def decimal? (b : Binary) : Option Decimal :=
  Decimal.ofText? b.shortest.text

end Binary

end Custody
