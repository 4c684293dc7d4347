import Custody.Rounding

/-!
# Decimals

A `Decimal` is a whole number of steps of its last place together with the number of places it is
written to, so `0.5` and `0.50` have the same value and different texts. There is room for 28 places
and 96 bits. A sum or product that fits is exact; places that do not fit are rounded away.

* **`Decimal.add`**, **`Decimal.mul`**: arithmetic on the written value.
* **`Decimal.fit_of_fits`**: what fits is not rounded.
* **`Decimal.ceil`**: the least whole number that is not below the value.
-/

namespace Custody

/-- The number `mantissa / scale places`, written with that many places. -/
structure Decimal where
  mantissa : Int
  places : Nat
deriving DecidableEq

namespace Decimal

/-- How many steps of the last of `places` places make a whole. -/
def scale (places : Nat) : Nat := Nat.pow 10 places

@[simp] theorem scale_zero : scale 0 = 1 := rfl

theorem scale_succ (places : Nat) : scale (places + 1) = scale places * 10 := rfl

theorem scale_pos (places : Nat) : 0 < scale places := Nat.pow_pos (by decide)

/-- A whole number, written without places. -/
def ofInt (n : Int) : Decimal := ⟨n, 0⟩

instance {n : Nat} : OfNat Decimal n := ⟨ofInt n⟩

/-- The number with the opposite sign. -/
def neg (d : Decimal) : Decimal := ⟨-d.mantissa, d.places⟩

/-! ### What fits -/

/-- The most places there is room for. -/
def maxPlaces : Nat := 28

/-- The largest mantissa there is room for: it has 96 bits. -/
def maxMantissa : Nat := 0xFFFF_FFFF_FFFF_FFFF_FFFF_FFFF

/-- Whether there is room for a number. -/
def fits (d : Decimal) : Bool :=
  d.mantissa.natAbs ≤ maxMantissa && d.places ≤ maxPlaces

/-- The number rounded to `dropped` places fewer, from the middle to the even neighbour. -/
def dropPlaces (d : Decimal) (dropped : Nat) : Decimal :=
  let kept := roundDiv d.mantissa.natAbs (scale dropped)
  ⟨if d.mantissa < 0 then -(kept : Int) else kept, d.places - dropped⟩

/-- The number rounded to the most places that there is room for. A whole part that is too large is
left as it is. -/
def fit (d : Decimal) : Decimal :=
  match (List.range (d.places + 1)).find? fun dropped => (d.dropPlaces dropped).fits with
  | some dropped => d.dropPlaces dropped
  | none => d

@[simp] theorem dropPlaces_zero (d : Decimal) : d.dropPlaces 0 = d := by
  obtain ⟨mantissa, places⟩ := d
  simp only [dropPlaces, scale_zero, roundDiv_one, Nat.sub_zero, mk.injEq, and_true]
  split <;> omega

theorem fit_of_fits {d : Decimal} (h : d.fits = true) : d.fit = d := by
  have first : (List.range (d.places + 1)).find? (fun dropped => (d.dropPlaces dropped).fits)
      = some 0 := by
    simp [List.range_succ_eq_map, h]
  simp [fit, first]

/-! ### Arithmetic -/

/-- The mantissa of the same value written with `more` further places. -/
def widen (d : Decimal) (more : Nat) : Int :=
  d.mantissa * scale more

/-- The sum with the places of the longer operand. Zero leaves the other operand as it is written.
-/
def add (a b : Decimal) : Decimal :=
  if a.mantissa = 0 then b
  else if b.mantissa = 0 then a
  else
    let places := max a.places b.places
    fit ⟨a.widen (places - a.places) + b.widen (places - b.places), places⟩

/-- The product with the places of both operands. Zero is written without places. -/
def mul (a b : Decimal) : Decimal :=
  if a.mantissa = 0 ∨ b.mantissa = 0 then 0
  else fit ⟨a.mantissa * b.mantissa, a.places + b.places⟩

instance : Add Decimal := ⟨add⟩
instance : Mul Decimal := ⟨mul⟩

/-- Order by value, whatever the places. -/
def le (a b : Decimal) : Bool :=
  a.widen b.places ≤ b.widen a.places

instance : LE Decimal := ⟨fun a b => a.le b = true⟩
instance (a b : Decimal) : Decidable (a ≤ b) := inferInstanceAs (Decidable (_ = true))

/-- The least whole number that is not below the value. -/
def ceil (d : Decimal) : Int :=
  -(-d.mantissa / scale d.places)

end Decimal

end Custody
