/-!
# Counts

Days are counted in whole numbers, and totals over lists are exact. Numbers that are written down
have a width: counts of units and sequence numbers have 32 bits, numbers of days 64. Where numbers
of days are added the sum has 64 bits too, and what does not fit in them is lost.

* **`totalOf_append`**: a total may be taken part by part.
* **`count32?_eq_some_iff`**: exactly the numbers of 32 bits are counts.
* **`wrap64_spec`**, **`wrap64_of_fits`**: a number cut to 64 bits.
-/

namespace Custody

/-- The total of a measure over a list. -/
def totalOf {α : Type} (measure : α → Int) : List α → Int
  | [] => 0
  | a :: rest => measure a + totalOf measure rest

section Total

variable {α : Type} (measure : α → Int)

@[simp] theorem totalOf_nil : totalOf measure [] = 0 := rfl

@[simp] theorem totalOf_cons (a : α) (rest : List α) :
    totalOf measure (a :: rest) = measure a + totalOf measure rest := rfl

@[simp] theorem totalOf_append (xs ys : List α) :
    totalOf measure (xs ++ ys) = totalOf measure xs + totalOf measure ys := by
  induction xs with
  | nil => simp
  | cons a rest ih => simp [ih, Int.add_assoc]

end Total

/-- The count that a number is. -/
def count32? (n : Int) : Option UInt32 :=
  if 0 ≤ n ∧ n < UInt32.size then some (UInt32.ofNat n.toNat) else none

theorem count32?_eq_some_iff {n : Int} {c : UInt32} : count32? n = some c ↔ n = c.toNat := by
  have bound : c.toNat < UInt32.size := c.toNat_lt_size
  unfold count32?
  split
  · next inRange =>
    have value : (UInt32.ofNat n.toNat).toNat = n.toNat := UInt32.toNat_ofNat_of_lt' (by omega)
    constructor
    · intro same
      rw [← Option.some.inj same, value]
      omega
    · intro same
      rw [same, Int.toNat_natCast, UInt32.ofNat_toNat]
  · next outOfRange =>
    constructor
    · intro same
      cases same
    · intro same
      omega

/-- Whether a number has 64 bits. -/
def fits64 (n : Int) : Bool :=
  Int64.minValue.toInt ≤ n && n ≤ Int64.maxValue.toInt

theorem fits64_iff {n : Int} :
    fits64 n = true ↔ -9223372036854775808 ≤ n ∧ n ≤ 9223372036854775807 := by
  simp only [fits64, Bool.and_eq_true, decide_eq_true_eq]
  exact Iff.rfl

theorem fits64_toInt (n : Int64) : fits64 n.toInt = true := by
  simp only [fits64, Bool.and_eq_true, decide_eq_true_eq]
  exact ⟨n.minValue_le_toInt, n.toInt_le⟩

/-- The number of 64 bits that a number is cut to. -/
def wrap64 (n : Int) : Int :=
  (Int64.ofInt n).toInt

theorem fits64_wrap64 (n : Int) : fits64 (wrap64 n) = true :=
  fits64_toInt (Int64.ofInt n)

/-- Cutting takes off a multiple of 2 ^ 64. -/
theorem wrap64_spec (n : Int) :
    ∃ k : Int, wrap64 n = n - 18446744073709551616 * k
      ∧ -9223372036854775808 ≤ wrap64 n ∧ wrap64 n ≤ 9223372036854775807 := by
  refine ⟨n.bdiv Int64.size, ?_, fits64_iff.mp (fits64_wrap64 n)⟩
  rw [wrap64, Int64.toInt_ofInt]
  exact Int.bmod_eq_self_sub_mul_bdiv n Int64.size

theorem wrap64_of_fits {n : Int} (h : fits64 n = true) : wrap64 n = n := by
  obtain ⟨k, hk⟩ := wrap64_spec n
  rw [fits64_iff] at h
  omega

/-- A sum may be cut once, at the end. -/
theorem wrap64_add_wrap64 (m n : Int) : wrap64 (m + wrap64 n) = wrap64 (m + n) := by
  unfold wrap64
  rw [Int64.ofInt_add, Int64.ofInt_toInt, Int64.ofInt_add]

theorem wrap64_of_small {n : Int} (hlow : -1000000000 ≤ n) (hhigh : n ≤ 1000000000) :
    wrap64 n = n :=
  wrap64_of_fits (fits64_iff.mpr ⟨by omega, by omega⟩)

/-- Cutting keeps the order of numbers that are close together, where the smaller does not end up
among the greatest numbers of 64 bits. -/
theorem wrap64_le_wrap64 {m n : Int} (hreach : wrap64 m ≤ 1000000000) (hle : m ≤ n)
    (hnear : n ≤ m + 1000000000) : wrap64 m ≤ wrap64 n := by
  obtain ⟨k, hk⟩ := wrap64_spec m
  obtain ⟨k', hk'⟩ := wrap64_spec n
  omega

end Custody
