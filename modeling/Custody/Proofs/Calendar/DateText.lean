import Custody.Calendar.DateText

/-!
# Dates read back from their text

A year of up to four digits is written without a sign and read without one; any other year has a
sign, after which any number of digits is read. The hyphens end each of the numbers.

* **`Date.ofText?_text`**: every date of the supported range is read back from its text.
-/

namespace Custody

namespace Text

theorem not_isBlank_of_isDigit {c : Char} (h : c.isDigit = true) : isBlank c = false := by
  simp only [Char.isDigit, Bool.and_eq_true, decide_eq_true_eq] at h
  have hlow : 48 ≤ c.toNat := UInt32.le_iff_toNat_le.mp h.1
  have hhigh : c.toNat ≤ 57 := UInt32.le_iff_toNat_le.mp h.2
  simp [isBlank]
  omega

/-- A text that begins with a digit has no leading blanks. -/
theorem skipBlanks_padded (width n : Nat) (cs : List Char) :
    skipBlanks (padded width n ++ cs) = padded width n ++ cs := by
  cases hdigits : padded width n with
  | nil => exact absurd hdigits (padded_ne_nil width n)
  | cons c digits =>
    have hdigit : c.isDigit = true := isDigit_of_mem_padded (hdigits ▸ List.mem_cons_self)
    simp [skipBlanks, not_isBlank_of_isDigit hdigit]

end Text

namespace Calendar.Date

open Custody.Text

/-! ### The parts of a date -/

/-- Where a text begins with a digit, its year has no sign. -/
theorem takeYear?_append {run : List Char} (hne : run ≠ []) (hrun : ∀ c ∈ run, c.isDigit = true)
    (cs : List Char) :
    takeYear? (run ++ cs) = (takeNumber? (some 4) (run ++ cs)).map fun (n, rest) => (↑n, rest) := by
  cases run with
  | nil => exact absurd rfl hne
  | cons c run =>
    have hdigit : c.isDigit = true := hrun c List.mem_cons_self
    rw [List.cons_append]
    unfold takeYear?
    -- a digit is neither of the signs that a year may begin with
    split
    · next heq =>
      rw [(List.cons.inj heq).1] at hdigit
      cases hdigit
    · next heq =>
      rw [(List.cons.inj heq).1] at hdigit
      cases hdigit
    · rfl

/-- A year is read up to the hyphen after it. -/
theorem takeYear?_yearText (year : Int) (cs : List Char) :
    takeYear? (skipBlanks (yearText year ++ '-' :: cs)) = some (year, '-' :: cs) := by
  have hhyphen : ∀ c ∈ ('-' :: cs).head?, c.isDigit = false := by
    intro c hc
    cases hc
    rfl
  have hsigned : takeNumber? none (padded 4 year.natAbs ++ '-' :: cs)
      = some (year.natAbs, '-' :: cs) := takeNumber?_padded (by simp) hhyphen
  unfold yearText
  -- four digits, or a sign and at least as many
  split
  · next hrange =>
    have hunsigned : takeNumber? (some 4) (padded 4 year.toNat ++ '-' :: cs)
        = some (year.toNat, '-' :: cs) := by
      refine takeNumber?_padded ?_ hhyphen
      intro k hk
      cases hk
      exact length_padded_le ((Nat.length_toDigits_le_iff (by decide) (by decide)).mpr (by omega))
    have hyear : (year.toNat : Int) = year := by omega
    have hdigits : ∀ c ∈ padded 4 year.toNat, c.isDigit = true := fun c hc =>
      isDigit_of_mem_padded hc
    rw [skipBlanks_padded, takeYear?_append (padded_ne_nil 4 _) hdigits]
    simp only [hunsigned, Option.map_some, hyear]
  · next hrange =>
    split
    · next hneg =>
      have hyear : -(year.natAbs : Int) = year := by omega
      show takeYear? ('-' :: (padded 4 year.natAbs ++ '-' :: cs)) = _
      simp only [takeYear?, hsigned, Option.map_some, hyear]
    · next hpos =>
      have hyear : (year.natAbs : Int) = year := by omega
      show takeYear? ('+' :: (padded 4 year.natAbs ++ '-' :: cs)) = _
      simp only [takeYear?, hsigned, Option.map_some, hyear]

theorem takeHyphen?_cons (cs : List Char) : takeHyphen? ('-' :: cs) = some cs := rfl

/-- A month or a day of the month is read up to where no digit follows. -/
theorem takePart?_padded {n : Nat} {cs : List Char} (h : n < 100)
    (hcs : ∀ c ∈ cs.head?, c.isDigit = false) : takePart? (padded 2 n ++ cs) = some (n, cs) := by
  rw [takePart?, skipBlanks_padded]
  refine takeNumber?_padded ?_ hcs
  intro k hk
  cases hk
  exact length_padded_le ((Nat.length_toDigits_le_iff (by decide) (by decide)).mpr h)

/-! ### Dates -/

/-- **Every date is read back from its text.** -/
theorem ofText?_text (d : Date) : ofText? d.text = some d := by
  have hoffset := d.offset_bounds
  have hlength := (monthLength_bounds d.month).2
  have hmonth : 1 ≤ d.monthOfYear ∧ d.monthOfYear ≤ 12 := by
    unfold monthOfYear
    omega
  have hday : 1 ≤ d.dayOfMonth ∧ d.dayOfMonth ≤ 31 := by
    unfold dayOfMonth
    omega
  -- no part has more digits than are taken for it
  have hmonthText : takePart? (padded 2 d.monthOfYear.toNat ++ '-' :: padded 2 d.dayOfMonth.toNat)
      = some (d.monthOfYear.toNat, '-' :: padded 2 d.dayOfMonth.toNat) :=
    takePart?_padded (by omega) (by simp)
  have hdayText : takePart? (padded 2 d.dayOfMonth.toNat ++ []) = some (d.dayOfMonth.toNat, []) :=
    takePart?_padded (by omega) (by simp)
  rw [List.append_nil] at hdayText
  have htext : d.text.toList = yearText d.year
      ++ '-' :: (padded 2 d.monthOfYear.toNat ++ '-' :: padded 2 d.dayOfMonth.toNat) := by
    simp [text]
  have hmonthValue : (d.monthOfYear.toNat : Int) = d.monthOfYear := by omega
  have hdayValue : (d.dayOfMonth.toNat : Int) = d.dayOfMonth := by omega
  have hend : (skipBlanks []).isEmpty = true := rfl
  simp only [ofText?, htext, takeYear?_yearText, takeHyphen?_cons, hmonthText, hdayText,
    hmonthValue, hdayValue, d.ofCivil?_civil, hend, Option.bind_eq_bind, Option.bind_some, if_true]

end Calendar.Date

end Custody
