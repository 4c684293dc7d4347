/-!
# Decimal digits

Natural numbers in decimal digits, and runs of digits at the head of a text.

* **`value_digits`**: digits read back as the number they were written for.
* **`value_padded`**: leading zeros do not change what is read.
* **`takeNumber?_padded`**: a number is read up to where no digit follows.
-/

namespace Custody.Text

/-- The decimal digits of a number, without leading zeros; `0` is one digit. -/
def digits (n : Nat) : List Char :=
  Nat.toDigits 10 n

/-- The number that a run of decimal digits stands for. -/
def value (cs : List Char) : Nat :=
  Nat.ofDigitChars 10 cs 0

/-- The digits of a number, with zeros in front up to `width`. -/
def padded (width n : Nat) : List Char :=
  (digits n).leftpad width '0'

/-- The run of digits at the head of a text and the text after it. The run has at least one digit
and, where `most` is given, no more than `most`. -/
def takeNumber? (most : Option Nat) (cs : List Char) : Option (Nat × List Char) :=
  let run := cs.takeWhile Char.isDigit
  let run := match most with
    | some n => run.take n
    | none => run
  if run.isEmpty then none else some (value run, cs.drop run.length)

/-! ### What is written is read -/

theorem isDigit_of_mem_digits {n : Nat} {c : Char} (h : c ∈ digits n) : c.isDigit = true :=
  Nat.isDigit_of_mem_toDigits (by decide) (by decide) h

theorem digits_ne_nil (n : Nat) : digits n ≠ [] :=
  Nat.toDigits_ne_nil

theorem value_digits (n : Nat) : value (digits n) = n :=
  Nat.ofDigitChars_ten_toDigits

theorem isDigit_of_mem_padded {width n : Nat} {c : Char} (h : c ∈ padded width n) :
    c.isDigit = true := by
  rw [padded, List.leftpad, List.mem_append, List.mem_replicate] at h
  cases h with
  | inl hzero => rw [hzero.2]; rfl
  | inr hdigit => exact isDigit_of_mem_digits hdigit

theorem padded_ne_nil (width n : Nat) : padded width n ≠ [] :=
  List.append_ne_nil_of_right_ne_nil _ (digits_ne_nil n)

theorem length_padded_le {width n : Nat} (h : (digits n).length ≤ width) :
    (padded width n).length ≤ width := by
  rw [padded, List.length_leftpad]
  omega

theorem value_padded (width n : Nat) : value (padded width n) = n := by
  rw [value, padded, List.leftpad, Nat.ofDigitChars_append, Nat.ofDigitChars_replicate_zero]
  exact value_digits n

/-- The digits of a number are taken off the head of a text, up to where no digit follows. -/
theorem takeNumber?_padded {most : Option Nat} {width n : Nat} {cs : List Char}
    (hmost : ∀ k ∈ most, (padded width n).length ≤ k) (hcs : ∀ c ∈ cs.head?, c.isDigit = false) :
    takeNumber? most (padded width n ++ cs) = some (n, cs) := by
  have hstop : cs.takeWhile Char.isDigit = [] := by
    cases cs with
    | nil => rfl
    | cons c cs => simp [hcs c rfl]
  have hrun : (padded width n ++ cs).takeWhile Char.isDigit = padded width n := by
    rw [List.takeWhile_append_of_pos fun c hc => isDigit_of_mem_padded hc, hstop, List.append_nil]
  cases most with
  | none => simp [takeNumber?, hrun, padded_ne_nil, value_padded]
  | some k =>
    have hshort := List.take_of_length_le (hmost k rfl)
    simp [takeNumber?, hrun, hshort, padded_ne_nil, value_padded]

end Custody.Text
