import Custody.Identifier
import Custody.Proofs.Json.Form
import Mathlib.Algebra.Ring.Nat

/-!
# Identifiers read back from their text

* **`Identifier.unhyphenate?_hyphenate`**: hyphens are found where they were put.
* **`Identifier.ofText?_text`**: every identifier is read back from its text.
-/

namespace Custody.Identifier

theorem length_hyphenate : ∀ (ns : List Nat) {cs : List Char}, cs.length = ns.sum →
    (hyphenate ns cs).length = cs.length + (ns.length - 1)
  | [], cs, h => by simp [hyphenate, h]
  | [n], cs, _ => by simp [hyphenate]
  | n :: m :: ns, cs, h => by
    rw [List.sum_cons] at h
    have hdrop : (cs.drop n).length = (m :: ns).sum := by rw [List.length_drop]; omega
    have hrest := length_hyphenate (m :: ns) hdrop
    simp only [hyphenate, List.length_append, List.length_take, List.length_cons, List.length_drop]
      at hrest ⊢
    omega

/-- **Hyphens are found where they were put.** -/
theorem unhyphenate?_hyphenate : ∀ (ns : List Nat) {cs : List Char}, cs.length = ns.sum →
    unhyphenate? ns (hyphenate ns cs) = some cs
  | [], cs, h => by
    rw [List.length_eq_zero_iff.mp h]
    rfl
  | [n], cs, h => if_pos (h.trans List.sum_singleton)
  | n :: m :: ns, cs, h => by
    rw [List.sum_cons] at h
    have hlength : (cs.take n).length = n := by rw [List.length_take]; omega
    have hdropped : (cs.drop n).length = (m :: ns).sum := by rw [List.length_drop]; omega
    have hrest := unhyphenate?_hyphenate (m :: ns) hdropped
    have htake : (cs.take n ++ '-' :: hyphenate (m :: ns) (cs.drop n)).take n = cs.take n := by
      rw [List.take_append_of_le_length (by omega), List.take_take, Nat.min_self]
    have hdrop : (cs.take n ++ '-' :: hyphenate (m :: ns) (cs.drop n)).drop n
        = '-' :: hyphenate (m :: ns) (cs.drop n) := List.drop_left' hlength
    rw [hyphenate, unhyphenate?, hdrop, htake]
    · simp [hrest]
    · simp
    · simp

theorem digit?_digitChar : ∀ d : Fin 16, digit? (digitChar d) = some d := by
  decide

/-- **Every identifier is read back from its text.** -/
theorem ofText?_text (i : Identifier) : ofText? i.text = some i := by
  have hlength : (i.digits.toList.map digitChar).length = groups.sum := by
    simp [groups]
  -- the text is longer than the digits, by the hyphens that are taken out again
  have hplain : plain? (hyphenate groups (i.digits.toList.map digitChar))
      = some (i.digits.toList.map digitChar) := by
    have hlong := length_hyphenate groups hlength
    rw [plain?, if_neg (by rw [hlong, hlength]; decide), unhyphenate?_hyphenate groups hlength]
    rfl
  have hdigits : (i.digits.toList.map digitChar).mapM digit? = some i.digits.toList :=
    mapM_map_eq_some fun d _ => digit?_digitChar d
  have hvector : Vector.mk i.digits.toList.toArray (by simp) = i.digits := by
    apply Vector.toArray_inj.mp
    exact Array.toArray_toList
  simp [ofText?, text, hplain, hdigits, hvector]

instance : LawfulJsonForm Identifier where
  ofJson?_toJson i := i.ofText?_text
  toJson_ne_null _ := nofun
  exact_toJson _ := trivial

end Custody.Identifier
