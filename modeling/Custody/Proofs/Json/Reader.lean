import Custody.Json.Reader
import Custody.Proofs.Json.Tokens

/-!
# Values read back

The tokens of a value bring the reader from where a value is expected to where the value is done,
with the same arrays and objects still open. Of an array or object that is being read, the items or
members before the next one are on the stack.

* **`Json.read?_tokens`**: a value is read from its tokens, whatever comes after them.
* **`Json.ofText?_text`**: a value without inexact numbers is read back from its text.
-/

namespace Custody.Json

/-- A token that is not refused is read. -/
theorem read?_cons {e e' : Expect} {frames frames' : List Frame} {t : Token}
    (h : step? e frames t = some (e', frames')) (ts : List Token) :
    read? e frames (t :: ts) = read? e' frames' ts := by
  simp [read?, h]

/-- Where an array has just been opened, a value is read as anywhere else. -/
theorem read?_valueOrClose (j : Json) (frames : List Frame) (ts : List Token) :
    read? .valueOrClose frames (j.tokens ++ ts) = read? .value frames (j.tokens ++ ts) := by
  cases j <;> rfl

mutual

/-- **A value is read from its tokens.** -/
theorem read?_tokens : ∀ (j : Json) (frames : List Frame) (ts : List Token),
    read? .value frames (j.tokens ++ ts) = read? (.next j) frames ts
  | .null, _, _ | .bool _, _, _ | .int _, _, _ | .real _, _, _ | .str _, _, _ => read?_cons rfl _
  | .arr [], _, _ => by
    rw [tokens, itemTokens, List.nil_append, List.cons_append, read?_cons rfl]
    exact read?_cons rfl _
  | .arr (j :: rest), frames, ts => by
    -- no value begins with a bracket that would close the array
    have hopened :
        read? .valueOrClose (.items [] :: frames) (itemTokens (j :: rest) ++ .closeArr :: ts)
          = read? .value (.items [] :: frames) (itemTokens (j :: rest) ++ .closeArr :: ts) := by
      cases rest with
      | nil => exact read?_valueOrClose j _ _
      | cons k rest =>
        rw [itemTokens, List.append_assoc]
        exact read?_valueOrClose j _ _
    rw [tokens, List.cons_append, read?_cons rfl, List.append_assoc]
    exact hopened.trans (read?_itemTokens (j :: rest) (List.cons_ne_nil _ _) [] frames ts)
  | .obj [], _, _ => by
    rw [tokens, memberTokens, List.nil_append, List.cons_append, read?_cons rfl]
    exact read?_cons rfl _
  | .obj (m :: rest), frames, ts => by
    rw [tokens, List.cons_append, read?_cons rfl, List.append_assoc]
    exact read?_memberTokens (m :: rest) (List.cons_ne_nil _ _) [] true frames ts

/-- The items of an array that are still to come. -/
theorem read?_itemTokens : ∀ (items : List Json), items ≠ [] → ∀ (before : List Json)
    (frames : List Frame) (ts : List Token),
    read? .value (.items before :: frames) (itemTokens items ++ .closeArr :: ts)
      = read? (.next (.arr (before.reverse ++ items))) frames ts
  | [], hne, _, _, _ => absurd rfl hne
  | [j], _, before, frames, ts => by
    rw [itemTokens, read?_tokens, read?_cons rfl, List.reverse_cons]
  | j :: k :: rest, _, before, frames, ts => by
    rw [itemTokens, List.append_assoc, read?_tokens, List.cons_append, read?_cons rfl,
      read?_itemTokens (k :: rest) (List.cons_ne_nil _ _), List.reverse_cons, List.append_assoc]
    rfl

/-- The members of an object that are still to come. -/
theorem read?_memberTokens : ∀ (members : List (String × Json)), members ≠ [] →
    ∀ (before : List (String × Json)) (mayClose : Bool) (frames : List Frame) (ts : List Token),
    read? (.name before mayClose) frames (memberTokens members ++ .closeObj :: ts)
      = read? (.next (.obj (before.reverse ++ members))) frames ts
  | [], hne, _, _, _, _ => absurd rfl hne
  | [(name, j)], _, before, mayClose, frames, ts => by
    rw [memberTokens, List.cons_append, read?_cons rfl, List.cons_append, read?_cons rfl,
      read?_tokens, read?_cons rfl, List.reverse_cons]
  | (name, j) :: m :: rest, _, before, mayClose, frames, ts => by
    rw [memberTokens, List.cons_append, read?_cons rfl, List.cons_append, read?_cons rfl,
      List.append_assoc, read?_tokens, List.cons_append, read?_cons rfl,
      read?_memberTokens (m :: rest) (List.cons_ne_nil _ _), List.reverse_cons, List.append_assoc]
    rfl

end

/-- **A value without inexact numbers is read back from its text.** -/
theorem ofText?_text {j : Json} (h : j.Exact) : ofText? j.text = some j := by
  have htokens : Token.ofText? j.text = some j.tokens := by
    have hend : Token.Delimited [] := by simp [Token.Delimited]
    simpa [Token.ofText?, Token.scan?] using Token.scan?_text h hend
  have hread := read?_tokens j [] []
  rw [List.append_nil] at hread
  simp [ofText?, htokens, hread, read?]

end Custody.Json
