/-!
# Closed enumerations

The vocabulary of the law is closed: kinds of dates, tracks, adjustment types and the like. An
`Enumeration` lists the values of such a type in their order and gives each its written name.

* **`ofName?_name`**: a name read back gives the value it was written for.
* **`name_of_ofName?`**: only names that are written are read.
-/

namespace Custody

/-- A type with finitely many values, listed once each in `all`, and a different `name` for every
value. -/
class Enumeration (κ : Type) [DecidableEq κ] where
  all : List κ
  name : κ → String
  mem_all (k : κ) : k ∈ all
  nodup_all : all.Nodup
  name_injective {a b : κ} : name a = name b → a = b

namespace Enumeration

variable {κ : Type} [DecidableEq κ] [Enumeration κ]

/-- The value of a name. -/
def ofName? (s : String) : Option κ :=
  (all : List κ).find? (fun k => name k = s)

theorem ofName?_name (k : κ) : ofName? (name k) = some k := by
  simp only [ofName?]
  cases found : (all : List κ).find? (fun j => name j = name k) with
  | none =>
    have := List.find?_eq_none.mp found k (mem_all k)
    simp at this
  | some j =>
    have := List.find?_some found
    simp only [decide_eq_true_eq] at this
    rw [name_injective this]

theorem name_of_ofName? {s : String} {k : κ} (h : ofName? s = some k) : name k = s := by
  have := List.find?_some h
  simpa using this

end Enumeration

end Custody
