import Custody.Enumeration

/-!
# Tables over an enumeration

A `Table κ α` holds at most one entry for each value of `κ`. It is known by its look-up `get?`
alone: two tables with the same look-ups are equal, and the order in which entries were put in does
not show. Entries are read out in the order of the enumeration.

* **`get?_insert`**, **`get?_erase`**: each operation through the look-up.
* **`mem_toList`**: the entries read out are those that the look-up finds.
-/

namespace Custody

/-- At most one `α` for each `κ`. -/
@[ext]
structure Table (κ α : Type) where
  get? : κ → Option α

namespace Table

variable {κ α : Type}

/-- The table without entries. -/
def empty : Table κ α := ⟨fun _ => none⟩

instance : Inhabited (Table κ α) := ⟨empty⟩

@[simp] theorem get?_empty (k : κ) : (empty : Table κ α).get? k = none := rfl

variable [DecidableEq κ]

/-- Puts in the entry of `k`, in place of an earlier one. -/
def insert (t : Table κ α) (k : κ) (a : α) : Table κ α :=
  ⟨fun j => if j = k then some a else t.get? j⟩

/-- Takes out the entry of `k`. -/
def erase (t : Table κ α) (k : κ) : Table κ α :=
  ⟨fun j => if j = k then none else t.get? j⟩

/-- Whether there is an entry for `k`. -/
def contains (t : Table κ α) (k : κ) : Bool :=
  (t.get? k).isSome

/-- The table of a list of entries; a later entry replaces an earlier one. -/
def ofList (entries : List (κ × α)) : Table κ α :=
  entries.foldl (fun t e => t.insert e.1 e.2) empty

@[simp] theorem get?_insert (t : Table κ α) (k j : κ) (a : α) :
    (t.insert k a).get? j = if j = k then some a else t.get? j := rfl

@[simp] theorem get?_erase (t : Table κ α) (k j : κ) :
    (t.erase k).get? j = if j = k then none else t.get? j := rfl

/-- Entries of two keys may be put in in either order. -/
theorem insert_comm (t : Table κ α) {k l : κ} (hne : k ≠ l) (a b : α) :
    (t.insert k a).insert l b = (t.insert l b).insert k a := by
  ext1
  funext j
  simp only [get?_insert]
  split
  · next hj => rw [if_neg (hj ▸ hne.symm)]
  · rfl

/-! ### Reading out -/

variable [Enumeration κ]

/-- The entries in the order of the enumeration. -/
def toList (t : Table κ α) : List (κ × α) :=
  (Enumeration.all : List κ).filterMap fun k => (t.get? k).map fun a => (k, a)

/-- The entries' values in the order of the enumeration. -/
def values (t : Table κ α) : List α :=
  (Enumeration.all : List κ).filterMap t.get?

/-- Whether there are no entries. -/
def isEmpty (t : Table κ α) : Bool :=
  t.toList.isEmpty

theorem mem_toList {t : Table κ α} {k : κ} {a : α} :
    (k, a) ∈ t.toList ↔ t.get? k = some a := by
  simp only [toList, List.mem_filterMap, Option.map_eq_some_iff, Prod.mk.injEq]
  constructor
  · rintro ⟨j, _, b, found, rfl, rfl⟩
    exact found
  · intro found
    exact ⟨k, Enumeration.mem_all k, a, found, rfl, rfl⟩

instance [DecidableEq α] : DecidableEq (Table κ α) := fun s t =>
  if h : ∀ k ∈ (Enumeration.all : List κ), s.get? k = t.get? k then
    isTrue (Table.ext (funext fun k => h k (Enumeration.mem_all k)))
  else
    isFalse fun eq => h fun _ _ => eq ▸ rfl

end Table

end Custody
