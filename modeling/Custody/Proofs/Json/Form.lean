import Custody.Json.Form
import Custody.Proofs.Calendar.DateText
import Custody.Proofs.Json.Tokens

/-!
# Values read back from their JSON form

A form is lawful when every value is read back from it. Records are read member by member, so what
is shown here of the members of an object carries over to every record: a member that is written is
found under its name, and one that is left out is read as missing.

* **`LawfulJsonForm`**: values are read back, and none of them is written as `null`.
* **`ofJson?_toJson_option`**: a value that may be missing is read back as well.
* **`Table.ofList_toList`**: a table is the table of its entries.
-/

namespace Custody

open Custody.Calendar

/-- Every value is read back from its JSON form, which is not `null` and can be written as text. -/
class LawfulJsonForm (α : Type) [JsonForm α] : Prop where
  ofJson?_toJson (a : α) : ofJson? (toJson a) = some a
  toJson_ne_null (a : α) : toJson a ≠ Json.null
  exact_toJson (a : α) : (toJson a).Exact

export LawfulJsonForm (ofJson?_toJson toJson_ne_null exact_toJson)

attribute [simp] ofJson?_toJson toJson_ne_null exact_toJson

/-- Reading undoes writing item by item. -/
theorem mapM_map_eq_some {α β : Type} {write : α → β} {read? : β → Option α} {as : List α}
    (h : ∀ a ∈ as, read? (write a) = some a) : (as.map write).mapM read? = some as := by
  induction as with
  | nil => rfl
  | cons a rest ih =>
    have hrest := ih fun b hb => h b (List.mem_cons_of_mem _ hb)
    simp [h a List.mem_cons_self, hrest]

namespace Json

/-! ### Members of an object -/

section Members

variable {α : Type} [JsonForm α]

@[simp] theorem members?_obj (members : Members) : (obj members).members? = some members := rfl

@[simp] theorem lookup_member (name name' : String) (a : α) :
    (member name a).lookup name' = if name' = name then some (toJson a) else none := by
  by_cases h : name' = name
  · simp [member, h]
  · simp [member, List.lookup_cons, beq_false_of_ne h, h]

/-- A member that is left out is not found. -/
@[simp] theorem lookup_memberIfSome (name name' : String) (a : Option α) :
    (memberIfSome name a).lookup name' = if name' = name then a.map toJson else none := by
  cases a with
  | none => simp [memberIfSome]
  | some a => exact lookup_member name name' a

@[simp] theorem Members.required?_eq (members : Members) (name : String) :
    members.required? name = (members.lookup name).bind (ofJson? : Json → Option α) := rfl

@[simp] theorem Members.withDefault?_eq (members : Members) (name : String) (default : α) :
    members.withDefault? name default = (members.lookup name).elim (some default) ofJson? := by
  unfold Members.withDefault?
  cases members.lookup name <;> rfl

/-- A member that may be missing is read as a value that may be missing. -/
@[simp] theorem Members.optional?_eq (members : Members) (name : String) :
    members.optional? name
      = (members.lookup name).elim (some none) (ofJson? : Json → Option (Option α)) := by
  unfold Members.optional?
  cases members.lookup name with
  | none => rfl
  | some j => cases j <;> rfl

/-- What is read of a member that was written. It goes before `Option.bind_some`, which leaves the
reading of a count to be compared by computation. -/
@[simp high] theorem bind_ofJson?_toJson [LawfulJsonForm α] (a : α) :
    (some (toJson a)).bind ofJson? = some a := by
  rw [Option.bind_some, ofJson?_toJson]

/-- Only `null` is read as a missing value. -/
theorem ofJson?_option_of_ne_null {j : Json} (h : j ≠ .null) :
    (ofJson? j : Option (Option α)) = (ofJson? j : Option α).map some := by
  cases j with
  | null => exact absurd rfl h
  | _ => rfl

variable [LawfulJsonForm α]

/-- **A value that may be missing is read back.** -/
@[simp] theorem ofJson?_toJson_option (a : Option α) : ofJson? (toJson a) = some a := by
  cases a with
  | none => rfl
  | some a =>
    show ofJson? (toJson a) = some (some a)
    rw [ofJson?_option_of_ne_null (toJson_ne_null a), ofJson?_toJson, Option.map_some]

/-- What is read of a member that was left out if there was no value. -/
@[simp] theorem elim_ofJson?_toJson (a : Option α) :
    a.elim (some none) ((ofJson? : Json → Option (Option α)) ∘ toJson) = some a := by
  cases a with
  | none => rfl
  | some a => exact ofJson?_toJson_option (some a)

/-! ### Inexact numbers -/

@[simp] theorem exactMembers_append {members members' : Members} :
    ExactMembers (members ++ members') ↔ ExactMembers members ∧ ExactMembers members' := by
  induction members with
  | nil => simp [ExactMembers]
  | cons m rest ih => simp [ExactMembers, ih, and_assoc]

@[simp] theorem exactMembers_member (name : String) (a : α) : ExactMembers (member name a) :=
  ⟨exact_toJson a, trivial⟩

@[simp] theorem exactMembers_memberIfSome (name : String) (a : Option α) :
    ExactMembers (memberIfSome name a) := by
  cases a with
  | none => trivial
  | some a => exact exactMembers_member name a

end Members

/-! ### Depth -/

theorem depthOfItems_le {items : List Json} {n : Nat} (h : ∀ j ∈ items, j.depth ≤ n) :
    depthOfItems items ≤ n := by
  induction items with
  | nil => exact Nat.zero_le n
  | cons j rest ih =>
    rw [List.forall_mem_cons] at h
    exact Nat.max_le.mpr ⟨h.1, ih h.2⟩

theorem depthOfMembers_le {members : Members} {n : Nat} (h : ∀ m ∈ members, m.2.depth ≤ n) :
    depthOfMembers members ≤ n := by
  induction members with
  | nil => exact Nat.zero_le n
  | cons m rest ih =>
    rw [List.forall_mem_cons] at h
    exact Nat.max_le.mpr ⟨h.1, ih h.2⟩

theorem depthOfMembers_append_le {members members' : Members} {n : Nat} :
    depthOfMembers (members ++ members') ≤ n
      ↔ depthOfMembers members ≤ n ∧ depthOfMembers members' ≤ n := by
  induction members with
  | nil => simp [depthOfMembers]
  | cons m rest ih => simp only [List.cons_append, depthOfMembers, Nat.max_le, ih, and_assoc]

theorem depthOfMembers_member_le {α : Type} [JsonForm α] {name : String} {a : α} {n : Nat} :
    depthOfMembers (member name a) ≤ n ↔ (toJson a).depth ≤ n := by
  simp [member, depthOfMembers]

theorem depthOfMembers_memberIfSome_le {α : Type} [JsonForm α] {name : String} {a : Option α}
    {n : Nat} (h : ∀ a : α, (toJson a).depth ≤ n) : depthOfMembers (memberIfSome name a) ≤ n := by
  cases a with
  | none => exact Nat.zero_le n
  | some a => exact depthOfMembers_member_le.mpr (h a)

end Json

/-! ### Plain values -/

instance : LawfulJsonForm String where
  ofJson?_toJson _ := rfl
  toJson_ne_null _ := nofun
  exact_toJson _ := trivial

instance : LawfulJsonForm Bool where
  ofJson?_toJson _ := rfl
  toJson_ne_null _ := nofun
  exact_toJson _ := trivial

instance : LawfulJsonForm Int where
  ofJson?_toJson _ := rfl
  toJson_ne_null _ := nofun
  exact_toJson _ := trivial

instance : LawfulJsonForm UInt32 where
  ofJson?_toJson _ := count32?_eq_some_iff.mpr rfl
  toJson_ne_null _ := nofun
  exact_toJson _ := trivial

instance : LawfulJsonForm Int64 where
  ofJson?_toJson n := by
    show (if fits64 n.toInt then some (Int64.ofInt n.toInt) else none) = some n
    rw [if_pos (fits64_toInt n), Int64.ofInt_toInt]
  toJson_ne_null _ := nofun
  exact_toJson _ := trivial

instance : LawfulJsonForm Date where
  ofJson?_toJson d := d.ofText?_text
  toJson_ne_null _ := nofun
  exact_toJson _ := trivial

theorem exactItems_map_toJson {α : Type} [JsonForm α] [LawfulJsonForm α] (items : List α) :
    Json.ExactItems (items.map toJson) := by
  induction items with
  | nil => trivial
  | cons a rest ih => exact ⟨exact_toJson a, ih⟩

instance {α : Type} [JsonForm α] [LawfulJsonForm α] : LawfulJsonForm (List α) where
  ofJson?_toJson _ := mapM_map_eq_some fun a _ => ofJson?_toJson a
  toJson_ne_null _ := nofun
  exact_toJson items := exactItems_map_toJson items

/-! ### Enumerations and tables -/

section Enumeration

variable {κ : Type} [DecidableEq κ] [Enumeration κ]

instance (priority := low) : LawfulJsonForm κ where
  ofJson?_toJson k := Enumeration.ofName?_name k
  toJson_ne_null _ := nofun
  exact_toJson _ := trivial

variable {α : Type}

namespace Table

omit [Enumeration κ] in
/-- Entries of a table that are put in are those that are found. -/
theorem get?_foldl_insert (t : Table κ α) {entries : List (κ × α)}
    (h : ∀ e ∈ entries, t.get? e.1 = some e.2) (start : Table κ α) (k : κ) :
    (entries.foldl (fun t e => t.insert e.1 e.2) start).get? k
      = if k ∈ entries.map Prod.fst then t.get? k else start.get? k := by
  induction entries generalizing start with
  | nil => rfl
  | cons e rest ih =>
    rw [List.foldl_cons, ih fun e' he' => h e' (List.mem_cons_of_mem _ he')]
    have he := h e List.mem_cons_self
    by_cases hrest : k ∈ rest.map Prod.fst
    · simp [hrest]
    · by_cases hk : k = e.1 <;> simp [hrest, hk, he]

/-- **A table is the table of its entries.** -/
theorem ofList_toList (t : Table κ α) : ofList t.toList = t := by
  ext1
  funext k
  rw [ofList, get?_foldl_insert t fun e he => mem_toList.mp he]
  split
  · rfl
  · next hmissing =>
    cases hget : t.get? k with
    | none => rfl
    | some a =>
      exact absurd (List.mem_map.mpr ⟨(k, a), mem_toList.mpr hget, rfl⟩) hmissing

theorem eq_empty_of_isEmpty {t : Table κ α} (h : t.isEmpty) : t = empty := by
  have hnil : t.toList = [] := List.isEmpty_iff.mp h
  rw [← t.ofList_toList, hnil]
  rfl

end Table

variable [JsonForm α] [LawfulJsonForm α]

theorem exactMembers_entries (entries : List (κ × α)) :
    Json.ExactMembers (entries.map fun (k, a) => (Enumeration.name k, toJson a)) := by
  induction entries with
  | nil => trivial
  | cons e rest ih => exact ⟨exact_toJson e.2, ih⟩

instance : LawfulJsonForm (Table κ α) where
  ofJson?_toJson t := by
    have hentries : (t.toList.map fun (k, a) => (Enumeration.name k, toJson a)).mapM
        (fun (name, j) => do some ((← (Enumeration.ofName? name : Option κ)), ← ofJson? j))
        = some t.toList := mapM_map_eq_some fun e _ => by simp [Enumeration.ofName?_name]
    show (List.mapM _ _ >>= fun entries => some (Table.ofList entries)) = some t
    rw [hentries, Option.bind_eq_bind, Option.bind_some, t.ofList_toList]
  toJson_ne_null _ := nofun
  exact_toJson t := exactMembers_entries t.toList

end Enumeration

instance : LawfulJsonForm Duration where
  ofJson?_toJson d := by
    show (ofJson? (toJson d.counts)).map Duration.mk = some d
    rw [ofJson?_toJson, Option.map_some]
  toJson_ne_null d := toJson_ne_null d.counts
  exact_toJson d := exact_toJson d.counts

end Custody
