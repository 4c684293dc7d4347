import Custody.Count
import Custody.Json.Value
import Custody.Table
import Custody.Duration

/-!
# Values with a JSON form

`JsonForm α` pairs the JSON form of a value with the reading of it. Objects are read member by
member: members that are not asked for are passed over, and a member may be required, optional or
have a default. Only an optional member may be `null`.
-/

namespace Custody

open Custody.Calendar

/-- A type whose values are written as JSON and read back. -/
class JsonForm (α : Type) where
  toJson : α → Json
  ofJson? : Json → Option α

export JsonForm (toJson ofJson?)

namespace Json

/-! ### Members of an object -/

/-- The members of an object. -/
abbrev Members := List (String × Json)

/-- The members of a value that is an object. -/
def members? : Json → Option Members
  | obj members => some members
  | _ => none

namespace Members

variable {α : Type} [JsonForm α]

/-- A member that has to be there. -/
def required? (members : Members) (name : String) : Option α := do
  ofJson? (← members.lookup name)

/-- A member that may be missing or `null`. -/
def optional? (members : Members) (name : String) : Option (Option α) :=
  match members.lookup name with
  | none | some .null => some none
  | some j => (ofJson? j).map some

/-- A member that may be missing, for which `default` then stands. -/
def withDefault? (members : Members) (name : String) (default : α) : Option α :=
  match members.lookup name with
  | none => some default
  | some j => ofJson? j

end Members

/-- A member. -/
def member {α : Type} [JsonForm α] (name : String) (a : α) : Members :=
  [(name, toJson a)]

/-- A member that is left out when there is no value. -/
def memberIfSome {α : Type} [JsonForm α] (name : String) (a : Option α) : Members :=
  match a with
  | some a => [(name, toJson a)]
  | none => []

end Json

/-! ### Plain values -/

instance : JsonForm String where
  toJson := .str
  ofJson?
    | .str s => some s
    | _ => none

instance : JsonForm Bool where
  toJson := .bool
  ofJson?
    | .bool b => some b
    | _ => none

instance : JsonForm Int where
  toJson := .int
  ofJson?
    | .int n => some n
    | _ => none

/-- Counts and sequence numbers are refused outside the range of 32 bits. -/
instance : JsonForm UInt32 where
  toJson n := .int n.toNat
  ofJson?
    | .int n => count32? n
    | _ => none

/-- Booking numbers are refused outside the range of 64 bits. -/
instance : JsonForm Int64 where
  toJson n := .int n.toInt
  ofJson?
    | .int n => if fits64 n then some (Int64.ofInt n) else none
    | _ => none

instance : JsonForm Date where
  toJson d := .str d.text
  ofJson?
    | .str s => Date.ofText? s
    | _ => none

instance {α : Type} [JsonForm α] : JsonForm (List α) where
  toJson items := .arr (items.map toJson)
  ofJson?
    | .arr items => items.mapM ofJson?
    | _ => none

/-- A missing value is `null`. -/
instance {α : Type} [JsonForm α] : JsonForm (Option α) where
  toJson
    | some a => toJson a
    | none => .null
  ofJson?
    | .null => some none
    | j => (ofJson? j).map some

/-! ### Enumerations and tables -/

section Enumeration

variable {κ : Type} [DecidableEq κ] [Enumeration κ]

/-- The values of an enumeration are written as their names. -/
instance (priority := low) : JsonForm κ where
  toJson k := .str (Enumeration.name k)
  ofJson?
    | .str s => Enumeration.ofName? s
    | _ => none

/-- A table is an object with a member for each entry. Names outside the enumeration are refused. -/
instance {α : Type} [JsonForm α] : JsonForm (Table κ α) where
  toJson t := .obj (t.toList.map fun (k, a) => (Enumeration.name k, toJson a))
  ofJson?
    | .obj members => do
      let entries ← members.mapM fun (name, j) => do
        some ((← (Enumeration.ofName? name : Option κ)), ← ofJson? j)
      some (Table.ofList entries)
    | _ => none

end Enumeration

instance : JsonForm Duration where
  toJson d := toJson d.counts
  ofJson? j := (ofJson? j).map Duration.mk

end Custody
