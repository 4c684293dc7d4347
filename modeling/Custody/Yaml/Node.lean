import Custody.Calendar.DateText
import Custody.Count
import Custody.Decimal.Shortest
import Custody.Enumeration

/-!
# YAML values

The values that the configuration is written in. A scalar keeps its text and whether it stood
between quotes, since only a plain scalar can be a number or a truth value; a missing value is an
empty plain scalar. What a value is read as depends on the setting it is for.
-/

namespace Custody

open Custody.Calendar Custody.Text

/-- A YAML value. -/
inductive Yaml where
  | plain (s : String)
  | quoted (s : String)
  | seq (items : List Yaml)
  | map (entries : List (String × Yaml))
deriving Inhabited

namespace Yaml

/-- No value. -/
def absent : Yaml := plain ""

/-- Whether there is no value. -/
def isAbsent : Yaml → Bool
  | plain "" => true
  | _ => false

/-- The text of a scalar. -/
def text? : Yaml → Option String
  | plain s | quoted s => some s
  | _ => none

/-- The items of a sequence; no value is one without items. -/
def items? : Yaml → Option (List Yaml)
  | seq items => some items
  | plain "" => some []
  | _ => none

/-- The entries of a mapping. -/
abbrev Entries := List (String × Yaml)

/-- The entries of a value that is a mapping. -/
def entries? : Yaml → Option Entries
  | map entries => some entries
  | _ => none

/-- Whether a value stands for none. -/
def isNull : Yaml → Bool
  | plain s => s ∈ ["", "~", "null", "Null", "NULL"]
  | _ => false

/-! ### Numbers -/

/-- The value of a digit in a base up to sixteen. -/
def digitIn? (base : Nat) (c : Char) : Option Nat :=
  let n :=
    if c.isDigit then c.toNat - '0'.toNat
    else if 'a' ≤ c.toLower ∧ c.toLower ≤ 'f' then c.toLower.toNat - 'a'.toNat + 10
    else base
  if n < base then some n else none

/-- The number of a run of digits in a base. -/
def digitsIn? (base : Nat) (cs : List Char) : Option Nat := do
  if cs.isEmpty then none
  else some ((← cs.mapM (digitIn? base)).foldl (fun n d => n * base + d) 0)

/-- The number of an unsigned integer. In base ten it does not begin with a needless zero; the other
bases are announced. -/
def unsigned? : List Char → Option Nat
  | '0' :: 'x' :: cs => digitsIn? 16 cs
  | '0' :: 'o' :: cs => digitsIn? 8 cs
  | '0' :: 'b' :: cs => digitsIn? 2 cs
  | ['0'] => some 0
  | '0' :: _ => none
  | cs => digitsIn? 10 cs

/-- The integer that a plain scalar is. -/
def int? : Yaml → Option Int
  | plain s =>
    match s.toList with
    | '-' :: cs => (unsigned? cs).map fun n => -(n : Int)
    | '+' :: cs => (unsigned? cs).map Int.ofNat
    | cs => (unsigned? cs).map Int.ofNat
  | _ => none

/-- A count of 32 bits, which has no minus sign. -/
def count? : Yaml → Option UInt32
  | plain s =>
    match s.toList with
    | '-' :: _ => none
    | _ => (plain s).int?.bind count32?
  | _ => none

/-- A number of days of 64 bits. -/
def days? (y : Yaml) : Option Int := do
  let n ← y.int?
  if fits64 n then some n else none

/-- A truth value. -/
def bool? : Yaml → Option Bool
  | plain s =>
    if s ∈ ["true", "True", "TRUE"] then some true
    else if s ∈ ["false", "False", "FALSE"] then some false
    else none
  | _ => none

/-- The binary number nearest to a plain scalar that is a number, and whether it is negative. -/
def binary? (s : String) : Option (Bool × Binary) :=
  let (negative, cs) := Numeral.splitSign s.toList
  (Binary.ofUnsigned? cs).map fun b => (negative, b)

/-- Whether an integer has 64 bits, with a sign or without. -/
def isWord (n : Int) : Bool :=
  fits64 n || (0 ≤ n && n < UInt64.size)

/-- A decimal. Between quotes it keeps its places. A plain integer has to fit 64 bits. Any other
plain number is first taken to the nearest binary number, whose shortest text then counts. -/
def decimal? : Yaml → Option Decimal
  | quoted s => Decimal.ofText? s
  | plain s =>
    match (plain s).int?, binary? s with
    | some n, _ => if isWord n then some (Decimal.ofInt n) else none
    | none, some (negative, b) => b.decimal?.map fun d => if negative then d.neg else d
    | none, none => Decimal.ofText? s
  | _ => none

/-- A date. -/
def date? (y : Yaml) : Option Date := do
  Date.ofText? (← y.text?)

/-- A value of an enumeration, by its name. -/
def named? {κ : Type} [DecidableEq κ] [Enumeration κ] (y : Yaml) : Option κ := do
  Enumeration.ofName? (← y.text?)

/-! ### Settings of a mapping -/

namespace Entries

variable {α : Type}

/-- The value of a setting, if it is made. A setting made twice is refused. -/
def find? (entries : Entries) (name : String) : Option (Option Yaml) :=
  match entries.filter (·.1 = name) with
  | [] => some none
  | [(_, y)] => some (some y)
  | _ => none

/-- A setting that has to be made. -/
def required? (entries : Entries) (name : String) (read? : Yaml → Option α) : Option α := do
  read? (← (← entries.find? name))

/-- A setting that may be left out or have no value. -/
def optional? (entries : Entries) (name : String) (read? : Yaml → Option α) :
    Option (Option α) := do
  match ← entries.find? name with
  | none => some none
  | some y => if y.isNull then some none else (read? y).map some

/-- A setting for which `default` stands when it is left out. -/
def withDefault? (entries : Entries) (name : String) (default : α) (read? : Yaml → Option α) :
    Option α := do
  match ← entries.find? name with
  | none => some default
  | some y => read? y

end Entries

end Yaml

end Custody
