import Custody.Json.Form

/-!
# Identifiers

A sentence is identified by 32 hexadecimal digits. They are written in lower case in groups of 8, 4,
4, 4 and 12 with hyphens between, and read in either case, with or without the hyphens, also between
braces or after the name space `urn:uuid:` when hyphenated.
-/

namespace Custody

/-- An identifier, as its digits. -/
structure Identifier where
  digits : Vector (Fin 16) 32
deriving DecidableEq

namespace Identifier

/-- The written form of a digit. -/
def digitChar (d : Fin 16) : Char :=
  if d.val < 10 then Char.ofNat ('0'.toNat + d.val) else Char.ofNat ('a'.toNat + (d.val - 10))

/-- The digit that a character is, in either case. -/
def digit? (c : Char) : Option (Fin 16) :=
  (List.finRange 16).find? fun d => digitChar d = c.toLower

/-- The lengths of the groups. -/
def groups : List Nat := [8, 4, 4, 4, 12]

/-- Cuts a text into groups with hyphens between. -/
def hyphenate : List Nat → List Char → List Char
  | [], _ => []
  | [_], cs => cs
  | n :: ns, cs => cs.take n ++ '-' :: hyphenate ns (cs.drop n)

/-- Takes the hyphens out of a text that has them where the groups end and ends with the last. -/
def unhyphenate? : List Nat → List Char → Option (List Char)
  | [], cs => if cs.isEmpty then some [] else none
  | [n], cs => if cs.length = n then some cs else none
  | n :: ns, cs =>
    match cs.drop n with
    | '-' :: rest => (unhyphenate? ns rest).map (cs.take n ++ ·)
    | _ => none

/-- The written form of an identifier. -/
def text (i : Identifier) : String :=
  String.ofList (hyphenate groups (i.digits.toList.map digitChar))

instance : ToString Identifier := ⟨text⟩

/-- The text between braces. -/
def unbraced? : List Char → Option (List Char)
  | '\x7b' :: cs => if cs.getLast? = some '\x7d' then some cs.dropLast else none
  | _ => none

/-- The digits of a text, without hyphens. -/
def plain? (cs : List Char) : Option (List Char) :=
  if cs.length = 32 then some cs
  else (unhyphenate? groups cs).orElse fun _ =>
    match unbraced? cs with
    | some inner => unhyphenate? groups inner
    | none =>
      if "urn:uuid:".toList.isPrefixOf cs then unhyphenate? groups (cs.drop 9) else none

/-- The identifier that a text stands for. -/
def ofText? (s : String) : Option Identifier := do
  let digits ← (← plain? s.toList).mapM digit?
  if h : digits.length = 32 then some ⟨⟨digits.toArray, by simpa using h⟩⟩ else none

instance : JsonForm Identifier where
  toJson i := .str i.text
  ofJson?
    | .str s => ofText? s
    | _ => none

end Identifier

end Custody
