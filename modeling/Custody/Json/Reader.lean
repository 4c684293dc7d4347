import Custody.Json.Token

/-!
# Reading JSON

A text is a single value, with white space around any of its tokens and nothing else. Tokens are
taken from left to right; the arrays and objects that are still open are kept as a stack of frames,
so reading is one recursion over the tokens.

* **`Json.ofText?`**: the value of a text.
-/

namespace Custody.Json

/-- An array or object that is still open. -/
inductive Frame where
  /-- An array, with the items read so far, last first. -/
  | items (before : List Json)
  /-- An object, with the members read so far, last first, and the name of the one in progress. -/
  | members (before : List (String × Json)) (name : String)

/-- What may come next. -/
inductive Expect where
  | value
  /-- A value, or the end of an array just opened. -/
  | valueOrClose
  /-- A member's name; the object may end here when it was just opened. -/
  | name (before : List (String × Json)) (mayClose : Bool)
  | colon (before : List (String × Json)) (name : String)
  /-- The separator or end after a value. -/
  | next (done : Json)

/-- One token: what may come next and which frames are open after it. -/
def step? (e : Expect) (frames : List Frame) (t : Token) : Option (Expect × List Frame) :=
  match e, t with
  | .value, .openArr | .valueOrClose, .openArr => some (.valueOrClose, .items [] :: frames)
  | .value, .openObj | .valueOrClose, .openObj => some (.name [] true, frames)
  | .value, .str s | .valueOrClose, .str s => some (.next (.str s), frames)
  | .value, .atom j | .valueOrClose, .atom j => some (.next j, frames)
  | .valueOrClose, .closeArr =>
    match frames with
    | .items _ :: rest => some (.next (.arr []), rest)
    | _ => none
  | .name before _, .str s => some (.colon before s, frames)
  | .name _ true, .closeObj => some (.next (.obj []), frames)
  | .colon before name, .colon => some (.value, .members before name :: frames)
  | .next j, .comma =>
    match frames with
    | .items before :: rest => some (.value, .items (j :: before) :: rest)
    | .members before name :: rest => some (.name ((name, j) :: before) false, rest)
    | [] => none
  | .next j, .closeArr =>
    match frames with
    | .items before :: rest => some (.next (.arr (j :: before).reverse), rest)
    | _ => none
  | .next j, .closeObj =>
    match frames with
    | .members before name :: rest => some (.next (.obj ((name, j) :: before).reverse), rest)
    | _ => none
  | _, _ => none

/-- The value that the tokens complete. -/
def read? : Expect → List Frame → List Token → Option Json
  | .next j, [], [] => some j
  | _, _, [] => none
  | e, frames, t :: ts => do
    let (e, frames) ← step? e frames t
    read? e frames ts

/-- The value of a text. -/
def ofText? (s : String) : Option Json := do
  read? .value [] (← Token.ofText? s)

end Custody.Json
