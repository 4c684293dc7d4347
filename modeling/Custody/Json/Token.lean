import Custody.Json.Value
import Custody.Text.Digits

/-!
# Tokens of a JSON text

A text is cut into brackets, separators and atoms one character at a time. `Token.Scan` says what
has been read of the token in progress; a character either extends it or ends it.

* **`Token.ofText?`**: the tokens of a text, or nothing when it holds something that is no token.
-/

namespace Custody.Json

open Custody.Text

/-- A token of a JSON text. -/
inductive Token where
  | openArr
  | closeArr
  | openObj
  | closeObj
  | colon
  | comma
  /-- A string, which may be a value or a member's name. -/
  | str (s : String)
  /-- `null`, a truth value or a number. -/
  | atom (j : Json)
deriving Inhabited, BEq

namespace Token

/-! ### Numbers and words -/

/-- A run of digits at the head, split off; there may be none. -/
def splitDigits (cs : List Char) : List Char × List Char :=
  (cs.takeWhile Char.isDigit, cs.dropWhile Char.isDigit)

/-- Whether a text is an exponent, or empty. -/
def isExponent : List Char → Bool
  | [] => true
  | e :: cs =>
    let unsigned := match cs with
      | '+' :: rest => rest
      | '-' :: rest => rest
      | rest => rest
    (e = 'e' || e = 'E') && !unsigned.isEmpty && unsigned.all Char.isDigit

/-- Whether a text is a fraction or an exponent or both, and not empty. -/
def isInexactTail : List Char → Bool
  | '.' :: cs =>
    let (places, rest) := splitDigits cs
    !places.isEmpty && isExponent rest
  | cs => !cs.isEmpty && isExponent cs

/-- The number without a sign that a text stands for. `0` is the only whole part that may begin
with `0`, and a negated zero is not an integer. -/
def number? (negative : Bool) (cs : List Char) (written : String) : Option Json :=
  let (whole, tail) := splitDigits cs
  if whole.isEmpty || (whole.length ≠ 1 && whole.head? = some '0') then none
  else if tail.isEmpty then
    let n := value whole
    if negative && n = 0 then some (.real written)
    else some (.int (if negative then -(n : Int) else n))
  else if isInexactTail tail then some (.real written)
  else none

/-- The atom that a word stands for. -/
def atom? (word : List Char) : Option Json :=
  match word with
  | '-' :: cs => number? true cs (String.ofList word)
  | cs =>
    if cs = "null".toList then some .null
    else if cs = "true".toList then some (.bool true)
    else if cs = "false".toList then some (.bool false)
    else number? false cs (String.ofList word)

/-! ### Strings -/

/-- The character that an escape of one letter stands for. -/
def escaped? : Char → Option Char
  | '"' => some '"'
  | '\\' => some '\\'
  | '/' => some '/'
  | 'b' => some '\x08'
  | 'f' => some '\x0c'
  | 'n' => some '\n'
  | 'r' => some '\r'
  | 't' => some '\t'
  | _ => none

/-- The value of a hexadecimal digit of either case. -/
def hexValue? (c : Char) : Option Nat :=
  if '0' ≤ c ∧ c ≤ '9' then some (c.toNat - '0'.toNat)
  else if 'a' ≤ c ∧ c ≤ 'f' then some (c.toNat - 'a'.toNat + 10)
  else if 'A' ≤ c ∧ c ≤ 'F' then some (c.toNat - 'A'.toNat + 10)
  else none

/-- Whether a code is the first half of a pair. -/
def isLead (n : Nat) : Bool := 0xD800 ≤ n && n < 0xDC00

/-- Whether a code is the second half of a pair. -/
def isTrail (n : Nat) : Bool := 0xDC00 ≤ n && n < 0xE000

/-- The character of a pair of codes. -/
def pairChar (lead trail : Nat) : Char :=
  Char.ofNat (0x10000 + (lead - 0xD800) * 0x400 + (trail - 0xDC00))

/-! ### Scanning -/

/-- What has been read of a token. Characters read so far are held last first. -/
inductive Scan where
  /-- Between tokens. -/
  | gap
  /-- In a number or a word. -/
  | word (read : List Char)
  /-- In a string. -/
  | text (read : List Char)
  /-- After a backslash in a string. -/
  | escape (read : List Char)
  /-- In the four digits of a code, the second of a pair when `lead` is given. -/
  | code (read : List Char) (lead : Option Nat) (seen value : Nat)
  /-- After the first half of a pair. -/
  | paired (read : List Char) (lead : Nat)
  /-- After the first half of a pair and a backslash. -/
  | pairedEscape (read : List Char) (lead : Nat)

/-- The white space between tokens. -/
def isGap (c : Char) : Bool :=
  c = ' ' || c = '\t' || c = '\n' || c = '\r'

/-- The bracket or separator that a character is. -/
def mark? : Char → Option Token
  | '[' => some openArr
  | ']' => some closeArr
  | '\x7b' => some openObj
  | '\x7d' => some closeObj
  | ':' => some colon
  | ',' => some comma
  | _ => none

/-- A code of four digits has been read. -/
def endCode? (read : List Char) (lead : Option Nat) (n : Nat) : Option Scan :=
  match lead with
  | some first => if isTrail n then some (.text (pairChar first n :: read)) else none
  | none =>
    if isLead n then some (.paired read n)
    else if isTrail n then none
    else some (.text (Char.ofNat n :: read))

/-- A character between tokens. -/
def begin (c : Char) : List Token × Scan :=
  if isGap c then ([], .gap)
  else if c = '"' then ([], .text [])
  else match mark? c with
    | some t => ([t], .gap)
    | none => ([], .word [c])

/-- One character: the tokens that end with it, and what is in progress after it. -/
def step? (s : Scan) (c : Char) : Option (List Token × Scan) :=
  match s with
  | .gap => some (begin c)
  | .word read =>
    if isGap c || c = '"' || (mark? c).isSome then do
      let j ← atom? read.reverse
      let (ended, next) := begin c
      some (.atom j :: ended, next)
    else some ([], .word (c :: read))
  | .text read =>
    if c = '"' then some ([.str (String.ofList read.reverse)], .gap)
    else if c = '\\' then some ([], .escape read)
    else if c.toNat < 0x20 then none
    else some ([], .text (c :: read))
  | .escape read =>
    if c = 'u' then some ([], .code read none 0 0)
    else (escaped? c).map fun e => ([], .text (e :: read))
  | .code read lead seen n => do
    let n := n * 16 + (← hexValue? c)
    if seen = 3 then (endCode? read lead n).map fun next => ([], next)
    else some ([], .code read lead (seen + 1) n)
  | .paired read lead => if c = '\\' then some ([], .pairedEscape read lead) else none
  | .pairedEscape read lead => if c = 'u' then some ([], .code read (some lead) 0 0) else none

/-- The tokens of the rest of a text. -/
def scan? : Scan → List Char → Option (List Token)
  | .gap, [] => some []
  | .word read, [] => (atom? read.reverse).map fun j => [.atom j]
  | _, [] => none
  | s, c :: cs => do
    let (ended, next) ← step? s c
    (scan? next cs).map (ended ++ ·)

/-- The tokens of a text. -/
def ofText? (s : String) : Option (List Token) :=
  scan? .gap s.toList

end Token

end Custody.Json
