import Custody.Yaml.Node
import Custody.Text.Blank

/-!
# Reading YAML

The block style of YAML: mappings and sequences laid out by indentation, with plain and quoted
scalars, comments, and `[]` and `\x7b\x7d` for an empty sequence and mapping. A line belongs to the
nearest line above it that is indented less, which makes a forest of the lines; the values are then
read off the trees.

* **`Yaml.Line.forest`**: the lines as trees.
* **`Yaml.ofText?`**: the value of a text.
-/

namespace Custody.Yaml

open Custody.Text

/-! ### Scalars -/

/-- The text of a quoted scalar after its opening quote, and what follows the closing one. -/
def takeQuoted? : List Char → Option (List Char × List Char)
  | '"' :: rest => some ([], rest)
  | '\\' :: 'n' :: rest => (takeQuoted? rest).map fun (cs, rest) => ('\n' :: cs, rest)
  | '\\' :: 't' :: rest => (takeQuoted? rest).map fun (cs, rest) => ('\t' :: cs, rest)
  | '\\' :: c :: rest =>
    if c = '"' ∨ c = '\\' ∨ c = '/' then
      (takeQuoted? rest).map fun (cs, rest) => (c :: cs, rest)
    else none
  | c :: rest => (takeQuoted? rest).map fun (cs, rest) => (c :: cs, rest)
  | [] => none

/-- A text up to a comment, which begins with `#` at the start or after a space. -/
def uncommented : Char → List Char → List Char
  | _, [] => []
  | before, c :: cs => if c = '#' ∧ before = ' ' then [] else c :: uncommented c cs

/-- A text without blanks at its end. -/
def trimRight (cs : List Char) : List Char :=
  (cs.reverse.dropWhile isBlank).reverse

/-- Whether a scalar may begin with a character without quotes. -/
def mayBegin (c : Char) : Bool :=
  !"[]\x7b\x7d,&*!|>%@#".toList.contains c && c ≠ Char.ofNat 0x60 && c ≠ Char.ofNat 0x27

/-- A name before a colon that ends it, and the text after the colon. A comment ends the search. -/
def splitName? : Char → List Char → Option (List Char × List Char)
  | _, [] => none
  | _, [':'] => some ([], [])
  | _, ':' :: ' ' :: rest => some ([], rest)
  | before, c :: rest =>
    if c = '#' ∧ before = ' ' then none
    else (splitName? c rest).map fun (name, after) => (c :: name, after)

/-- The plain scalar of a text. It may not look like a setting. -/
def plain? : List Char → Option Yaml
  | [] => none
  | c :: cs =>
    if mayBegin c && (splitName? ' ' (c :: cs)).isNone then some (plain (String.ofList (c :: cs)))
    else none

/-- The value that stands on one line; none if there is only a comment or nothing. -/
def inline? (cs : List Char) : Option (Option Yaml) :=
  match skipBlanks cs with
  | '"' :: rest => do
    let (text, after) ← takeQuoted? rest
    if (uncommented ' ' (skipBlanks after)).isEmpty then some (some (quoted (String.ofList text)))
    else none
  | rest =>
    match trimRight (uncommented ' ' rest) with
    | [] => some none
    | ['[', ']'] => some (some (seq []))
    | ['\x7b', '\x7d'] => some (some (map []))
    | text => (plain? text).map some

/-! ### Lines -/

/-- What a line holds. A line that opens an item and goes on counts as two. -/
inductive Content where
  /-- The dash of an item. -/
  | item
  /-- A name, and the value on the same line. -/
  | entry (name : String) (value : Option Yaml)
  | scalar (value : Yaml)

/-- A line, by how far it is indented. An item is deeper than a name in the same column, since a
sequence may stand right under its name. -/
structure Line where
  depth : Nat
  content : Content

/-- The name of the setting that a text makes, between quotes or not, and the text after its
colon. -/
def setting? : List Char → Option (String × List Char)
  | '"' :: rest => do
    let (name, after) ← takeQuoted? rest
    let (gap, after) ← splitName? ' ' after
    if gap.all isBlank then some (String.ofList name, after) else none
  | cs => (splitName? ' ' cs).map fun (name, after) => (String.ofList (trimRight name), after)

/-- The lines of a text that begins in a column. -/
def linesAt? (column : Nat) : List Char → Option (List Line)
  | [] => some []
  | ['-'] => some [⟨2 * column + 1, .item⟩]
  | '#' :: _ => some []
  | ' ' :: rest => linesAt? (column + 1) rest
  | '-' :: ' ' :: rest => (linesAt? (column + 2) rest).map (⟨2 * column + 1, .item⟩ :: ·)
  | cs =>
    match setting? cs with
    | some (name, after) => (inline? after).map fun value => [⟨2 * column, .entry name value⟩]
    | none => (inline? cs).map fun value => (value.map fun y => ⟨2 * column, .scalar y⟩).toList

/-- The lines of a text, without those that are blank or a comment. -/
def lines? (s : String) : Option (List Line) := do
  let physical := (s.toList.splitOn '\n').map trimRight
  some (← physical.mapM (linesAt? 0)).flatten

/-! ### Trees of lines -/

/-- A line with the lines that are under it. -/
inductive Block where
  | mk (line : Line) (under : List Block)

/-- The first line of a block. -/
def Block.line : Block → Line
  | mk line _ => line

/-- How far the first line of a block is indented. -/
def Block.depth (b : Block) : Nat := b.line.depth

/-- The lines as trees: under a line are the lines after it that are indented further. -/
def Line.forest : List Line → List Block
  | [] => []
  | line :: rest =>
    let blocks := forest rest
    .mk line (blocks.takeWhile (line.depth < ·.depth))
      :: blocks.dropWhile (line.depth < ·.depth)

/-- A value put in front of the value of what follows it, where both are items or both settings. -/
def before? (line : Line) (value rest : Yaml) : Option Yaml :=
  match line.content, rest with
  | .item, .plain "" => some (seq [value])
  | .item, .seq items => some (seq (value :: items))
  | .entry name _, .plain "" => some (map [(name, value)])
  | .entry name _, .map entries => some (map ((name, value) :: entries))
  | .scalar _, .plain "" => some value
  | _, _ => none

mutual

/-- The value of a block. A value on the line itself leaves no room for one under it. -/
def Block.value? : Block → Option Yaml
  | .mk line under => do
    let below ← joined? under
    match line.content with
    | .entry _ (some y) | .scalar y => if under.isEmpty then some y else none
    | .entry _ none | .item => some below

/-- The value of blocks that stand under each other. -/
def joined? : List Block → Option Yaml
  | [] => some absent
  | block :: rest => do
    let value ← block.value?
    before? block.line value (← joined? rest)

end

mutual

/-- Whether the blocks in a block are indented alike. -/
def Block.allAligned : Block → Bool
  | .mk _ under => Yaml.allAligned under

/-- Whether each list of blocks in a tree is indented alike. -/
def allAligned : List Block → Bool
  | [] => true
  | block :: rest =>
    rest.head?.all (·.depth = block.depth) && block.allAligned && allAligned rest

end

/-- The value of a text. -/
def ofText? (s : String) : Option Yaml := do
  let blocks := Line.forest (← lines? s)
  if allAligned blocks then joined? blocks else none

end Custody.Yaml
