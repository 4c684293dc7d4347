import Custody.Json.Printer
import Custody.Json.Token

/-!
# The tokens of a written value

A value without inexact numbers is written so that cutting the text gives back the tokens that the
value consists of. Each piece of the text is cut the same way whatever stands after it, as long as
a number or a word is not continued.

* **`Token.scan?_quoted`**: a string between quotes is one token, whatever characters it holds.
* **`Token.scan?_text`**: the text of a value is cut into the tokens of the value.
-/

namespace Custody.Json

open Custody.Text

/-! ### Values and their tokens -/

mutual

/-- Every number in the value is an integer. -/
def Exact : Json → Prop
  | real _ => False
  | arr items => ExactItems items
  | obj members => ExactMembers members
  | _ => True

/-- Every number in a list of values is an integer. -/
def ExactItems : List Json → Prop
  | [] => True
  | j :: rest => j.Exact ∧ ExactItems rest

/-- Every number in a list of members is an integer. -/
def ExactMembers : List (String × Json) → Prop
  | [] => True
  | (_, j) :: rest => j.Exact ∧ ExactMembers rest

end

mutual

/-- The tokens that a value consists of. -/
def tokens : Json → List Token
  | str s => [.str s]
  | arr items => .openArr :: (itemTokens items ++ [.closeArr])
  | obj members => .openObj :: (memberTokens members ++ [.closeObj])
  | j => [.atom j]

/-- The tokens of the items of an array. -/
def itemTokens : List Json → List Token
  | [] => []
  | [j] => j.tokens
  | j :: k :: rest => j.tokens ++ .comma :: itemTokens (k :: rest)

/-- The tokens of the members of an object. -/
def memberTokens : List (String × Json) → List Token
  | [] => []
  | [(name, j)] => .str name :: .colon :: j.tokens
  | (name, j) :: m :: rest =>
    .str name :: .colon :: (j.tokens ++ .comma :: memberTokens (m :: rest))

end

namespace Token

/-! ### Cutting a text -/

theorem scan?_cons {s next : Scan} {c : Char} {ended : List Token}
    (h : step? s c = some (ended, next)) (cs : List Char) :
    scan? s (c :: cs) = (scan? next cs).map (ended ++ ·) := by
  simp [scan?, h]

/-- A step that ends no token. -/
theorem scan?_cons_nil {s t : Scan} {c : Char} (h : step? s c = some ([], t))
    (cs : List Char) : scan? s (c :: cs) = scan? t cs := by
  rw [scan?_cons h]
  simp

/-- A bracket or separator is a token by itself. -/
theorem scan?_mark {c : Char} {t : Token} (hgap : isGap c = false) (hquote : c ≠ '"')
    (h : mark? c = some t) (cs : List Char) :
    scan? .gap (c :: cs) = (scan? .gap cs).map (t :: ·) := by
  have hstep : step? .gap c = some ([t], .gap) := by simp [step?, begin, hgap, hquote, h]
  rw [scan?_cons hstep]
  rfl

/-! ### Strings -/

theorem hexValue?_hexChar : ∀ n < 16, hexValue? (hexChar n) = some n := by
  decide

/-- The letter of an escape is read as the character it stands for. -/
theorem escaped?_of_escapeLetter? {c letter : Char} (h : escapeLetter? c = some letter) :
    escaped? letter = some c ∧ letter ≠ 'u' := by
  unfold escapeLetter? at h
  split at h <;> cases h <;> decide

theorem ne_of_escapeLetter? {c : Char} (h : escapeLetter? c = none) : c ≠ '"' ∧ c ≠ '\\' := by
  constructor <;> rintro rfl <;> simp [escapeLetter?] at h

/-- Four digits that begin with two zeros are the code of a control character. -/
theorem scan?_code {n : Nat} (hn : n < 0x20) (read cs : List Char) :
    scan? (.code read none 0 0) ('0' :: '0' :: hexChar (n / 16) :: hexChar (n % 16) :: cs)
      = scan? (.text (Char.ofNat n :: read)) cs := by
  have hzero : hexValue? '0' = some 0 := by decide
  have hhigh := hexValue?_hexChar (n / 16) (by omega)
  have hlow := hexValue?_hexChar (n % 16) (by omega)
  have hvalue : n / 16 * 16 + n % 16 = n := by omega
  have hlead : isLead n = false := by simp [isLead]; omega
  have htrail : isTrail n = false := by simp [isTrail]; omega
  -- one digit of the code after the other, the first two of them zero
  rw [scan?_cons_nil (t := .code read none 1 0) (by simp [step?, hzero]),
    scan?_cons_nil (t := .code read none 2 0) (by simp [step?, hzero]),
    scan?_cons_nil (t := .code read none 3 (n / 16)) (by simp [step?, hhigh]),
    scan?_cons_nil (t := .text (Char.ofNat n :: read))
      (by simp [step?, hlow, hvalue, endCode?, hlead, htrail])]

/-- **An escaped character is read back.** -/
theorem scan?_escape (c : Char) (read cs : List Char) :
    scan? (.text read) (escape c ++ cs) = scan? (.text (c :: read)) cs := by
  unfold escape
  -- a letter of its own, a code for other control characters, or the character itself
  cases hletter : escapeLetter? c with
  | some letter =>
    obtain ⟨hread, hu⟩ := escaped?_of_escapeLetter? hletter
    show scan? (.text read) ('\\' :: letter :: cs) = _
    rw [scan?_cons_nil (t := .escape read) (by simp [step?]),
      scan?_cons_nil (t := .text (c :: read)) (by simp [step?, hu, hread])]
  | none =>
    obtain ⟨hquote, hbackslash⟩ := ne_of_escapeLetter? hletter
    by_cases hcontrol : c.toNat < 0x20
    · simp only [if_pos hcontrol, List.cons_append, List.nil_append]
      rw [scan?_cons_nil (t := .escape read) (by simp [step?]),
        scan?_cons_nil (t := .code read none 0 0) (by simp [step?]),
        scan?_code hcontrol, Char.ofNat_toNat]
    · simp only [if_neg hcontrol, List.cons_append, List.nil_append]
      rw [scan?_cons_nil (t := .text (c :: read))
        (by simp [step?, hquote, hbackslash, hcontrol])]

theorem scan?_escapes (s read cs : List Char) :
    scan? (.text read) (s.flatMap escape ++ '"' :: cs)
      = (scan? .gap cs).map (.str (String.ofList (read.reverse ++ s)) :: ·) := by
  induction s generalizing read with
  | nil =>
    have hstep : step? (.text read) '"' = some ([.str (String.ofList read.reverse)], .gap) := by
      simp [step?]
    simp [scan?_cons hstep]
  | cons c s ih =>
    rw [List.flatMap_cons, List.append_assoc, scan?_escape, ih]
    simp

/-- **A string between quotes is one token.** -/
theorem scan?_quoted (s : String) (cs : List Char) :
    scan? .gap ((quoted s).toList ++ cs) = (scan? .gap cs).map (.str s :: ·) := by
  have htext : (quoted s).toList ++ cs = '"' :: (s.toList.flatMap escape ++ '"' :: cs) := by
    simp [quoted]
  rw [htext, scan?_cons_nil (t := .text []) rfl, scan?_escapes]
  simp

/-! ### Numbers and words -/

/-- Whether a number or word ends before a character. -/
def endsWord (c : Char) : Bool := isGap c || c = '"' || (mark? c).isSome

/-- No number or word is continued by the text. -/
def Delimited (cs : List Char) : Prop := ∀ c ∈ cs.head?, endsWord c = true

theorem scan?_word {read w cs : List Char} {j : Json} (hw : ∀ c ∈ w, endsWord c = false)
    (hcs : Delimited cs) (hatom : atom? (read.reverse ++ w) = some j) :
    scan? (.word read) (w ++ cs) = (scan? .gap cs).map (.atom j :: ·) := by
  induction w generalizing read with
  | nil =>
    rw [List.append_nil] at hatom
    cases cs with
    | nil => simp [scan?, hatom]
    | cons c cs =>
      have hends : endsWord c = true := hcs c rfl
      -- the word is read when it ends, and the character is looked at as after a gap
      have hstep : step? (.word read) c = some (.atom j :: (begin c).1, (begin c).2) := by
        unfold endsWord at hends
        simp [step?, hends, hatom]
      have hgap : step? .gap c = some ((begin c).1, (begin c).2) := rfl
      rw [List.nil_append, scan?_cons hstep, scan?_cons hgap, Option.map_map]
      rfl
  | cons c w ih =>
    have hends : endsWord c = false := hw c (List.mem_cons_self ..)
    have hstep : step? (.word read) c = some ([], .word (c :: read)) := by
      unfold endsWord at hends
      simp [step?, hends]
    rw [List.cons_append, scan?_cons_nil hstep]
    refine ih (fun d hd => hw d (List.mem_cons_of_mem _ hd)) ?_
    simpa using hatom

/-- **A number or word is one token.** -/
theorem scan?_atom {w cs : List Char} {j : Json} (hne : w ≠ []) (hw : ∀ c ∈ w, endsWord c = false)
    (hcs : Delimited cs) (hatom : atom? w = some j) :
    scan? .gap (w ++ cs) = (scan? .gap cs).map (.atom j :: ·) := by
  cases w with
  | nil => exact absurd rfl hne
  | cons c w =>
    have hends : endsWord c = false := hw c (List.mem_cons_self ..)
    have hbegin : step? .gap c = some ([], .word [c]) := by
      simp only [endsWord, Bool.or_eq_false_iff, Option.isSome_eq_false_iff] at hends
      simp_all [step?, begin]
    rw [List.cons_append, scan?_cons_nil hbegin]
    exact scan?_word (fun d hd => hw d (List.mem_cons_of_mem _ hd)) hcs hatom

/-! ### Integers -/

theorem not_endsWord_of_isDigit {c : Char} (h : c.isDigit = true) : endsWord c = false := by
  rw [Bool.eq_false_iff]
  intro hends
  have hmarks : c ∈ [' ', '\t', '\n', '\r', '"', '[', ']', '\x7b', '\x7d', ':', ','] := by
    unfold endsWord isGap mark? at hends
    split at hends <;> simp_all [or_assoc]
  have hnone : ∀ d ∈ [' ', '\t', '\n', '\r', '"', '[', ']', '\x7b', '\x7d', ':', ','],
      d.isDigit = false := by simp [Char.isDigit]
  rw [hnone c hmarks] at h
  cases h

theorem splitDigits_digits (n : Nat) : splitDigits (digits n) = (digits n, []) := by
  have hall : ∀ c ∈ digits n, c.isDigit = true := fun c hc => isDigit_of_mem_digits hc
  have htake : (digits n ++ []).takeWhile Char.isDigit = digits n ++ [] :=
    List.takeWhile_append_of_pos hall
  have hdrop : (digits n ++ []).dropWhile Char.isDigit = [] := List.dropWhile_append_of_pos hall
  rw [List.append_nil] at htake hdrop
  rw [splitDigits, htake, hdrop]

/-- Only the digits of zero begin with a zero. -/
theorem eq_zero_of_head?_digits {n : Nat} (h : (digits n).head? = some '0') : n = 0 := by
  induction n using Nat.strongRecOn with
  | ind n ih =>
    unfold digits at h
    rw [Nat.toDigits_eq_if (by decide)] at h
    split at h
    · simpa using h
    · next hmore =>
      have hhead : (digits (n / 10)).head? = some '0' := by
        cases hdigits : digits (n / 10) with
        | nil => exact absurd hdigits (digits_ne_nil _)
        | cons c cs =>
          unfold digits at hdigits
          simpa [hdigits] using h
      have := ih (n / 10) (by omega) hhead
      omega

theorem number?_digits (negative : Bool) {n : Nat} (written : String)
    (h : negative = true → n ≠ 0) :
    number? negative (digits n) written = some (.int (if negative then -(n : Int) else n)) := by
  -- digits begin with zero only if there is no other
  have hlead : (digits n).head? = some '0' → (digits n).length = 1 := by
    intro hhead
    rw [eq_zero_of_head?_digits hhead]
    rfl
  have hwhole : ¬((digits n).isEmpty || (digits n).length ≠ 1 && (digits n).head? = some '0') := by
    simp only [Bool.or_eq_true, Bool.and_eq_true, List.isEmpty_iff, decide_eq_true_eq, not_or,
      not_and]
    exact ⟨digits_ne_nil n, fun hlength hhead => hlength (hlead hhead)⟩
  have hzero : ¬(negative && n = 0) := by simpa using h
  simp only [number?, splitDigits_digits, value_digits, if_neg hwhole, if_neg hzero,
    List.isEmpty_nil, if_true]

/-- The characters of an integer are its digits, after a hyphen when it is negative. -/
theorem toList_toString_int (n : Int) :
    (toString n).toList = if n < 0 then '-' :: digits n.natAbs else digits n.natAbs := by
  cases n with
  | ofNat n =>
    show (toString n).toList = _
    simp [digits]
  | negSucc n =>
    show ("-" ++ toString (n + 1)).toList = _
    simp [digits]

/-- A word that begins with a digit is a number without a sign. -/
theorem atom?_of_isDigit {c : Char} (h : c.isDigit = true) (cs : List Char) :
    atom? (c :: cs) = number? false (c :: cs) (String.ofList (c :: cs)) := by
  have hother : ∀ d, d.isDigit = false → c ≠ d := by
    intro d hd heq
    rw [heq, hd] at h
    cases h
  unfold atom?
  -- no word and no sign begins with a digit
  split
  · next heq => exact absurd (List.cons.inj heq).1 (hother '-' (by decide))
  · have hnull : c :: cs ≠ "null".toList := by simp [hother 'n' (by decide)]
    have htrue : c :: cs ≠ "true".toList := by simp [hother 't' (by decide)]
    have hfalse : c :: cs ≠ "false".toList := by simp [hother 'f' (by decide)]
    rw [if_neg hnull, if_neg htrue, if_neg hfalse]

theorem atom?_int (n : Int) : atom? (toString n).toList = some (.int n) := by
  rw [toList_toString_int]
  -- the sign is read first, and what is left are digits
  by_cases hneg : n < 0
  · have hvalue : -(n.natAbs : Int) = n := by omega
    rw [if_pos hneg, atom?, number?_digits true _ (fun _ => by omega), if_pos rfl, hvalue]
  · have hvalue : (n.natAbs : Int) = n := by omega
    have hnumber : atom? (digits n.natAbs)
        = number? false (digits n.natAbs) (String.ofList (digits n.natAbs)) := by
      cases hdigits : digits n.natAbs with
      | nil => exact absurd hdigits (digits_ne_nil _)
      | cons c cs =>
        have hc : c ∈ digits n.natAbs := hdigits ▸ List.mem_cons_self
        exact atom?_of_isDigit (isDigit_of_mem_digits hc) cs
    rw [if_neg hneg, hnumber, number?_digits false _ (by simp), if_neg (by simp), hvalue]

theorem not_endsWord_int (n : Int) : ∀ c ∈ (toString n).toList, endsWord c = false := by
  have hdigits : ∀ c ∈ digits n.natAbs, endsWord c = false := fun c hc =>
    not_endsWord_of_isDigit (isDigit_of_mem_digits hc)
  rw [toList_toString_int]
  split
  · exact List.forall_mem_cons.mpr ⟨by decide, hdigits⟩
  · exact hdigits

/-! ### Values -/

/-- Nothing is continued by a bracket or separator. -/
theorem delimited_mark {c : Char} (h : (mark? c).isSome) (cs : List Char) :
    Delimited (c :: cs) := by
  intro d hd
  cases hd
  simp [endsWord, h]

mutual

/-- **The text of a value is cut into the tokens of the value.** -/
theorem scan?_text : ∀ {j : Json}, j.Exact → ∀ {cs : List Char}, Delimited cs →
    scan? .gap (j.text.toList ++ cs) = (scan? .gap cs).map (j.tokens ++ ·)
  | .null, _, _, hcs =>
    scan?_atom (by decide) (by simp [text, endsWord, isGap, mark?]) hcs rfl
  | .bool true, _, _, hcs =>
    scan?_atom (by decide) (by simp [text, endsWord, isGap, mark?]) hcs rfl
  | .bool false, _, _, hcs =>
    scan?_atom (by decide) (by simp [text, endsWord, isGap, mark?]) hcs rfl
  | .int n, _, _, hcs => by
    have hne : (toString n).toList ≠ [] := by
      rw [toList_toString_int]
      split <;> simp [digits_ne_nil]
    exact scan?_atom hne (not_endsWord_int n) hcs (atom?_int n)
  | .real _, hexact, _, _ => hexact.elim
  | .str s, _, cs, _ => scan?_quoted s cs
  | .arr items, hexact, cs, _ => by
    have htext : (arr items).text.toList ++ cs
        = '[' :: (",".intercalate (itemTexts items)).toList ++ ']' :: cs := by
      simp [text]
    rw [htext, List.cons_append, scan?_mark rfl (by decide) rfl,
      scan?_itemTexts hexact (delimited_mark rfl cs), scan?_mark rfl (by decide) rfl]
    simp [tokens, Function.comp_def]
  | .obj members, hexact, cs, _ => by
    have htext : (obj members).text.toList ++ cs
        = '\x7b' :: (",".intercalate (memberTexts members)).toList ++ '\x7d' :: cs := by
      simp [text]
    rw [htext, List.cons_append, scan?_mark rfl (by decide) rfl,
      scan?_memberTexts hexact (delimited_mark rfl cs), scan?_mark rfl (by decide) rfl]
    simp [tokens, Function.comp_def]

theorem scan?_itemTexts : ∀ {items : List Json}, ExactItems items →
    ∀ {cs : List Char}, Delimited cs →
    scan? .gap ((",".intercalate (itemTexts items)).toList ++ cs)
      = (scan? .gap cs).map (itemTokens items ++ ·)
  | [], _, cs, _ => by simp [itemTexts, itemTokens]
  | [j], hexact, cs, hcs => by
    have htext : (",".intercalate (itemTexts [j])).toList = j.text.toList := by simp [itemTexts]
    rw [htext, scan?_text hexact.1 hcs, itemTokens]
  | j :: k :: rest, hexact, cs, hcs => by
    have htext : (",".intercalate (itemTexts (j :: k :: rest))).toList ++ cs
        = j.text.toList ++ ',' :: ((",".intercalate (itemTexts (k :: rest))).toList ++ cs) := by
      simp [itemTexts]
    rw [htext, scan?_text hexact.1 (delimited_mark rfl _), scan?_mark rfl (by decide) rfl,
      scan?_itemTexts hexact.2 hcs]
    simp [itemTokens, Function.comp_def]

theorem scan?_memberTexts : ∀ {members : List (String × Json)}, ExactMembers members →
    ∀ {cs : List Char}, Delimited cs →
    scan? .gap ((",".intercalate (memberTexts members)).toList ++ cs)
      = (scan? .gap cs).map (memberTokens members ++ ·)
  | [], _, cs, _ => by simp [memberTexts, memberTokens]
  | [(name, j)], hexact, cs, hcs => by
    have htext : (",".intercalate (memberTexts [(name, j)])).toList ++ cs
        = (quoted name).toList ++ ':' :: (j.text.toList ++ cs) := by simp [memberTexts]
    rw [htext, scan?_quoted, scan?_mark rfl (by decide) rfl, scan?_text hexact.1 hcs]
    simp [memberTokens, Function.comp_def]
  | (name, j) :: m :: rest, hexact, cs, hcs => by
    have htext : (",".intercalate (memberTexts ((name, j) :: m :: rest))).toList ++ cs
        = (quoted name).toList ++ ':' :: (j.text.toList
          ++ ',' :: ((",".intercalate (memberTexts (m :: rest))).toList ++ cs)) := by
      simp [memberTexts]
    rw [htext, scan?_quoted, scan?_mark rfl (by decide) rfl,
      scan?_text hexact.1 (delimited_mark rfl _), scan?_mark rfl (by decide) rfl,
      scan?_memberTexts hexact.2 hcs]
    simp [memberTokens, Function.comp_def]

end

end Token

end Custody.Json
