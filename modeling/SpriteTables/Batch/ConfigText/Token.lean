import SpriteTables.Text.Digit

/-!
# Tokens of a configuration text

A configuration is written in an object notation: punctuation, names, quoted
texts and unsigned numbers, with blanks and comments between them. The tokens end
with an invalid one where the text cannot be read on, so that whoever reads them
meets all faults in the order of the text.

## What this module delivers

- `Token`, `Lexeme`: a token, and a token together with what follows it.
- `afterLineComment`, `afterBlockComment`: comments, of which those between marks
  may contain others.
- `escape?`, `quoted?`, `rawQuoted?`: texts in quotes, with and without escapes.
- `number?`: numbers in four bases, with underscores between digits.
- `step?`, `lexemesOf`: one step, and all the lexemes of a text.
- `length_le_of_step?`: a step leaves less than there was, which is why reading a
  text ends.
-/

set_option autoImplicit false

namespace SpriteTables.Batch.ConfigText

open Text (isHexDigit digitValue digitsValue)

/-! ## Tokens -/

/-- A token of a configuration text. The fields of a record stand between `opening` and `closing`,
the items of a list between `openList` and `closeList`. A marked name may also have dots, signs
and a leading digit. Where no token can be read there is an `invalid` one. -/
inductive Token where
  | opening
  | closing
  | openList
  | closeList
  | colon
  | comma
  | name (text : String) (marked : Bool)
  | text (value : String)
  | number (value : Nat)
  | invalid
deriving DecidableEq, Repr

/-- A token and the characters `after` it. -/
structure Lexeme where
  token : Token
  after : List Char
deriving DecidableEq, Repr

/-! ## Character classes -/

/-- The blanks that may stand between tokens. -/
def isGap (c : Char) : Bool :=
  c == ' ' || c == '\n' || c == '\t' || c == '\r'

/-- The characters a name may begin with. -/
def isNameStart (c : Char) : Bool :=
  c.isAlpha || c == '_'

/-- The characters a name may go on with. -/
def isNameRest (c : Char) : Bool :=
  c.isAlphanum || c == '_'

/-- The characters of a marked name. -/
def isMarkedNameRest (c : Char) : Bool :=
  isNameRest c || c == '.' || c == '+' || c == '-'

/-- The characters a number may consist of. -/
def isNumberRest (c : Char) : Bool :=
  isHexDigit c || c == '_'

/-- Dropping from the front leaves at most what there was. -/
theorem length_dropWhile_le (test : Char → Bool) (cs : List Char) :
    (cs.dropWhile test).length ≤ cs.length :=
  (List.dropWhile_suffix test).length_le

/-! ## Comments -/

/-- What follows a comment that ends with its line. -/
def afterLineComment (cs : List Char) : List Char :=
  cs.dropWhile (· != '\n')

/-- What follows a comment between marks, if it ends. The depth counts the
comments around the innermost one. -/
def afterBlockComment : Nat → List Char → Option (List Char)
  | _, [] => none
  | depth, '/' :: '*' :: rest => afterBlockComment (depth + 1) rest
  | 0, '*' :: '/' :: rest => some rest
  | depth + 1, '*' :: '/' :: rest => afterBlockComment depth rest
  | depth, _ :: rest => afterBlockComment depth rest

theorem length_le_of_afterBlockComment {depth : Nat} {cs rest : List Char}
    (h : afterBlockComment depth cs = some rest) : rest.length ≤ cs.length := by
  fun_induction afterBlockComment depth cs with
  | case1 => cases h
  | case2 depth tail ih =>
      have hle := ih h
      simp only [List.length_cons]
      omega
  | case3 tail =>
      cases h
      simp only [List.length_cons]
      omega
  | case4 depth tail ih =>
      have hle := ih h
      simp only [List.length_cons]
      omega
  | case5 =>
      rename_i ih
      have hle := ih h
      simp only [List.length_cons]
      omega

/-! ## Quoted texts -/

/-- The character with a code point. -/
def charOf? (code : Nat) : Option Char :=
  if code.isValidChar then some (Char.ofNat code) else none

/-- The greatest number of digits in an escaped code point. -/
def codePointDigits : Nat := 6

/-- The character whose code point stands in two digits. -/
def codeUnit? (high low : Char) : Option Char :=
  if isHexDigit high && isHexDigit low then charOf? (digitsValue 16 [high, low]) else none

/-- The character whose code point stands before a closing brace. -/
def codePoint? (cs : List Char) : Option (Char × List Char) :=
  match cs.takeWhile isHexDigit, cs.dropWhile isHexDigit with
  | d :: digits, '}' :: after =>
      if digits.length < codePointDigits then
        (charOf? (digitsValue 16 (d :: digits))).map (·, after)
      else none
  | _, _ => none

/-- The character that an escape denotes, given what follows the backslash. -/
def escape? : List Char → Option (Char × List Char)
  | '\\' :: rest => some ('\\', rest)
  | '"' :: rest => some ('"', rest)
  | '\'' :: rest => some ('\'', rest)
  | 'n' :: rest => some ('\n', rest)
  | 'r' :: rest => some ('\r', rest)
  | 't' :: rest => some ('\t', rest)
  | '0' :: rest => some (Char.ofNat 0, rest)
  | 'x' :: high :: low :: rest => (codeUnit? high low).map (·, rest)
  | 'u' :: '{' :: rest => codePoint? rest
  | _ => none

theorem length_le_of_codePoint? {cs rest : List Char} {c : Char}
    (h : codePoint? cs = some (c, rest)) : rest.length ≤ cs.length := by
  rw [codePoint?] at h
  split at h
  · next hafter =>
      split at h
      · obtain ⟨_, _, hpair⟩ := Option.map_eq_some_iff.mp h
        cases hpair
        have hle := length_dropWhile_le isHexDigit cs
        rw [hafter] at hle
        simp only [List.length_cons] at hle
        omega
      · cases h
  · cases h

/-- An escape takes at least one character. -/
theorem length_lt_of_escape? {cs rest : List Char} {c : Char}
    (h : escape? cs = some (c, rest)) : rest.length < cs.length := by
  rw [escape?.eq_def] at h
  split at h
  case h_8 =>
    obtain ⟨_, _, hpair⟩ := Option.map_eq_some_iff.mp h
    cases hpair
    simp only [List.length_cons]
    omega
  case h_9 =>
    have hle := length_le_of_codePoint? h
    simp only [List.length_cons]
    omega
  all_goals
    cases h
    try simp

/-- The text up to a quote, its escapes resolved, and what follows the quote. -/
def quoted? : List Char → Option (List Char × List Char)
  | [] => none
  | '"' :: rest => some ([], rest)
  | '\\' :: rest =>
      match h : escape? rest with
      | none => none
      | some (c, after) =>
          have : after.length < rest.length := length_lt_of_escape? h
          (quoted? after).map fun (cs, last) => (c :: cs, last)
  | c :: rest => (quoted? rest).map fun (cs, last) => (c :: cs, last)
termination_by cs => cs.length

theorem length_le_of_quoted? {cs value last : List Char}
    (h : quoted? cs = some (value, last)) : last.length ≤ cs.length := by
  fun_induction quoted? cs generalizing value last with
  | case1 => cases h
  | case2 rest =>
      cases h
      simp only [List.length_cons]
      omega
  | case3 => cases h
  | case4 rest c after hescape hlt ih =>
      obtain ⟨_, hquoted, hpair⟩ := Option.map_eq_some_iff.mp h
      cases hpair
      have hle := ih hquoted
      simp only [List.length_cons]
      omega
  | case5 =>
      rename_i ih
      obtain ⟨_, hquoted, hpair⟩ := Option.map_eq_some_iff.mp h
      cases hpair
      have hle := ih hquoted
      simp only [List.length_cons]
      omega

/-- The characters before the first occurrence of an ending, and what follows it. -/
def cutAtEnding (ending : List Char) : List Char → Option (List Char × List Char)
  | [] => none
  | c :: rest =>
      if ending.isPrefixOf (c :: rest) then some ([], (c :: rest).drop ending.length)
      else (cutAtEnding ending rest).map fun (cs, last) => (c :: cs, last)

theorem length_le_of_cutAtEnding {ending cs value last : List Char}
    (h : cutAtEnding ending cs = some (value, last)) : last.length ≤ cs.length := by
  induction cs generalizing value last with
  | nil => cases h
  | cons c rest ih =>
      rw [cutAtEnding] at h
      split at h
      · cases h
        simp only [List.length_drop]
        omega
      · obtain ⟨_, hcut, hpair⟩ := Option.map_eq_some_iff.mp h
        cases hpair
        have hle := ih hcut
        simp only [List.length_cons]
        omega

/-- The text between quotes without escapes. As many number signs stand before
the first quote as after the last one. -/
def rawQuoted? (cs : List Char) : Option (List Char × List Char) :=
  match cs.dropWhile (· == '#') with
  | '"' :: body => cutAtEnding ('"' :: cs.takeWhile (· == '#')) body
  | _ => none

theorem length_le_of_rawQuoted? {cs value last : List Char}
    (h : rawQuoted? cs = some (value, last)) : last.length ≤ cs.length := by
  rw [rawQuoted?] at h
  split at h
  · next hbody =>
      have hcut := length_le_of_cutAtEnding h
      have hle := length_dropWhile_le (· == '#') cs
      rw [hbody] at hle
      simp only [List.length_cons] at hle
      omega
  · cases h

/-! ## Numbers -/

/-- The base of a number and what follows its mark. -/
def baseOf : List Char → Nat × List Char
  | '0' :: 'x' :: rest => (16, rest)
  | '0' :: 'b' :: rest => (2, rest)
  | '0' :: 'o' :: rest => (8, rest)
  | cs => (10, cs)

/-- The value of digits in a base, with underscores after the first of them. -/
def valueOf? (base : Nat) (written : List Char) : Option Nat :=
  let digits := written.filter (· != '_')
  if written.head? = some '_' ∨ digits.any (base ≤ digitValue ·) then none
  else some (digitsValue base digits)

/-- The number at the start of a text. -/
def number? (cs : List Char) : Option (Nat × List Char) :=
  let (base, body) := baseOf cs
  match body with
  | [] => none
  | c :: rest =>
      if isNumberRest c then
        (valueOf? base (c :: rest.takeWhile isNumberRest)).map (·, rest.dropWhile isNumberRest)
      else none

theorem length_baseOf_le (cs : List Char) : (baseOf cs).2.length ≤ cs.length := by
  rw [baseOf.eq_def]
  split <;> simp only [List.length_cons] <;> omega

/-- A number takes at least one character. -/
theorem length_lt_of_number? {cs last : List Char} {value : Nat}
    (h : number? cs = some (value, last)) : last.length < cs.length := by
  have hbase := length_baseOf_le cs
  simp only [number?] at h
  split at h
  · cases h
  · next c rest hbody =>
      rw [hbody, List.length_cons] at hbase
      split at h
      · obtain ⟨_, _, hpair⟩ := Option.map_eq_some_iff.mp h
        cases hpair
        have hle := length_dropWhile_le isNumberRest rest
        omega
      · cases h

/-! ## Lexemes -/

/-- A name whose first character is given. It is invalid if it could only be read
on as a marked one. -/
def plainName? (c : Char) (rest : List Char) : Option (Token × List Char) :=
  let after := rest.dropWhile isNameRest
  if after.head?.any isMarkedNameRest then none
  else some (.name (String.ofList (c :: rest.takeWhile isNameRest)) false, after)

/-- A text in quotes, as a token. -/
def textToken (read : List Char × List Char) : Token × List Char :=
  (.text (String.ofList read.1), read.2)

/-- What begins with the letter that marks names and texts: a marked name, a text
without escapes, or a plain name. -/
def marked? : List Char → Option (Token × List Char)
  | [] => none
  | ['#'] => none
  | '#' :: c :: rest =>
      if isMarkedNameRest c then
        some (.name (String.ofList (c :: rest.takeWhile isMarkedNameRest)) true,
          rest.dropWhile isMarkedNameRest)
      else (rawQuoted? ('#' :: c :: rest)).map textToken
  | '"' :: rest => (rawQuoted? ('"' :: rest)).map textToken
  | rest => plainName? 'r' rest

/-- What follows a comment, given what follows its slash. -/
def afterComment? : List Char → Option (List Char)
  | '/' :: rest => some (afterLineComment rest)
  | '*' :: rest => afterBlockComment 0 rest
  | _ => none

/-- The token of a punctuation mark. -/
def punctuation? : Char → Option Token
  | '(' => some .opening
  | ')' => some .closing
  | '[' => some .openList
  | ']' => some .closeList
  | ':' => some .colon
  | ',' => some .comma
  | _ => none

/-- The token that begins with a character, and what follows it. -/
def token? (c : Char) (rest : List Char) : Option (Token × List Char) :=
  if c = '"' then (quoted? rest).map textToken
  else if c = 'r' then marked? rest
  else if isNameStart c then plainName? c rest
  else if c.isDigit then (number? (c :: rest)).map fun (value, last) => (.number value, last)
  else (punctuation? c).map (·, rest)

/-- One step through a text: a token, or nothing for a gap or a comment. -/
def step? (c : Char) (rest : List Char) : Option (Option Token × List Char) :=
  if isGap c then some (none, rest)
  else if c = '/' then (afterComment? rest).map (none, ·)
  else (token? c rest).map fun (token, last) => (some token, last)

theorem length_le_of_plainName? {c : Char} {rest last : List Char} {token : Token}
    (h : plainName? c rest = some (token, last)) : last.length ≤ rest.length := by
  simp only [plainName?] at h
  split at h
  · cases h
  · cases h
    exact length_dropWhile_le isNameRest rest

theorem length_le_of_textToken {read : Option (List Char × List Char)} {token : Token}
    {cs last : List Char}
    (hread : ∀ value after, read = some (value, after) → after.length ≤ cs.length)
    (h : read.map textToken = some (token, last)) : last.length ≤ cs.length := by
  obtain ⟨⟨value, after⟩, hsome, hpair⟩ := Option.map_eq_some_iff.mp h
  cases hpair
  exact hread value after hsome

theorem length_le_of_marked? {cs last : List Char} {token : Token}
    (h : marked? cs = some (token, last)) : last.length ≤ cs.length := by
  rw [marked?.eq_def] at h
  split at h
  · cases h
  · cases h
  · split at h
    · cases h
      have hle := length_dropWhile_le isMarkedNameRest ‹List Char›
      simp only [List.length_cons]
      omega
    · exact length_le_of_textToken (fun _ _ => length_le_of_rawQuoted?) h
  · exact length_le_of_textToken (fun _ _ => length_le_of_rawQuoted?) h
  · exact length_le_of_plainName? h

theorem length_le_of_afterComment? {cs last : List Char} (h : afterComment? cs = some last) :
    last.length ≤ cs.length := by
  rw [afterComment?.eq_def] at h
  split at h
  · cases h
    have hle := length_dropWhile_le (· != '\n') ‹List Char›
    simp only [afterLineComment, List.length_cons]
    omega
  · have hle := length_le_of_afterBlockComment h
    simp only [List.length_cons]
    omega
  · cases h

theorem length_le_of_token? {c : Char} {rest last : List Char} {token : Token}
    (h : token? c rest = some (token, last)) : last.length ≤ rest.length := by
  rw [token?] at h
  split at h
  · exact length_le_of_textToken (fun _ _ => length_le_of_quoted?) h
  · split at h
    · exact length_le_of_marked? h
    · split at h
      · exact length_le_of_plainName? h
      · split at h
        · obtain ⟨⟨value, after⟩, hnumber, hpair⟩ := Option.map_eq_some_iff.mp h
          cases hpair
          have hlt := length_lt_of_number? hnumber
          simp only [List.length_cons] at hlt
          omega
        · obtain ⟨_, _, hpair⟩ := Option.map_eq_some_iff.mp h
          cases hpair
          exact Nat.le_refl _

/-- A step takes at least the character that it begins with. -/
theorem length_le_of_step? {c : Char} {rest last : List Char} {token : Option Token}
    (h : step? c rest = some (token, last)) : last.length ≤ rest.length := by
  rw [step?] at h
  split at h
  · cases h
    exact Nat.le_refl _
  · split at h
    · obtain ⟨_, hcomment, hpair⟩ := Option.map_eq_some_iff.mp h
      cases hpair
      exact length_le_of_afterComment? hcomment
    · obtain ⟨⟨_, _⟩, htoken, hpair⟩ := Option.map_eq_some_iff.mp h
      cases hpair
      exact length_le_of_token? htoken

/-- All lexemes of a text. The last one is invalid if the text cannot be read to
its end. -/
def lexemesOf : List Char → List Lexeme
  | [] => []
  | c :: rest =>
      match h : step? c rest with
      | none => [⟨.invalid, rest⟩]
      | some (token, after) =>
          have : after.length ≤ rest.length := length_le_of_step? h
          token.toList.map (⟨·, after⟩) ++ lexemesOf after
termination_by cs => cs.length

end SpriteTables.Batch.ConfigText
