import SpriteTables.Text.Digit

/-!
# Tokens of an operand

An operand is a short sequence of numbers, identifiers and minus signs. The tokens are the longest
ones, read from left to right; an operand with any part that is no token has no tokens at all.
Between tokens four ASCII characters may stand, fewer than the blanks that are trimmed around an
operand. Every token takes at least one character, which is why reading tokens ends
(`length_lt_of_first?`).
-/

set_option autoImplicit false

namespace SpriteTables

open Text (isHexDigit digitsValue)

/-! ## Character classes -/

/-- The characters that may stand between tokens: space, tab, carriage return
and form feed. -/
def isGap (c : Char) : Bool :=
  c == ' ' || c == '\t' || c == '\r' || c == '\x0c'

/-- The characters an identifier may begin with. -/
def isIdentifierStart (c : Char) : Bool :=
  c.isAlpha || c == '_' || c == '.' || c == '@' || c == '?'

/-- The characters an identifier may go on with. -/
def isIdentifierRest (c : Char) : Bool :=
  isIdentifierStart c || c.isDigit

/-- A text is one identifier. -/
def isIdentifier : List Char → Bool
  | [] => false
  | c :: rest => isIdentifierStart c && rest.all isIdentifierRest

/-! ## Tokens -/

/-- A token of an operand. A number is decimal, or after a dollar sign hexadecimal. -/
inductive Token where
  | minus
  | number (value : Nat)
  | identifier (name : String)
deriving DecidableEq, Repr

namespace Token

/-- The bound below which the value of a number token must stay. -/
def numberBound : Nat := 0x8000000000000000

/-- The number that some digits denote, if it is below the bound. -/
def number? (base : Nat) (digits : List Char) : Option Token :=
  if digitsValue base digits < numberBound then some (number (digitsValue base digits))
  else none

/-- The longest token at the very start of a text, with what follows it. -/
def first? : List Char → Option (Token × List Char)
  | [] => none
  | c :: rest =>
      if c = '-' then some (minus, rest)
      else if c = '$' then
        if rest.takeWhile isHexDigit = [] then none
        else (number? 16 (rest.takeWhile isHexDigit)).map (·, rest.dropWhile isHexDigit)
      else if c.isDigit then
        (number? 10 (c :: rest.takeWhile Char.isDigit)).map (·, rest.dropWhile Char.isDigit)
      else if isIdentifierStart c then
        some (identifier (String.ofList (c :: rest.takeWhile isIdentifierRest)),
          rest.dropWhile isIdentifierRest)
      else none

/-- Every token takes at least one character. -/
theorem length_lt_of_first? {cs rest : List Char} {token : Token}
    (h : first? cs = some (token, rest)) : rest.length < cs.length := by
  have hdrop : ∀ (test : Char → Bool) (ds : List Char),
      (ds.dropWhile test).length ≤ ds.length :=
    fun test ds => (List.dropWhile_suffix test).length_le
  cases cs with
  | nil => simp [first?] at h
  | cons c cs =>
      rw [first?] at h
      split at h
      · cases h; simp
      · split at h
        · split at h
          · cases h
          · obtain ⟨_, _, hpair⟩ := Option.map_eq_some_iff.mp h
            cases hpair
            exact Nat.lt_succ_of_le (hdrop _ _)
        · split at h
          · obtain ⟨_, _, hpair⟩ := Option.map_eq_some_iff.mp h
            cases hpair
            exact Nat.lt_succ_of_le (hdrop _ _)
          · split at h
            · cases h
              exact Nat.lt_succ_of_le (hdrop _ _)
            · cases h

end Token

/-- Skipping a gap and one token leaves less than there was. -/
theorem Token.length_lt_of_gap {cs rest after : List Char} {c : Char} {token : Token}
    (hgap : cs.dropWhile isGap = c :: rest)
    (hfirst : first? (c :: rest) = some (token, after)) : after.length < cs.length := by
  have hlt : after.length < (c :: rest).length := length_lt_of_first? hfirst
  have hle : (cs.dropWhile isGap).length ≤ cs.length :=
    (List.dropWhile_suffix isGap).length_le
  rw [hgap] at hle
  exact Nat.lt_of_lt_of_le hlt hle

/-- The tokens of an operand, or nothing when some part of it is no token. -/
def tokens? (cs : List Char) : Option (List Token) :=
  match hgap : cs.dropWhile isGap with
  | [] => some []
  | c :: rest =>
      match hfirst : Token.first? (c :: rest) with
      | none => none
      | some (token, after) =>
          have : after.length < cs.length := Token.length_lt_of_gap hgap hfirst
          (tokens? after).map (token :: ·)
termination_by cs.length

end SpriteTables
