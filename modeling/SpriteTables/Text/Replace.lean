/-!
# Filling in a pattern

Every occurrence of a pattern in a text gives way to a value (`replaceAll`). Occurrences are found
from left to right and do not overlap, and the value is not searched again. A text without the
pattern stays as it is (`replaceAll_of_not_infix`).
-/

set_option autoImplicit false

namespace SpriteTables.Text

/-- Goes through a text, passing over the rest of an occurrence of the pattern
that was already replaced. -/
def replaceFrom (pattern value : List Char) : Nat → List Char → List Char
  | _, [] => []
  | pending + 1, _ :: rest => replaceFrom pattern value pending rest
  | 0, c :: rest =>
      if pattern.isPrefixOf (c :: rest) then
        value ++ replaceFrom pattern value (pattern.length - 1) rest
      else c :: replaceFrom pattern value 0 rest

/-- A text with a value in place of every occurrence of a nonempty pattern. -/
def replaceAll (pattern value : List Char) (cs : List Char) : List Char :=
  replaceFrom pattern value 0 cs

/-- A text in which the pattern does not occur stays as it is. -/
theorem replaceAll_of_not_infix {pattern value cs : List Char} (h : ¬ pattern <:+: cs) :
    replaceAll pattern value cs = cs := by
  rw [replaceAll]
  induction cs with
  | nil => rw [replaceFrom]
  | cons c rest ih =>
      have hstart : ¬ pattern.isPrefixOf (c :: rest) = true := fun hp =>
        h (List.isPrefixOf_iff_prefix.mp hp).isInfix
      have hnone : ¬ pattern <:+: rest := fun hrest =>
        h (hrest.trans (List.suffix_cons c rest).isInfix)
      rw [replaceFrom, if_neg hstart, ih hnone]

end SpriteTables.Text
