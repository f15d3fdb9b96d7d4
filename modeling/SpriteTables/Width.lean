/-!
# Operand widths

A directive stores its operands either as bytes or as words. The width decides the directive's
keyword and which values an operand may have. A value may be written signed or unsigned, so the
accepted range joins both. Numbers of things, unlike operands, have 64 bits (`sizeBound`).
-/

set_option autoImplicit false

namespace SpriteTables

/-- The bound of sizes, counts and offsets: the least number that does not fit into 64 bits. -/
def sizeBound : Nat := 0x10000000000000000

/-- How wide the operands of a directive are: eight bits or sixteen. -/
inductive Width where
  | byte
  | word
deriving DecidableEq, Repr, Inhabited

namespace Width

/-- The keyword of a directive with operands of this width. -/
def keyword : Width → String
  | byte => "dc.b"
  | word => "dc.w"

/-- The width that a keyword stands for. -/
def ofKeyword? (text : String) : Option Width :=
  if text = byte.keyword then some byte
  else if text = word.keyword then some word
  else none

/-- The least value of an operand, the least signed one. -/
def least : Width → Int
  | byte => -0x80
  | word => -0x8000

/-- The greatest value of an operand, the greatest unsigned one. -/
def greatest : Width → Int
  | byte => 0xFF
  | word => 0xFFFF

/-- Only the keyword of a width names that width. -/
theorem ofKeyword?_eq_some_iff {text : String} {width : Width} :
    ofKeyword? text = some width ↔ text = width.keyword := by
  constructor
  · intro h
    rw [ofKeyword?] at h
    split at h
    · cases h; assumption
    · split at h
      · cases h; assumption
      · cases h
  · rintro rfl
    cases width <;> rfl

end Width

end SpriteTables
