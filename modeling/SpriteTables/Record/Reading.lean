import SpriteTables.Record
import SpriteTables.Statement

/-!
# Reading a record

The words of a record may be spread over several lines and written as words or as pairs of bytes,
of which the high one comes first. A `Reading` is what is known of a record after some operands;
it goes on with each operand (`Reading.take`) and each line (`Reading.resume`) until the record is
complete. The line of the last word must end with it. Blank lines pass; a label, the ending word
or the end of the text interrupts the record.
-/

set_option autoImplicit false

namespace SpriteTables

open Text (Span)

/-- A byte that waits for the low byte of its word, and the place of the operand it was read from.
-/
structure HighByte where
  value : UInt8
  span : Span
deriving DecidableEq, Repr

/-- What is known of a record while it is read. `last` is the operand read last, or the directive
that begins the record; `half` is a byte that waits for its partner. One word is `expected` until
the first one, the header, tells how many there must be. -/
structure Reading where
  last : Span
  half : Option HighByte := none
  header : Option Int16 := none
  payload : Array Int16 := #[]
  expected : Nat := 1
deriving DecidableEq, Repr

/-- What a reading has come to after a line: it needs more words, or the record is complete. -/
inductive Progress where
  | underway (reading : Reading)
  | complete (record : Record)
deriving DecidableEq, Repr

namespace Reading

/-- A reading that begins at a directive. -/
def begin (directive : Directive) : Reading where
  last := directive.span

/-- How many words have been read. -/
def count (r : Reading) : Nat :=
  match r.header with
  | none => 0
  | some _ => 1 + r.payload.size

/-- The record, once all of its words have been read. -/
def record? (r : Reading) : Option Record :=
  match r.header with
  | none => none
  | some header =>
      if r.expected ≤ 1 + r.payload.size then some ⟨header, r.payload.toList⟩ else none

/-! ## Diagnostics -/

/-- A high byte found no partner. -/
def unbalanced (high : HighByte) : Diagnostic :=
  (Diagnostic.of high.span .unbalancedByteOperands).advise .pairBytes

/-- The words ran out. -/
def truncated (r : Reading) : Diagnostic :=
  .of r.last (.truncatedRecord r.expected r.count)

/-- Something other than an operand came next. -/
def interrupted (r : Reading) (line : Span) : Diagnostic :=
  match r.half with
  | some high => (unbalanced high).relate line .interruption
  | none => r.truncated.relate line .interruption

/-- The text ended. -/
def cutOff (r : Reading) : Diagnostic :=
  match r.half with
  | some high => (unbalanced high).advise .endsMidWord
  | none => r.truncated.advise .endsMidRecord

/-- Operands are left over on the line that completes the record. -/
def leftOver (r : Reading) (first : Operand) (rest : List Operand) : Diagnostic :=
  let final := (first :: rest).getLast (List.cons_ne_nil first rest)
  ((Diagnostic.of ⟨first.span.start, final.span.stop⟩
    (.trailingOperands (rest.length + 1))).relate r.last .recordEnd).advise .moveOperands

/-! ## Operands -/

/-- The word of a high and a low byte. -/
def wordOfBytes (high low : UInt8) : Int16 :=
  Int16.ofNat (high.toNat * 256 + low.toNat)

/-- The high byte counts 256 times as much as the low one. -/
theorem toNat_wordOfBytes (high low : UInt8) :
    (wordOfBytes high low).toUInt16.toNat = 256 * high.toNat + low.toNat := by
  have hhigh : high.toNat < 256 := high.toNat_lt
  have hlow : low.toNat < 256 := low.toNat_lt
  have hfits : high.toNat * 256 + low.toNat < 65536 := by omega
  show (high.toNat * 256 + low.toNat) % 65536 = _
  rw [Nat.mod_eq_of_lt hfits, Nat.mul_comm]

/-- Adds a word; the first one must be a count whose record fits. -/
def push (entrySize : Nat) (r : Reading) (word : Int16) : Except Diagnostic Reading :=
  match r.header with
  | some _ => .ok { r with payload := r.payload.push word }
  | none =>
      if word < 0 then
        .error ((Diagnostic.of r.last (.invalidRecordCount word)).advise .countFirst)
      else
        match Record.expectedLength? word.toNatClampNeg entrySize with
        | none =>
            .error ((Diagnostic.of r.last (.invalidRecordCount word)).advise
              (.tooManyWords word.toNatClampNeg entrySize))
        | some expected => .ok { r with header := some word, expected }

/-- Reads one operand of a directive. -/
def take (entrySize : Nat) (width : Width) (r : Reading) (o : Operand) :
    Except Diagnostic Reading :=
  match width, r.half with
  | .byte, none => do
      let high ← o.byte
      return { r with half := some ⟨high, o.span⟩, last := o.span }
  | .byte, some high => do
      let low ← o.byte
      push entrySize { r with half := none, last := o.span } (wordOfBytes high.value low)
  | .word, some high =>
      .error (((unbalanced high).relate o.span .wordOperand).advise .wordCompletesNoPair)
  | .word, none => do
      let word ← o.word
      push entrySize { r with last := o.span } word

/-! ## Lines -/

/-- Reads the operands of one line. -/
def feed (entrySize : Nat) (width : Width) : Reading → List Operand →
    Except Diagnostic Progress
  | r, [] =>
      match r.record? with
      | some record => .ok (.complete record)
      | none => .ok (.underway r)
  | r, o :: rest =>
      match r.record? with
      | some _ => .error (r.leftOver o rest)
      | none =>
          match r.take entrySize width o with
          | .error d => .error d
          | .ok next => feed entrySize width next rest

/-- Goes on with the next line. -/
def resume (entrySize : Nat) (r : Reading) (s : Statement) : Except Diagnostic Progress :=
  match s.label, s.body with
  | none, .empty => .ok (.underway r)
  | none, .directive directive => r.feed entrySize directive.width directive.operands
  | _, _ => .error (r.interrupted s.line.span)

end Reading

end SpriteTables
