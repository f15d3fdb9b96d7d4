import SpriteTables.Proofs.Record.Decoding
import SpriteTables.Proofs.Statement.Grammar

/-!
# Records that are left incomplete

A record can end before its words are complete, or on a line that goes on after them. Which of
this is reported depends on whether a byte waits for its partner, on what stands where an operand
should, and on how many words were read. This module gives the operands and lines at which each of
these failures is reported (`Incomplete`), and shows that every other failure is that of a part
that cannot be read (`Unreadable`, `readRecord_failsWith_iff`).
-/

set_option autoImplicit false

namespace SpriteTables

open Text (Span Line linesOf)

/-! ## What the parts of a line are reported for -/

/-- The causes of a record that is left incomplete. -/
def Cause.ofIncomplete : Cause → Bool
  | truncatedRecord _ _ | unbalancedByteOperands | trailingOperands _ => true
  | malformedDirective _ | malformedLiteral _ | malformedLabel _ | malformedTableEntry _
  | duplicateLabel _ | invalidRecordCount _ | unlabelledRecord => false

section Parts

variable {line : Line} {s : Statement} {directive : Directive} {d : Diagnostic} {o : Operand}

/-- An operand that is no number of its width is a malformed literal. -/
theorem Operand.fault_of_bounded {width : Width} (h : o.bounded width = .error d) :
    d.cause = .malformedLiteral o.text ∧ d.primary = o.span := by
  rw [bounded] at h
  split at h
  · cases h
    exact ⟨rfl, rfl⟩
  · split at h
    · cases h
    · cases h
      exact ⟨rfl, rfl⟩

/-- A line that is no statement is not reported as an incomplete record. -/
theorem Statement.ofIncomplete_of_ofLine (h : Statement.ofLine line = .error d) :
    d.cause.ofIncomplete = false := by
  rcases cause_of_ofLine h with ⟨text, hcause⟩ | ⟨fault, hcause⟩
  · rw [hcause]
    rfl
  · rw [hcause]
    rfl

/-- The directive on a line has operands. -/
theorem Directive.operands_ne_nil_of_ofLine (hstatement : Statement.ofLine line = .ok s)
    (hbody : s.body = .directive directive) : directive.operands ≠ [] := by
  have hlength := Statement.length_operands_of_ofLine hstatement hbody
  apply List.ne_nil_of_length_pos
  omega

end Parts

/-! ## Operands down to a line -/

/-- A record has some operands, in order, down to the end of some lines below its directive,
and the last of these lines has others; further lines follow. -/
def Collects (directive : Directive) (lines rest : List Line)
    (operands last : List (Width × Operand)) : Prop :=
  ∃ taken sized, lines = taken ++ rest ∧ sizedOver? taken = some sized ∧
    operands = directive.sized ++ sized ∧ last = onLast directive.sized taken

section Collects

variable {entrySize : Nat} {directive : Directive} {lines rest : List Line}
  {operands last front more now sized : List (Width × Operand)} {taken : List Line}
  {first : Width × Operand}

/-- Every operand stands on the last of the lines down to it. -/
theorem exists_line_of_split (hsized : sizedOver? taken = some sized)
    (hsplit : now ++ sized = front ++ first :: more) :
    ∃ above below sized' before done more', taken = above ++ below ∧
      sizedOver? above = some sized' ∧ now ++ sized' = before ++ onLast now above ∧
      front = before ++ done ∧ onLast now above = done ++ first :: more' := by
  induction taken using List.reverseRecOn generalizing sized more with
  | nil =>
      cases hsized
      rw [List.append_nil] at hsplit
      exact ⟨[], [], [], [], front, more, rfl, rfl, List.append_nil now, rfl, hsplit⟩
  | append_singleton taken line ih =>
      obtain ⟨init, onLine, hinit, hline, rfl⟩ := sizedOver?_concat_iff.mp hsized
      rw [← List.append_assoc] at hsplit
      have hhere : ∀ done, front = now ++ init ++ done → onLine = done ++ first :: more →
          ∃ above below sized' before done more', taken ++ [line] = above ++ below ∧
            sizedOver? above = some sized' ∧ now ++ sized' = before ++ onLast now above ∧
            front = before ++ done ∧ onLast now above = done ++ first :: more' := by
        intro done hfront honLine
        refine ⟨taken ++ [line], [], init ++ onLine, now ++ init, done, more,
          (List.append_nil _).symm, hsized, ?_, hfront, ?_⟩
        · rw [onLast_concat now hline, List.append_assoc]
        · rw [onLast_concat now hline, honLine]
      rcases List.append_eq_append_iff.mp hsplit with
        ⟨done, hfront, honLine⟩ | ⟨between, hfront, hmore⟩
      · exact hhere done hfront honLine
      · cases between with
        | nil =>
            rw [List.append_nil] at hfront
            exact hhere [] (by rw [List.append_nil, hfront]) hmore.symm
        | cons o between =>
            obtain ⟨rfl, -⟩ := List.cons.inj hmore
            obtain ⟨above, below, sized', before, done, more', rfl, hrest⟩ := ih hinit hfront
            exact ⟨above, below ++ [line], sized', before, done, more',
              List.append_assoc _ _ _, hrest⟩

/-- A record has operands when its directive has. -/
theorem operands_ne_nil_of_collects (hne : directive.operands ≠ [])
    (h : Collects directive lines rest operands last) : operands ≠ [] := by
  obtain ⟨taken, sized, -, -, rfl, -⟩ := h
  intro hnil
  exact hne (List.map_eq_nil_iff.mp (List.append_eq_nil_iff.mp hnil).1)

/-- Operands after which no byte waits spell a word. -/
theorem exists_word_of_spell? {words : List Int16} (hne : operands ≠ [])
    (hspell : spell? operands = some ⟨words, none⟩) :
    ∃ front width o header payload, operands = front ++ [(width, o)] ∧
      words = header :: payload := by
  obtain ⟨front, ⟨width, o⟩, rfl⟩ := (List.eq_nil_or_concat' operands).resolve_left hne
  rw [spell?_concat] at hspell
  obtain ⟨s, -, hadd⟩ := Option.bind_eq_some_iff.mp hspell
  obtain ⟨word, rfl⟩ := Spelling.exists_word_of_add? hadd
  obtain ⟨header, payload, hwords⟩ := List.exists_cons_of_ne_nil (List.concat_ne_nil word s.words)
  exact ⟨front, width, o, header, payload, rfl, hwords⟩

end Collects

/-! ## What is reported -/

/-- A reading fails for a cause, reported at a place. -/
def FailsWith {α : Type} (outcome : Except Diagnostic α) (cause : Cause) (primary : Span) : Prop :=
  ∃ d, outcome = .error d ∧ d.cause = cause ∧ d.primary = primary

/-- A record is left incomplete, which is reported for a cause and at a place: a word operand
comes where a byte waits for its partner, or the record cannot go on while a byte waits or only
words are missing, or operands are left on the line of its last one. In all cases but the last one
words are missing, and the first word, if there is one, is a count. -/
inductive Incomplete (entrySize : Nat) (directive : Directive) (lines : List Line) :
    Cause → Span → Prop where
  | wordOperand {rest : List Line} {operands last front more : List (Width × Operand)}
      {o : Operand} {words : List Int16} {high : HighByte}
      (hcollects : Collects directive lines rest operands last)
      (hword : operands = front ++ (.word, o) :: more)
      (hspell : spell? front = some ⟨words, some high⟩) (hlacks : Lacks entrySize words) :
      Incomplete entrySize directive lines .unbalancedByteOperands high.span
  | byteLeft {rest : List Line} {operands last : List (Width × Operand)} {words : List Int16}
      {high : HighByte} (hcollects : Collects directive lines rest operands last)
      (hspell : spell? operands = some ⟨words, some high⟩) (hlacks : Lacks entrySize words)
      (hstops : StopsAt rest) :
      Incomplete entrySize directive lines .unbalancedByteOperands high.span
  | wordsMissing {rest : List Line} {front last : List (Width × Operand)} {width : Width}
      {o : Operand} {header : Int16} {payload : List Int16}
      (hcollects : Collects directive lines rest (front ++ [(width, o)]) last)
      (hspell : spell? (front ++ [(width, o)]) = some ⟨header :: payload, none⟩)
      (hlacks : Lacks entrySize (header :: payload)) (hstops : StopsAt rest) :
      Incomplete entrySize directive lines
        (.truncatedRecord (1 + header.toNatClampNeg * entrySize) (payload.length + 1)) o.span
  | operandsLeft {rest : List Line} {operands last front done more : List (Width × Operand)}
      {width : Width} {o : Operand} {record : Record}
      (hcollects : Collects directive lines rest operands last)
      (hoperands : operands = front ++ (width, o) :: more)
      (hlast : last = done ++ (width, o) :: more) (hdone : done ≠ [])
      (hspell : spell? front = some ⟨record.words, none⟩) (hfits : record.Fits entrySize) :
      Incomplete entrySize directive lines (.trailingOperands (more.length + 1)) (spanFrom o more)

/-- Words of a record are missing, and what comes next for it cannot be read, which is reported
for a cause and at a place: the next line is no statement, or the next operand is no number of its
width, or completes a first word that is no count. -/
inductive Unreadable (entrySize : Nat) (directive : Directive) (lines : List Line) :
    Cause → Span → Prop where
  | line {line : Line} {rest : List Line} {operands last : List (Width × Operand)}
      {s : Spelling} {d : Diagnostic}
      (hcollects : Collects directive lines (line :: rest) operands last)
      (hspell : spell? operands = some s) (hlacks : Lacks entrySize s.words)
      (hline : Statement.ofLine line = .error d) :
      Unreadable entrySize directive lines d.cause d.primary
  | literal {rest : List Line} {operands last front more : List (Width × Operand)}
      {width : Width} {o : Operand} {s : Spelling} {d : Diagnostic}
      (hcollects : Collects directive lines rest operands last)
      (hoperands : operands = front ++ (width, o) :: more) (hspell : spell? front = some s)
      (hlacks : Lacks entrySize s.words) (hwaiting : width = .word → s.waiting = none)
      (hnumber : o.bounded width = .error d) :
      Unreadable entrySize directive lines (.malformedLiteral o.text) o.span
  | count {rest : List Line} {operands last front more : List (Width × Operand)} {width : Width}
      {o : Operand} {header : Int16} (hcollects : Collects directive lines rest operands last)
      (hoperands : operands = front ++ (width, o) :: more)
      (hspell : spell? (front ++ [(width, o)]) = some ⟨[header], none⟩)
      (hcount : ¬ Counted entrySize [header]) :
      Unreadable entrySize directive lines (.invalidRecordCount header) o.span

section Failures

variable {entrySize : Nat} {directive : Directive} {lines rest : List Line}
  {operands last front more : List (Width × Operand)} {width : Width} {o : Operand} {s : Spelling}
  {cause : Cause} {primary : Span} {fault : Cause × Span}

theorem failsWith_iff_ends :
    FailsWith (readRecord entrySize directive lines) cause primary ↔
      Ends entrySize directive.span [] directive.sized lines (.error (cause, primary)) := by
  rw [← faultOf_readRecord_eq_iff, FailsWith]
  cases readRecord entrySize directive lines <;> simp [faultOf, Except.mapError]

/-- A record ends at an operand that is refused, whichever line it is on. -/
theorem ends_of_refuses (hcollects : Collects directive lines rest operands last)
    (hoperands : operands = front ++ (width, o) :: more) (hspell : spell? front = some s)
    (hlacks : Lacks entrySize s.words) (hrefuses : Refuses entrySize front width o fault) :
    Ends entrySize directive.span [] directive.sized lines (.error fault) := by
  obtain ⟨taken, sized, rfl, hsized, rfl, -⟩ := hcollects
  obtain ⟨above, below, sized', before, done, more', rfl, hsized', hbefore, rfl, honLine⟩ :=
    exists_line_of_split hsized hoperands
  obtain ⟨s', hspell', hpart⟩ := exists_spell?_of_append hspell
  apply Ends.broken (List.append_assoc above below rest) hsized' hbefore hspell'
    (hlacks.of_prefix hpart)
  rw [honLine]
  exact .refused hspell hlacks hrefuses

theorem ends_of_incomplete (h : Incomplete entrySize directive lines cause primary) :
    Ends entrySize directive.span [] directive.sized lines (.error (cause, primary)) := by
  cases h with
  | wordOperand hcollects hword hspell hlacks =>
      exact ends_of_refuses hcollects hword hspell hlacks (.unbalanced hspell)
  | @byteLeft rest operands last words high hcollects hspell hlacks hstops =>
      obtain ⟨taken, sized, hlines, hsized, rfl, -⟩ := hcollects
      exact .stopped (s := ⟨words, some high⟩) hlines hsized hspell hlacks hstops
  | @wordsMissing rest front last width o header payload hcollects hspell hlacks hstops =>
      obtain ⟨taken, sized, hlines, hsized, hoperands, -⟩ := hcollects
      have hlast : o.span = (((directive.sized ++ sized).getLast?.map (·.2.span)).getD
          directive.span) := by
        rw [← hoperands, List.getLast?_concat]
        rfl
      rw [hoperands] at hspell
      rw [hlast]
      exact .stopped (s := ⟨header :: payload, none⟩) hlines hsized hspell hlacks hstops
  | @operandsLeft rest operands last front done more width o record hcollects hoperands hlast
      hdone hspell hfits =>
      obtain ⟨taken, sized, hlines, hsized, rfl, honLine⟩ := hcollects
      obtain ⟨before, hbefore⟩ := exists_eq_append_onLast [] directive.sized hsized
      rw [← honLine, hlast] at hbefore
      have hfront : front = before ++ done := by
        have hsplit := hoperands.symm.trans hbefore
        rw [← List.append_assoc] at hsplit
        exact List.append_cancel_right hsplit
      rw [hfront] at hspell
      obtain ⟨s, hspell', hlacks⟩ := exists_lacks_of_complete hdone hspell hfits
      rw [← hlast, honLine] at hbefore
      apply Ends.broken hlines hsized hbefore hspell' hlacks
      rw [← honLine, hlast]
      exact .leftOver hdone hspell hfits

theorem ends_of_unreadable (h : Unreadable entrySize directive lines cause primary) :
    Ends entrySize directive.span [] directive.sized lines (.error (cause, primary)) := by
  cases h with
  | line hcollects hspell hlacks hline =>
      obtain ⟨taken, sized, hlines, hsized, rfl, -⟩ := hcollects
      exact .unread hlines hsized hspell hlacks hline
  | @literal rest operands last front more width o s d hcollects hoperands hspell hlacks hwaiting
      hnumber =>
      apply ends_of_refuses hcollects hoperands hspell hlacks
      obtain ⟨hcause, hprimary⟩ := Operand.fault_of_bounded hnumber
      rw [← hcause, ← hprimary]
      obtain ⟨words, waiting⟩ := s
      cases width with
      | byte => exact .byte (map_eq_error_iff.mpr hnumber)
      | word =>
          cases hwaiting rfl
          exact .word hspell (map_eq_error_iff.mpr hnumber)
  | @count rest operands last front more width o header hcollects hoperands hspell hcount =>
      obtain ⟨s, hfront, hadd⟩ := Option.bind_eq_some_iff.mp
        ((spell?_concat front width o).symm.trans hspell)
      obtain ⟨word, hwords⟩ := Spelling.exists_word_of_add? hadd
      have hnil : s.words = [] := by
        cases hs : s.words with
        | nil => rfl
        | cons first others => simp [hs] at hwords
      exact ends_of_refuses hcollects hoperands hfront (hnil ▸ .nil) (.count hspell hcount)

/-- A record with an operand that is refused is left incomplete, or the operand cannot be
read. -/
theorem incomplete_or_unreadable_of_refuses
    (hcollects : Collects directive lines rest operands last)
    (hoperands : operands = front ++ (width, o) :: more) (hspell : spell? front = some s)
    (hlacks : Lacks entrySize s.words)
    (hrefuses : Refuses entrySize front width o (cause, primary)) :
    Incomplete entrySize directive lines cause primary ∨
      Unreadable entrySize directive lines cause primary := by
  have hliteral : ∀ d, (width = .word → s.waiting = none) → o.bounded width = .error d →
      Unreadable entrySize directive lines d.cause d.primary := by
    intro d hwaiting hnumber
    obtain ⟨hcause, hprimary⟩ := Operand.fault_of_bounded hnumber
    rw [hcause, hprimary]
    exact .literal hcollects hoperands hspell hlacks hwaiting hnumber
  cases hrefuses with
  | unbalanced hhalf =>
      cases hspell.symm.trans hhalf
      exact Or.inl (.wordOperand hcollects hoperands hhalf hlacks)
  | byte hbyte =>
      exact Or.inr (hliteral _ (fun h => by cases h) (map_eq_error_iff.mp hbyte))
  | word hnone hword =>
      cases hspell.symm.trans hnone
      exact Or.inr (hliteral _ (fun _ => rfl) (map_eq_error_iff.mp hword))
  | count hfirst hcount => exact Or.inr (.count hcollects hoperands hfirst hcount)

/-- A record that fails is left incomplete, or a part of it cannot be read. -/
theorem incomplete_or_unreadable_of_ends (hne : directive.operands ≠ [])
    (h : Ends entrySize directive.span [] directive.sized lines (.error (cause, primary))) :
    Incomplete entrySize directive lines cause primary ∨
      Unreadable entrySize directive lines cause primary := by
  generalize houtcome : Except.error (cause, primary) = outcome at h
  cases h with
  | complete => cases houtcome
  | @broken taken rest sized before s fault hlines hsized hbefore hspell hlacks hbreaks =>
      cases houtcome
      generalize hlast : onLast directive.sized taken = last at hbefore hbreaks
      have hcollects : Collects directive lines rest (directive.sized ++ sized) last :=
        ⟨taken, sized, hlines, hsized, rfl, hlast.symm⟩
      generalize hfault : (cause, primary) = fault at hbreaks
      cases hbreaks with
      | refused hspell hlacks hrefuses =>
          have hoperands := hbefore.trans (List.append_assoc _ _ _).symm
          rw [← hfault] at hrefuses
          exact incomplete_or_unreadable_of_refuses hcollects hoperands hspell hlacks hrefuses
      | leftOver hdone hspell hfits =>
          cases hfault
          have hoperands := hbefore.trans (List.append_assoc _ _ _).symm
          exact Or.inl (.operandsLeft hcollects hoperands rfl hdone hspell hfits)
  | @stopped taken rest sized s hlines hsized hspell hlacks hstops =>
      have hcollects : Collects directive lines rest (directive.sized ++ sized)
          (onLast directive.sized taken) := ⟨taken, sized, hlines, hsized, rfl, rfl⟩
      have hfault : (cause, primary) = stopFault entrySize directive.span
          (directive.sized ++ sized) s := Except.error.inj houtcome
      obtain ⟨words, waiting⟩ := s
      cases waiting with
      | some high =>
          cases hfault
          exact Or.inl (.byteLeft hcollects hspell hlacks hstops)
      | none =>
          obtain ⟨front, width, o, header, payload, hoperands, rfl⟩ :=
            exists_word_of_spell? (operands_ne_nil_of_collects hne hcollects) hspell
          have hspell' : spell? (directive.sized ++ sized) = _ := hspell
          rw [hoperands] at hcollects hspell' hfault
          rw [stopFault, List.getLast?_concat] at hfault
          cases hfault
          exact Or.inl (.wordsMissing hcollects hspell' hlacks hstops)
  | @unread taken rest line sized s d hlines hsized hspell hlacks hline =>
      cases houtcome
      exact Or.inr (.line ⟨taken, sized, hlines, hsized, rfl, rfl⟩ hspell hlacks hline)

theorem ofIncomplete_of_incomplete (h : Incomplete entrySize directive lines cause primary) :
    cause.ofIncomplete = true := by
  cases h <;> rfl

theorem ofIncomplete_of_unreadable (h : Unreadable entrySize directive lines cause primary) :
    cause.ofIncomplete = false := by
  cases h with
  | line hcollects hspell hlacks hline => exact Statement.ofIncomplete_of_ofLine hline
  | literal => rfl
  | count => rfl

end Failures

/-- A record that begins at a directive of a line fails exactly when it is left incomplete or a
part of it cannot be read. Each is reported for causes of its own, at the operand, the line or
the operands that it names. When no byte waits a word has been read, so that a record that
cannot go on is never short of its first word. What a record fails with is what reading the
artifact fails with. -/
theorem readRecord_failsWith_iff (entrySize : Nat) {line : Line} {s : Statement}
    {directive : Directive} (hstatement : Statement.ofLine line = .ok s)
    (hbody : s.body = .directive directive) (lines : List Line) :
    (∀ cause primary, FailsWith (readRecord entrySize directive lines) cause primary ↔
      Incomplete entrySize directive lines cause primary ∨
        Unreadable entrySize directive lines cause primary) ∧
    (∀ cause primary, Incomplete entrySize directive lines cause primary →
      cause.ofIncomplete = true) ∧
    (∀ cause primary, Unreadable entrySize directive lines cause primary →
      cause.ofIncomplete = false) ∧
    (∀ rest operands last words, Collects directive lines rest operands last →
      spell? operands = some ⟨words, none⟩ → Lacks entrySize words → StopsAt rest →
      ∃ header payload front width o, words = header :: payload ∧
        operands = front ++ [(width, o)] ∧ 1 ≤ words.length ∧
        words.length < 1 + header.toNatClampNeg * entrySize ∧
        FailsWith (readRecord entrySize directive lines)
          (.truncatedRecord (1 + header.toNatClampNeg * entrySize) words.length) o.span) ∧
    ∀ (draft : Draft) d, draft.entrySize = entrySize → draft.mode = .data →
      draft.underway = none → readRecord entrySize directive lines = .error d →
      (Draft.conclude (draft.run (line :: lines))).value = .error d := by
  have hne := Directive.operands_ne_nil_of_ofLine hstatement hbody
  refine ⟨?exact, fun _ _ => ofIncomplete_of_incomplete, fun _ _ => ofIncomplete_of_unreadable,
    ?truncated, ?artifact⟩
  case exact =>
    intro cause primary
    rw [failsWith_iff_ends]
    constructor
    · exact incomplete_or_unreadable_of_ends hne
    · rintro (hincomplete | hunreadable)
      · exact ends_of_incomplete hincomplete
      · exact ends_of_unreadable hunreadable
  case truncated =>
    intro rest operands last words hcollects hspell hlacks hstops
    obtain ⟨front, width, o, header, payload, rfl, rfl⟩ :=
      exists_word_of_spell? (operands_ne_nil_of_collects hne hcollects) hspell
    refine ⟨header, payload, front, width, o, rfl, rfl, Nat.succ_pos _, hlacks.length_lt, ?_⟩
    exact failsWith_iff_ends.mpr
      (ends_of_incomplete (.wordsMissing hcollects hspell hlacks hstops))
  case artifact =>
    rintro draft d rfl hmode hunderway hfails
    rw [Draft.conclude_run_of_record hmode hunderway hstatement hbody, hfails]
    rfl

/-- Two bytes that count one more word, followed by the end, by half a word and the end, by
half a word and a word operand, and by one operand too many. -/
theorem readRecord_failsWith_of_short_count :
    ∃ s directive, Statement.ofLine ⟨⟨0, "\tdc.b 0,1".toList⟩, 1⟩ = .ok s ∧
      s.body = .directive directive ∧
      FailsWith (readRecord 1 directive []) (.truncatedRecord 2 1) ⟨8, 9⟩ ∧
      FailsWith (readRecord 1 directive [⟨⟨10, "\tdc.b 0".toList⟩, 2⟩])
        .unbalancedByteOperands ⟨16, 17⟩ ∧
      FailsWith (readRecord 1 directive [⟨⟨10, "\tdc.b 0".toList⟩, 2⟩,
        ⟨⟨18, "\tdc.w 5".toList⟩, 3⟩]) .unbalancedByteOperands ⟨16, 17⟩ ∧
      FailsWith (readRecord 1 directive [⟨⟨10, "\tdc.b 0,5,7".toList⟩, 2⟩])
        (.trailingOperands 1) ⟨20, 21⟩ := by
  have hstatement : Statement.ofLine ⟨⟨0, "\tdc.b 0,1".toList⟩, 1⟩ =
      .ok ⟨⟨⟨0, "\tdc.b 0,1".toList⟩, 1⟩, none,
        .directive ⟨⟨1, "dc.b 0,1".toList⟩, .byte, [⟨⟨6, ['0']⟩⟩, ⟨⟨8, ['1']⟩⟩]⟩⟩ := by
    decide +kernel
  have hfails := fun lines => (readRecord_failsWith_iff 1 hstatement rfl lines).1
  have hcollects : ∀ lines sized, sizedOver? lines = some sized →
      Collects ⟨⟨1, "dc.b 0,1".toList⟩, .byte, [⟨⟨6, ['0']⟩⟩, ⟨⟨8, ['1']⟩⟩]⟩ lines []
        ([(.byte, ⟨⟨6, ['0']⟩⟩), (.byte, ⟨⟨8, ['1']⟩⟩)] ++ sized) (onLast _ lines) :=
    fun lines sized h => ⟨lines, sized, (List.append_nil _).symm, h, rfl, rfl⟩
  have hlacks : Lacks 1 [1] := ⟨fun header h => by cases h; decide, by decide⟩
  have hhalf : spell? [(.byte, ⟨⟨6, ['0']⟩⟩), (.byte, ⟨⟨8, ['1']⟩⟩), (.byte, ⟨⟨16, ['0']⟩⟩)] =
      some ⟨[1], some ⟨0, ⟨16, 17⟩⟩⟩ := by
    decide +kernel
  refine ⟨_, _, hstatement, rfl, ?missing, ?half, ?word, ?left⟩
  case missing =>
    have hspell : spell? ([(.byte, ⟨⟨6, ['0']⟩⟩)] ++ [(.byte, ⟨⟨8, ['1']⟩⟩)]) =
        some ⟨[1], none⟩ := by
      decide +kernel
    exact (hfails _ _ _).mpr
      (Or.inl (.wordsMissing (hcollects [] [] rfl) hspell hlacks (Or.inl rfl)))
  case half =>
    have hbyte : sizedOver? [⟨⟨10, "\tdc.b 0".toList⟩, 2⟩] = some [(.byte, ⟨⟨16, ['0']⟩⟩)] := by
      decide +kernel
    exact (hfails _ _ _).mpr (Or.inl (.byteLeft (hcollects _ _ hbyte) hhalf hlacks (Or.inl rfl)))
  case word =>
    have hword : sizedOver? [⟨⟨10, "\tdc.b 0".toList⟩, 2⟩, ⟨⟨18, "\tdc.w 5".toList⟩, 3⟩] =
        some [(.byte, ⟨⟨16, ['0']⟩⟩), (.word, ⟨⟨24, ['5']⟩⟩)] := by
      decide +kernel
    exact (hfails _ _ _).mpr (Or.inl (.wordOperand (hcollects _ _ hword) rfl hhalf hlacks))
  case left =>
    have hleft : sizedOver? [⟨⟨10, "\tdc.b 0,5,7".toList⟩, 2⟩] =
        some [(.byte, ⟨⟨16, ['0']⟩⟩), (.byte, ⟨⟨18, ['5']⟩⟩), (.byte, ⟨⟨20, ['7']⟩⟩)] := by
      decide +kernel
    have hsplit : [(Width.byte, (⟨⟨6, ['0']⟩⟩ : Operand)), (.byte, ⟨⟨8, ['1']⟩⟩)] ++
        [(.byte, ⟨⟨16, ['0']⟩⟩), (.byte, ⟨⟨18, ['5']⟩⟩), (.byte, ⟨⟨20, ['7']⟩⟩)] =
          [(.byte, ⟨⟨6, ['0']⟩⟩), (.byte, ⟨⟨8, ['1']⟩⟩), (.byte, ⟨⟨16, ['0']⟩⟩),
            (.byte, ⟨⟨18, ['5']⟩⟩)] ++ (.byte, ⟨⟨20, ['7']⟩⟩) :: [] := rfl
    have hspell : spell? [(.byte, ⟨⟨6, ['0']⟩⟩), (.byte, ⟨⟨8, ['1']⟩⟩), (.byte, ⟨⟨16, ['0']⟩⟩),
        (.byte, ⟨⟨18, ['5']⟩⟩)] = some ⟨(⟨1, [5]⟩ : Record).words, none⟩ := by
      decide +kernel
    have honLine : ∀ now, onLast now [⟨⟨10, "\tdc.b 0,5,7".toList⟩, 2⟩] =
        [(.byte, ⟨⟨16, ['0']⟩⟩), (.byte, ⟨⟨18, ['5']⟩⟩)] ++ (.byte, ⟨⟨20, ['7']⟩⟩) :: [] := by
      intro now
      show onLast now ([] ++ [_]) = _
      exact onLast_concat now (by decide +kernel)
    exact (hfails _ _ _).mpr (Or.inl (.operandsLeft (hcollects _ _ hleft) hsplit (honLine _)
      (List.cons_ne_nil _ _) hspell ⟨by decide, by decide, by decide⟩))

end SpriteTables
