import SpriteTables.Proofs.Listing.Numeral
import SpriteTables.Proofs.Record.Length
import SpriteTables.Proofs.Statement.Written

/-!
# Reading a written record

A listing writes the count of a record on a line of its own and the payload on further lines, a
word each or three words each as six bytes (`Listing.groupsOf`). A reading that starts at the
first of these lines has, after each of them, exactly the words written so far (`Reading.Holds`),
and it ends with the last one (`begin_headerLine`, `resume_groupLine`).
-/

set_option autoImplicit false

namespace SpriteTables

open Text (Line)

/-! ## The words of each line -/

namespace Listing

/-- How many words a full payload line has. -/
def wordsPerLine : Width → Nat
  | .word => 1
  | .byte => 3

/-- The words of each payload line. -/
def groupsOf (width : Width) : List Int16 → List (List Int16)
  | [] => []
  | word :: rest =>
      (word :: rest.take (wordsPerLine width - 1)) ::
        groupsOf width (rest.drop (wordsPerLine width - 1))
termination_by words => words.length
decreasing_by
  simp only [List.length_drop, List.length_cons]
  omega

/-- The line that holds some payload words. -/
def groupLine (width : Width) (words : List Int16) : String :=
  match width with
  | .word => directiveLine .word (words.map wordText)
  | .byte => directiveLine .byte ((words.flatMap bytesOfWord).map byteText)

theorem flatten_groupsOf (width : Width) (words : List Int16) :
    (groupsOf width words).flatten = words := by
  induction words using groupsOf.induct width with
  | case1 =>
      rw [groupsOf]
      rfl
  | case2 word rest ih =>
      rw [groupsOf, List.flatten_cons, ih, List.cons_append, List.take_append_drop]

theorem ne_nil_of_mem_groupsOf {width : Width} {words group : List Int16}
    (h : group ∈ groupsOf width words) : group ≠ [] := by
  induction words using groupsOf.induct width with
  | case1 =>
      rw [groupsOf] at h
      cases h
  | case2 word rest ih =>
      rw [groupsOf] at h
      rcases List.mem_cons.mp h with rfl | h
      · exact List.cons_ne_nil _ _
      · exact ih h

/-- Every word has two bytes, so cutting the bytes of some words cuts the words. -/
theorem take_drop_flatMap_bytesOfWord (count : Nat) (words : List Int16) :
    (words.flatMap bytesOfWord).take (2 * count) = (words.take count).flatMap bytesOfWord ∧
      (words.flatMap bytesOfWord).drop (2 * count) = (words.drop count).flatMap bytesOfWord := by
  induction count generalizing words with
  | zero => simp
  | succ count ih =>
      cases words with
      | nil => simp
      | cons word rest =>
          obtain ⟨high, low, hbytes, -⟩ := wordOfBytes_bytesOfWord word
          obtain ⟨htake, hdrop⟩ := ih rest
          have htwo : 2 * (count + 1) = 2 * count + 1 + 1 := by omega
          simp only [List.flatMap_cons, List.take_succ_cons, List.drop_succ_cons, hbytes, htwo,
            List.cons_append, List.nil_append, htake, hdrop, and_self]

theorem rowsOf_flatMap_bytesOfWord (words : List Int16) :
    rowsOf (words.flatMap bytesOfWord) =
      (groupsOf .byte words).map fun group => group.flatMap bytesOfWord := by
  induction words using groupsOf.induct .byte with
  | case1 =>
      rw [groupsOf, List.flatMap_nil, rowsOf]
      rfl
  | case2 word rest ih =>
      obtain ⟨high, low, hbytes, -⟩ := wordOfBytes_bytesOfWord word
      obtain ⟨htake, hdrop⟩ := take_drop_flatMap_bytesOfWord 2 rest
      -- a row is one byte and five more: the second byte of its first word, and two words
      have htail : (low :: rest.flatMap bytesOfWord).take (bytesPerRow - 1) =
          low :: (rest.take 2).flatMap bytesOfWord := congrArg (low :: ·) htake
      have hrest : (low :: rest.flatMap bytesOfWord).drop (bytesPerRow - 1) =
          (rest.drop 2).flatMap bytesOfWord := hdrop
      rw [groupsOf, List.map_cons, List.flatMap_cons, List.flatMap_cons, hbytes, List.cons_append,
        List.cons_append, List.nil_append, rowsOf, htail, hrest]
      exact congrArg _ ih

/-- The payload lines are those of its groups. -/
theorem payloadLines_eq (width : Width) (payload : List Int16) :
    payloadLines width payload = (groupsOf width payload).map (groupLine width) := by
  cases width with
  | byte => rw [payloadLines, rowsOf_flatMap_bytesOfWord, List.map_map]; rfl
  | word =>
      have hgroups : groupsOf .word payload = payload.map ([·]) := by
        induction payload using groupsOf.induct .word with
        | case1 =>
            rw [groupsOf]
            rfl
        | case2 word rest ih =>
            rw [groupsOf, ih]
            rfl
      rw [payloadLines, hgroups, List.map_map]
      rfl

theorem oneLine_groupLine (width : Width) (words : List Int16) :
    Text.OneLine (groupLine width words) := by
  cases width with
  | word => exact Statement.oneLine_directiveLine fun word _ => padded_wordText word
  | byte => exact Statement.oneLine_directiveLine fun byte _ => padded_byteText byte

theorem oneLine_recordLines {width : Width} {labels : List String} {record : Record}
    (hlabels : ∀ label ∈ labels, isIdentifier label.toList = true) :
    ∀ text ∈ recordLines width labels record, Text.OneLine text := by
  intro text htext
  rw [recordLines, payloadLines_eq] at htext
  rcases List.mem_append.mp htext with htext | htext
  · obtain ⟨label, hlabel, rfl⟩ := List.mem_map.mp htext
    exact Statement.oneLine_labelLine (hlabels label hlabel)
  · rcases List.mem_cons.mp htext with rfl | htext
    · exact oneLine_groupLine .word [record.header]
    · obtain ⟨group, -, rfl⟩ := List.mem_map.mp htext
      exact oneLine_groupLine width group

end Listing

/-! ## The words read so far -/

/-- A reading between two words has read the first words of a record: its count, and as payload
those done. It expects as many words as the record has. -/
structure Reading.Holds (r : Reading) (record : Record) (done : List Int16) : Prop where
  header_eq : r.header = some record.header
  payload_eq : r.payload.toList = done
  expected_eq : r.expected = record.words.length
  half_eq : r.half = none

/-- A line has come to the first words of a record, or to all of them. -/
def Progress.Holds (record : Record) (done : List Int16) : Progress → Prop
  | .underway reading => reading.Holds record done ∧ done ≠ record.payload
  | .complete found => found = record ∧ done = record.payload

namespace Reading

section Words

variable {entrySize : Nat} {r : Reading} {record : Record} {done : List Int16}

/-- A reading ends with the last word of the record and no sooner. -/
theorem record?_of_holds (h : r.Holds record done) {todo : List Int16}
    (hpayload : record.payload = done ++ todo) :
    r.record? = if todo = [] then some record else none := by
  obtain ⟨header, payload⟩ := record
  subst hpayload
  have hsize : r.payload.size = done.length := by
    rw [← h.payload_eq, Array.length_toList]
  have hlength : r.expected = 1 + r.payload.size + todo.length := by
    rw [h.expected_eq, hsize, Record.words, List.length_cons, List.length_append]
    omega
  rw [record?, h.header_eq, h.payload_eq]
  cases todo with
  | nil => simp [hlength]
  | cons word rest => simp [hlength]

theorem Holds.moved (h : r.Holds record done) (last : Text.Span) :
    Holds { r with half := none, last } record done :=
  ⟨h.header_eq, h.payload_eq, h.expected_eq, rfl⟩

theorem push_of_holds (h : r.Holds record done) (word : Int16) :
    ∃ next, push entrySize r word = .ok next ∧ next.Holds record (done ++ [word]) := by
  refine ⟨{ r with payload := r.payload.push word }, ?_, h.header_eq, ?_, h.expected_eq, h.half_eq⟩
  · rw [push, h.header_eq]
  · rw [Array.toList_push, h.payload_eq]

/-- A word operand is the next word. -/
theorem take_word (h : r.Holds record done) {o : Operand} {word : Int16}
    (ho : o.chars = Listing.numeral word.toUInt16.toNat) :
    ∃ next, r.take entrySize .word o = .ok next ∧ next.Holds record (done ++ [word]) := by
  obtain ⟨next, hpush, hnext⟩ := push_of_holds (h.moved o.span) word
  refine ⟨next, ?_, hnext⟩
  rw [take.eq_def, h.half_eq, Listing.word_of_numeral ho]
  exact hpush

/-- Two byte operands are the next word, and the first of them does not end the
record. -/
theorem take_bytes (h : r.Holds record done) {o o' : Operand} {high low : UInt8}
    (ho : o.chars = Listing.numeral high.toNat) (ho' : o'.chars = Listing.numeral low.toNat) :
    ∃ half next, r.take entrySize .byte o = .ok half ∧ half.record? = r.record? ∧
      half.take entrySize .byte o' = .ok next ∧
      next.Holds record (done ++ [wordOfBytes high low]) := by
  obtain ⟨next, hpush, hnext⟩ := push_of_holds (h.moved o'.span) (wordOfBytes high low)
  refine ⟨{ r with half := some ⟨high, o.span⟩, last := o.span }, next, ?_, rfl, ?_, hnext⟩
  · rw [take.eq_def, h.half_eq, Listing.byte_of_numeral ho]
    rfl
  · rw [take.eq_def, Listing.byte_of_numeral ho']
    exact hpush

/-! ## The operands of a line -/

/-- At the end of a line the record is complete or goes on. -/
theorem feed_nil (h : r.Holds record done) {todo : List Int16} {width : Width}
    (hpayload : record.payload = done ++ todo) :
    ∃ progress, r.feed entrySize width [] = .ok progress ∧ progress.Holds record done := by
  have hrecord := record?_of_holds h hpayload
  cases todo with
  | nil =>
      refine ⟨.complete record, ?_, rfl, by simp [hpayload]⟩
      rw [feed, hrecord, if_pos rfl]
  | cons word rest =>
      refine ⟨.underway r, ?_, h, by simp [hpayload]⟩
      rw [feed, hrecord, if_neg (List.cons_ne_nil _ _)]

/-- Written words are read as these words. -/
theorem feed_words (h : r.Holds record done) {words todo : List Int16}
    {operands : List Operand}
    (hoperands : operands.map (·.chars) =
      words.map fun word => Listing.numeral word.toUInt16.toNat)
    (hpayload : record.payload = done ++ (words ++ todo)) :
    ∃ progress, r.feed entrySize .word operands = .ok progress ∧
      progress.Holds record (done ++ words) := by
  induction words generalizing r done operands with
  | nil =>
      obtain rfl : operands = [] := List.map_eq_nil_iff.mp hoperands
      rw [List.append_nil]
      exact feed_nil h hpayload
  | cons word rest ih =>
      obtain ⟨o, others, rfl, ho, hothers⟩ := List.map_eq_cons_iff.mp hoperands
      obtain ⟨next, htake, hnext⟩ := take_word h ho
      have hgoes : r.record? = none := record?_of_holds h hpayload
      obtain ⟨progress, hfeed, hprogress⟩ := ih hnext hothers (by simp [hpayload])
      refine ⟨progress, ?_, by simpa using hprogress⟩
      rw [feed, hgoes, htake]
      exact hfeed

/-- The bytes of written words are read as these words. -/
theorem feed_bytes (h : r.Holds record done) {words todo : List Int16}
    {operands : List Operand}
    (hoperands : operands.map (·.chars) =
      (words.flatMap Listing.bytesOfWord).map fun byte => Listing.numeral byte.toNat)
    (hpayload : record.payload = done ++ (words ++ todo)) :
    ∃ progress, r.feed entrySize .byte operands = .ok progress ∧
      progress.Holds record (done ++ words) := by
  induction words generalizing r done operands with
  | nil =>
      obtain rfl : operands = [] := List.map_eq_nil_iff.mp hoperands
      rw [List.append_nil]
      exact feed_nil h hpayload
  | cons word rest ih =>
      obtain ⟨high, low, hbytes, hword⟩ := Listing.wordOfBytes_bytesOfWord word
      rw [List.flatMap_cons, hbytes] at hoperands
      obtain ⟨o, _, rfl, ho, hoperands⟩ := List.map_eq_cons_iff.mp hoperands
      obtain ⟨o', others, rfl, ho', hothers⟩ := List.map_eq_cons_iff.mp hoperands
      obtain ⟨half, next, htake, hhalf, htake', hnext⟩ := take_bytes h ho ho'
      have hgoes : r.record? = none := record?_of_holds h hpayload
      rw [hword] at hnext
      obtain ⟨progress, hfeed, hprogress⟩ := ih hnext hothers (by simp [hpayload])
      refine ⟨progress, ?_, by simpa using hprogress⟩
      rw [feed, hgoes, htake]
      simp only
      rw [feed, hhalf, hgoes, htake']
      exact hfeed

end Words

/-! ## Whole lines -/

section Lines

variable {entrySize : Nat} {record : Record} {line : Line}

/-- The line of a record's count begins a reading of that record. -/
theorem begin_headerLine (hfits : record.Fits entrySize)
    (hline : line.chars =
      (Listing.directiveLine .word [Listing.wordText record.header]).toList) :
    ∃ d : Directive, Statement.ofLine line = .ok { line, body := .directive d } ∧
      ∃ progress, (begin d).feed entrySize d.width d.operands = .ok progress ∧
        progress.Holds record [] := by
  obtain ⟨d, hwidth, hoperands, hstatement⟩ := Statement.ofLine_of_directiveLine
    (List.cons_ne_nil record.header []) (fun word _ => Listing.padded_wordText word) hline
  obtain ⟨o, others, hd, ho, hothers⟩ := List.map_eq_cons_iff.mp hoperands
  obtain rfl : others = [] := List.map_eq_nil_iff.mp hothers
  -- the first word sets the count and the number of words
  have hpush : push entrySize { begin d with last := o.span } record.header =
      .ok { begin d with
        last := o.span
        header := some record.header
        expected := record.words.length } := by
    rw [push]
    simp only [begin]
    rw [if_neg (Int16.not_lt.mpr hfits.header_nonneg), hfits.expectedLength?]
  have hholds : Holds { begin d with
      last := o.span
      header := some record.header
      expected := record.words.length } record [] :=
    ⟨rfl, rfl, rfl, rfl⟩
  obtain ⟨progress, hfeed, hprogress⟩ :=
    feed_nil hholds (List.nil_append record.payload).symm
  refine ⟨d, hstatement, progress, ?_, hprogress⟩
  have htake : take entrySize .word (begin d) o = .ok { begin d with
      last := o.span
      header := some record.header
      expected := record.words.length } := by
    rw [take.eq_def, Listing.word_of_numeral ho]
    exact hpush
  rw [hwidth, hd, feed]
  simp only [record?, begin] at htake ⊢
  rw [htake]
  exact hfeed

/-- A payload line goes on with the words that it holds. -/
theorem resume_groupLine {r : Reading} {done words todo : List Int16} {width : Width}
    (h : r.Holds record done) (hne : words ≠ [])
    (hpayload : record.payload = done ++ (words ++ todo))
    (hline : line.chars = (Listing.groupLine width words).toList) :
    ∃ s, Statement.ofLine line = .ok s ∧
      ∃ progress, r.resume entrySize s = .ok progress ∧ progress.Holds record (done ++ words) := by
  cases width with
  | word =>
      obtain ⟨d, hwidth, hoperands, hstatement⟩ := Statement.ofLine_of_directiveLine hne
        (fun word _ => Listing.padded_wordText word) hline
      obtain ⟨progress, hfeed, hprogress⟩ := feed_words h hoperands hpayload
      refine ⟨_, hstatement, progress, ?_, hprogress⟩
      change feed entrySize d.width r d.operands = .ok progress
      rw [hwidth]
      exact hfeed
  | byte =>
      have hbytes : words.flatMap Listing.bytesOfWord ≠ [] := by
        obtain ⟨word, hword⟩ := List.exists_mem_of_ne_nil _ hne
        exact List.ne_nil_of_mem (List.mem_flatMap.mpr ⟨word, hword, List.mem_cons_self⟩)
      obtain ⟨d, hwidth, hoperands, hstatement⟩ := Statement.ofLine_of_directiveLine hbytes
        (fun byte _ => Listing.padded_byteText byte) hline
      obtain ⟨progress, hfeed, hprogress⟩ := feed_bytes h hoperands hpayload
      refine ⟨_, hstatement, progress, ?_, hprogress⟩
      change feed entrySize d.width r d.operands = .ok progress
      rw [hwidth]
      exact hfeed

end Lines

end Reading

end SpriteTables
