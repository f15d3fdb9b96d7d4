import SpriteTables.Batch.Config
import SpriteTables.Batch.ConfigText.Token
import SpriteTables.Text.Line

/-!
# Configurations as texts

A configuration is written as a record whose fields are named values. The form of every record is
fixed: which fields it has, what their values are and which may be left out.

A `Reader` takes a value from the front of some lexemes. Every reader takes at least one, which is
why reading lists (`items`) and records (`record`) ends. Of the faults in a text the first one in
its order is reported, and only a text without any is checked as a whole (`Config.ofText`).
-/

set_option autoImplicit false

namespace SpriteTables.Batch

open Text (Position)

/-! ## Faults -/

/-- What is wrong with the shape of a record or a type: a field or variant that it does not have,
with the `known` ones, a field that was left out, or one given twice. -/
inductive ShapeFault where
  | unknownField (field record : String) (known : List String)
  | unknownVariant (variant type : String) (known : List String)
  | missingField (field record : String)
  | duplicateField (field record : String)
deriving DecidableEq, Repr

/-- Why a text gives no configuration. A `malformed` text is not in the notation, or has a value
of the wrong kind somewhere; a fault of shape is seen at a place; and a text may describe a
configuration that is no batch. -/
inductive ConfigTextFault where
  | malformed
  | shape (fault : ShapeFault) (place : Position)
  | config (fault : ConfigFault)
deriving DecidableEq, Repr

namespace ConfigText

/-- A text is a name that needs no mark. -/
def isPlainName : List Char → Bool
  | [] => false
  | c :: rest => isNameStart c && rest.all isNameRest

/-- A name as messages show it, with its mark if it needs one. -/
def shownName (name : String) : String :=
  if isPlainName name.toList then s!"`{name}`" else s!"`r#{name}`"

/-- The names that were possible, as messages show them. -/
def shownChoice : List String → String
  | [first, second] => s!"either {shownName first} or {shownName second}"
  | known => "one of " ++ ", ".intercalate (known.map shownName)

end ConfigText

open ConfigText

/-- The text of a fault of shape. -/
def ShapeFault.message : ShapeFault → String
  | unknownField field record known =>
      s!"Unexpected field named {shownName field}in {shownName record}, " ++
        s!"expected {shownChoice known} instead"
  | unknownVariant variant type known =>
      s!"Unexpected variant named {shownName variant}in enum {shownName type}, " ++
        s!"expected {shownChoice known} instead"
  | missingField field record =>
      s!"Unexpected missing field {shownName field} in {shownName record}"
  | duplicateField field record =>
      s!"Unexpected duplicate field {shownName field} in {shownName record}"

/-- The text of a fault, after its place if it has one. -/
def ConfigTextFault.message : ConfigTextFault → String
  | malformed => "malformed batch config"
  | shape fault place => s!"{place.line}:{place.column}: {fault.message}"
  | config fault => fault.message

namespace ConfigText

/-! ## Readers -/

/-- Why a value cannot be read from some lexemes: they do not begin with a value of that kind, or
a record has the wrong shape, as is seen before some last characters. -/
inductive Refusal where
  | malformed
  | shape (fault : ShapeFault) (unread : List Char)
deriving DecidableEq, Repr

/-- A value from the front of some lexemes, and the rest of them. At least one lexeme was taken,
so that reading ends. -/
structure Taken (α : Type) (lexemes : List Lexeme) where
  value : α
  rest : List Lexeme
  shorter : rest.length < lexemes.length

/-- Reads a value from the front of some lexemes. -/
abbrev Reader (α : Type) := (lexemes : List Lexeme) → Except Refusal (Taken α lexemes)

namespace Taken

variable {α β : Type} {lexemes : List Lexeme}

/-- Changes the value. -/
def map (f : α → β) (taken : Taken α lexemes) : Taken β lexemes :=
  ⟨f taken.value, taken.rest, taken.shorter⟩

/-- What was taken from fewer lexemes was taken from more of them, too. -/
def widen {fewer : List Lexeme} (h : fewer.length ≤ lexemes.length) (taken : Taken α fewer) :
    Taken α lexemes :=
  ⟨taken.value, taken.rest, Nat.lt_of_lt_of_le taken.shorter h⟩

end Taken

/-- What one lexeme is, if it is anything that is looked for. -/
def single {α : Type} (value? : Lexeme → Except Refusal α) : Reader α
  | [] => .error .malformed
  | first :: rest => (value? first).map fun value => ⟨value, rest, Nat.lt_succ_self _⟩

/-- A text in quotes. -/
def text : Reader String :=
  single fun lexeme =>
    match lexeme.token with
    | .text value => .ok value
    | _ => .error .malformed

/-- One of the two truth values. -/
def truth : Reader Bool :=
  single fun lexeme =>
    if lexeme.token = .name "true" false then .ok true
    else if lexeme.token = .name "false" false then .ok false
    else .error .malformed

/-- A size: an unsigned number of 64 bits. -/
def size : Reader Nat :=
  single fun lexeme =>
    match lexeme.token with
    | .number value => if value < sizeBound then .ok value else .error .malformed
    | _ => .error .malformed

/-- One of some named values of a type. -/
def variant {α : Type} (type : String) (known : List (String × α)) : Reader α :=
  single fun lexeme =>
    match lexeme.token with
    | .name name _ =>
        match known.lookup name with
        | some value => .ok value
        | none => .error (.shape (.unknownVariant name type (known.map (·.1))) lexeme.after)
    | _ => .error .malformed

/-! ## Lists -/

/-- The items of a list, up to its end. After every item stands a comma, except
that the last one needs none. -/
def items {α : Type} (item : Reader α) (lexemes : List Lexeme) :
    Except Refusal (Taken (List α) lexemes) :=
  match lexemes with
  | [] => .error .malformed
  | first :: others =>
      if first.token = .closeList then .ok ⟨[], others, Nat.lt_succ_self _⟩
      else
        match item (first :: others) with
        | .error refusal => .error refusal
        | .ok taken =>
            match h : taken.rest with
            | [] => .error .malformed
            | next :: after =>
                have hlt : (next :: after).length < (first :: others).length := h ▸ taken.shorter
                if next.token = .comma then
                  have hle : after.length ≤ (first :: others).length :=
                    Nat.le_of_lt (Nat.lt_of_succ_lt hlt)
                  (items item after).map fun more => (more.map (taken.value :: ·)).widen hle
                else if next.token = .closeList then
                  .ok ⟨[taken.value], after, Nat.lt_of_succ_lt hlt⟩
                else .error .malformed
termination_by lexemes.length
decreasing_by exact Nat.lt_of_succ_lt hlt

/-- A list in brackets. -/
def list {α : Type} (item : Reader α) : Reader (List α)
  | [] => .error .malformed
  | first :: rest =>
      if first.token = .openList then
        (items item rest).map (·.widen (Nat.le_succ _))
      else .error .malformed

/-! ## Records -/

/-- A field of a record that is filled in step by step: its name, whether a draft has been given
it, and how its value is read into the draft. -/
structure Field (σ : Type) where
  name : String
  isGiven : σ → Bool
  read : σ → Reader σ

/-- A field of which the draft of a record keeps the value. -/
def Field.of {σ α : Type} (name : String) (get : σ → Option α) (set : σ → α → σ)
    (value : Reader α) : Field σ where
  name := name
  isGiven draft := (get draft).isSome
  read draft lexemes := (value lexemes).map (·.map (set draft))

/-- The form of a record: the name that may stand before it, its fields, the draft of which no
field was given, and how a draft becomes the record. A draft without a field that is needed gives
the name of the first such field. -/
structure Form (σ α : Type) where
  name : String
  fields : List (Field σ)
  empty : σ
  finish : σ → Except String α

/-- The fields of a record, up to its end. After every value stands a comma,
except that the last one needs none. -/
def fields {σ α : Type} (form : Form σ α) (draft : σ) (lexemes : List Lexeme) :
    Except Refusal (Taken α lexemes) :=
  match lexemes with
  | ⟨.closing, after⟩ :: rest =>
      match form.finish draft with
      | .ok value => .ok ⟨value, rest, Nat.lt_succ_self _⟩
      | .error field => .error (.shape (.missingField field form.name) (')' :: after))
  | ⟨.name name _, after⟩ :: rest =>
      match form.fields.find? (·.name = name) with
      | none =>
          .error (.shape (.unknownField name form.name (form.fields.map (·.name))) after)
      | some field =>
          if field.isGiven draft then
            .error (.shape (.duplicateField name form.name) after)
          else
            match rest with
            | ⟨.colon, _⟩ :: value =>
                match field.read draft value with
                | .error refusal => .error refusal
                | .ok taken =>
                    match h : taken.rest with
                    | [] => .error .malformed
                    | next :: others =>
                        have hlt : (next :: others).length < value.length := h ▸ taken.shorter
                        if next.token = .comma then
                          (fields form taken.value others).map
                            (·.widen (by simp only [List.length_cons] at hlt ⊢; omega))
                        else if next.token = .closing then
                          (fields form taken.value (next :: others)).map
                            (·.widen (by simp only [List.length_cons] at hlt ⊢; omega))
                        else .error .malformed
            | _ => .error .malformed
  | _ => .error .malformed
termination_by lexemes.length
decreasing_by
  all_goals
    simp only [List.length_cons] at hlt ⊢
    omega

/-- A record of a form, after its name or without one. -/
def record {σ α : Type} (form : Form σ α) : Reader α
  | ⟨.opening, _⟩ :: rest => (fields form form.empty rest).map (·.widen (Nat.le_succ _))
  | ⟨.name name _, _⟩ :: ⟨.opening, _⟩ :: rest =>
      if name = form.name then
        (fields form form.empty rest).map
          (·.widen (Nat.le_trans (Nat.le_succ _) (Nat.le_succ _)))
      else .error .malformed
  | _ => .error .malformed

/-! ## The forms of a configuration -/

/-- A field that must not be left out. -/
def required {α : Type} (name : String) : Option α → Except String α
  | some value => .ok value
  | none => .error name

/-- The given fields of an entity. -/
structure EntityDraft where
  name : Option String := none
  interleave : Option Bool := none

/-- The form of entities. -/
def entityForm : Form EntityDraft Entity where
  name := "Entity"
  fields :=
    [.of "name" (·.name) (fun d v => { d with name := some v }) text,
     .of "interleave" (·.interleave) (fun d v => { d with interleave := some v }) truth]
  empty := {}
  finish d := do
    return { name := ← required "name" d.name, interleave := d.interleave.getD false }

/-- The given fields of a kind. -/
structure KindDraft where
  name : Option String := none
  source : Option String := none
  target : Option String := none
  entrySize : Option Nat := none
  payload : Option Width := none

/-- A width by its name. -/
def width : Reader Width :=
  variant "PayloadWidth" [("Byte", .byte), ("Word", .word)]

/-- The form of kinds. -/
def kindForm : Form KindDraft Kind where
  name := "ArtifactKind"
  fields :=
    [.of "name" (·.name) (fun d v => { d with name := some v }) text,
     .of "source" (·.source) (fun d v => { d with source := some v }) text,
     .of "target" (·.target) (fun d v => { d with target := some v }) text,
     .of "entry_size" (·.entrySize) (fun d v => { d with entrySize := some v }) size,
     .of "payload" (·.payload) (fun d v => { d with payload := some v }) width]
  empty := {}
  finish d := do
    return {
      name := ← required "name" d.name
      source := ← required "source" d.source
      target := ← required "target" d.target
      entrySize := ← required "entry_size" d.entrySize
      payload := d.payload.getD .word }

/-- The given fields of a configuration. -/
structure ConfigDraft where
  entities : Option (List Entity) := none
  kinds : Option (List Kind) := none

/-- The form of configurations. -/
def configForm : Form ConfigDraft Config where
  name := "BatchConfig"
  fields :=
    [.of "entities" (·.entities) (fun d v => { d with entities := some v })
      (list (record entityForm)),
     .of "kinds" (·.kinds) (fun d v => { d with kinds := some v }) (list (record kindForm))]
  empty := {}
  finish d := do
    return {
      entities := ← required "entities" d.entities
      kinds := ← required "kinds" d.kinds }

end ConfigText

/-! ## Configurations -/

/-- The configuration in a text, before it is checked as a whole. -/
def Config.ofNotation (source : String) : Except ConfigTextFault Config :=
  match record configForm (lexemesOf source.toList) with
  | .error .malformed => .error .malformed
  | .error (.shape fault unread) =>
      let offset := Text.byteSize source.toList - Text.byteSize unread
      .error (.shape fault (Text.positionAt source offset))
  | .ok taken => if taken.rest = [] then .ok taken.value else .error .malformed

/-- The configuration in a text. -/
def Config.ofText (source : String) : Except ConfigTextFault Config := do
  let config ← ofNotation source
  match config.fault? with
  | some fault => .error (.config fault)
  | none => return config

end SpriteTables.Batch
