import Mathlib.Data.Prod.Lex
import SpriteTables.Proofs.Batch.Jobs
import SpriteTables.Proofs.Text.Trims

/-!
# The first fault of a configuration

A configuration is checked in an order: that it has entities and kinds, then entity by
entity, then kind by kind. This module says for each check what violates it, without going
through the configuration, and shows that the fault found is that of the first violation.
Two violations of one check can differ only in the earlier one of two equal names. Where
the check is the first one to be violated no name occurs twice before it, so there is only
one; and it does not matter whether the first or the last place of each name is remembered.

## What this module delivers

- `Config.Valid`: a configuration that describes a batch.
- `Check`, `Check.order`, `Config.Violates`: the checks in their order, and what violates
  each of them. `Config.FirstViolation`: a violation before which there is none.
- `Recurs`, `Repeats`: two equal names, and the first two equal ones.
- `Check.next`, `Config.ClearBefore.next`: one check that is not violated, and with it
  `Config.finds_fault?`, a search that follows the order of the checks.
- `Config.faultByPlaces?`: the fault found by remembering the last place of each name.
- `Config.fault?_first_violation`: a configuration is valid or has a first violation, which
  is its fault.
-/

set_option autoImplicit false

namespace SpriteTables.Batch

/-! ## Valid configurations -/

/-- A name of which a trim leaves nothing. -/
def IsBlank (name : String) : Prop :=
  Text.Trims name.toList []

/-- The names of the entities. -/
def Config.entityNames (config : Config) : List String :=
  config.entities.map (·.name)

/-- The names of the kinds. -/
def Config.kindNames (config : Config) : List String :=
  config.kinds.map (·.name)

/-- A configuration that describes a batch: it has entities and kinds, their names are not blank
and pairwise different, units have at least one word, and the templates of source and target are
different. -/
structure Config.Valid (config : Config) : Prop where
  entities : config.entities ≠ []
  kinds : config.kinds ≠ []
  entityNames : ∀ name ∈ config.entityNames, ¬ IsBlank name
  newEntities : config.entityNames.Nodup
  kindNames : ∀ name ∈ config.kindNames, ¬ IsBlank name
  newKinds : config.kindNames.Nodup
  entrySizes : ∀ kind ∈ config.kinds, 1 ≤ kind.entrySize
  templates : ∀ kind ∈ config.kinds, kind.source ≠ kind.target

/-! ## Names that occur twice -/

/-- A name occurs among others at two places. -/
structure Recurs (names : List String) (name : String) (earlier later : Nat) : Prop where
  lt : earlier < later
  earlier_eq : names[earlier]? = some name
  later_eq : names[later]? = some name

/-- A name occurs at two places, no name before the second one occurred before, and the name
stands at no other place before that. -/
structure Repeats (names : List String) (name : String) (earlier later : Nat) : Prop
    extends Recurs names name earlier later where
  least : ∀ other i j, Recurs names other i j → later ≤ j
  only : ∀ i < later, names[i]? = some name → i = earlier

section Repetitions

variable {names : List String} {name : String} {earlier later i j : Nat}

/-- Of a name that recurs no sooner than any other there is one earlier place. -/
theorem Recurs.repeats (h : Recurs names name earlier later)
    (hleast : ∀ other i j, Recurs names other i j → later ≤ j) :
    Repeats names name earlier later := by
  refine ⟨h, hleast, ?_⟩
  intro i hi hname
  -- two places before the later one would be a sooner repetition
  rcases Nat.lt_trichotomy i earlier with hlt | rfl | hgt
  · have hsooner := hleast name i earlier ⟨hlt, hname, h.earlier_eq⟩
    exact absurd h.lt (Nat.not_lt.mpr hsooner)
  · rfl
  · have hsooner := hleast name earlier i ⟨hgt, h.earlier_eq, hname⟩
    exact absurd hi (Nat.not_lt.mpr hsooner)

/-- Names without repetition are those of which none recurs. -/
theorem nodup_iff_not_recurs : names.Nodup ↔ ∀ name i j, ¬ Recurs names name i j := by
  rw [List.nodup_iff_getElem?_ne_getElem?]
  constructor
  · intro h name i j hrecurs
    obtain ⟨hj, -⟩ := List.getElem?_eq_some_iff.mp hrecurs.later_eq
    exact h i j hrecurs.lt hj (hrecurs.earlier_eq.trans hrecurs.later_eq.symm)
  · intro h i j hij hj hsame
    have hlater : names[j]? = some names[j] := List.getElem?_eq_getElem hj
    exact h names[j] i j ⟨hij, hsame.trans hlater, hlater⟩

/-- A name that is found among those before it recurs. -/
theorem recurs_of_idxOf? {before after : List String} (hnames : names = before ++ name :: after)
    (hfound : before.idxOf? name = some earlier) :
    Recurs names name earlier before.length := by
  obtain ⟨hlt, hname, -⟩ := List.idxOf?_eq_some_iff.mp hfound
  subst hnames
  refine ⟨hlt, ?_, ?_⟩
  · rw [List.getElem?_append_left hlt, List.getElem?_eq_getElem hlt, hname]
  · rw [List.getElem?_append_right (Nat.le_refl _), Nat.sub_self, List.getElem?_cons_zero]

/-- A name that is not found among those before it does not recur there, nor does any other
name. -/
theorem not_recurs_of_idxOf? {before after : List String} {other : String}
    (hnames : names = before ++ name :: after) (hnew : before.idxOf? name = none) :
    ¬ Recurs names other earlier before.length := by
  rintro ⟨hlt, hearlier, hlater⟩
  subst hnames
  rw [List.getElem?_append_left hlt] at hearlier
  rw [List.getElem?_append_right (Nat.le_refl _), Nat.sub_self, List.getElem?_cons_zero,
    Option.some.injEq] at hlater
  rw [hlater] at hnew
  exact List.idxOf?_eq_none_iff.mp hnew (List.mem_of_getElem? hearlier)

end Repetitions

/-! ## Checks and their violations -/

/-- What a configuration is checked for: that there are entities and kinds, and for the entity or
kind at a position that it has a name, that the name is new, that units have words, and that
source and target have different templates. -/
inductive Check where
  | entities
  | kinds
  | entityName (index : Nat)
  | newEntity (index : Nat)
  | kindName (index : Nat)
  | newKind (index : Nat)
  | entrySize (index : Nat)
  | templates (index : Nat)

/-- The order of checks: by what is looked at, by its position, and by what it is checked
for. -/
def Check.order : Check → Nat ×ₗ Nat ×ₗ Nat
  | entities => toLex (0, toLex (0, 0))
  | kinds => toLex (1, toLex (0, 0))
  | entityName index => toLex (2, toLex (index, 0))
  | newEntity index => toLex (2, toLex (index, 1))
  | kindName index => toLex (3, toLex (index, 0))
  | newKind index => toLex (3, toLex (index, 1))
  | entrySize index => toLex (3, toLex (index, 2))
  | templates index => toLex (3, toLex (index, 3))

/-- A check of a configuration is violated, which is a fault. -/
inductive Config.Violates (config : Config) : Check → ConfigFault → Prop where
  | noEntities (h : config.entities = []) : Violates config .entities .noEntities
  | noKinds (h : config.kinds = []) : Violates config .kinds .noKinds
  | blankEntity {index : Nat} {name : String} (hname : config.entityNames[index]? = some name)
      (hblank : IsBlank name) : Violates config (.entityName index) (.blankEntity index)
  | duplicateEntity {name : String} {earlier later : Nat}
      (h : Recurs config.entityNames name earlier later) :
      Violates config (.newEntity later) (.duplicateEntity name earlier later)
  | blankKind {index : Nat} {name : String} (hname : config.kindNames[index]? = some name)
      (hblank : IsBlank name) : Violates config (.kindName index) (.blankKind index)
  | duplicateKind {name : String} {earlier later : Nat}
      (h : Recurs config.kindNames name earlier later) :
      Violates config (.newKind later) (.duplicateKind name earlier later)
  | zeroEntrySize {index : Nat} {kind : Kind} (hkind : config.kinds[index]? = some kind)
      (hsize : kind.entrySize = 0) :
      Violates config (.entrySize index) (.zeroEntrySize kind.name)
  | samePath {index : Nat} {kind : Kind} (hkind : config.kinds[index]? = some kind)
      (hsame : kind.source = kind.target) :
      Violates config (.templates index) (.samePath kind.name)

/-- No check before one is violated. -/
def Config.ClearBefore (config : Config) (check : Check) : Prop :=
  ∀ other fault, config.Violates other fault → check.order ≤ other.order

/-- A fault violates a check, and no check before it is violated. -/
def Config.FirstViolation (config : Config) (fault : ConfigFault) : Prop :=
  ∃ check, config.Violates check fault ∧ config.ClearBefore check

section Checks

variable {config : Config} {check other : Check} {fault fault' : ConfigFault} {index : Nat}

theorem Check.order_inj (h : check.order = other.order) : check = other := by
  cases check <;> cases other <;> simp_all [Check.order]

/-- A configuration is valid when none of its checks is violated. -/
theorem Config.valid_iff : config.Valid ↔ ∀ check fault, ¬ config.Violates check fault := by
  constructor
  · intro h check fault hviolates
    cases hviolates with
    | noEntities hnone => exact h.entities hnone
    | noKinds hnone => exact h.kinds hnone
    | blankEntity hname hblank => exact h.entityNames _ (List.mem_of_getElem? hname) hblank
    | duplicateEntity hrecurs => exact nodup_iff_not_recurs.mp h.newEntities _ _ _ hrecurs
    | blankKind hname hblank => exact h.kindNames _ (List.mem_of_getElem? hname) hblank
    | duplicateKind hrecurs => exact nodup_iff_not_recurs.mp h.newKinds _ _ _ hrecurs
    | zeroEntrySize hkind hsize =>
        have hpos := h.entrySizes _ (List.mem_of_getElem? hkind)
        omega
    | samePath hkind hsame => exact h.templates _ (List.mem_of_getElem? hkind) hsame
  · intro h
    constructor
    · exact fun hnone => h _ _ (.noEntities hnone)
    · exact fun hnone => h _ _ (.noKinds hnone)
    · intro name hname hblank
      obtain ⟨i, hi⟩ := List.mem_iff_getElem?.mp hname
      exact h _ _ (.blankEntity hi hblank)
    · exact nodup_iff_not_recurs.mpr fun _ _ _ hrecurs => h _ _ (.duplicateEntity hrecurs)
    · intro name hname hblank
      obtain ⟨i, hi⟩ := List.mem_iff_getElem?.mp hname
      exact h _ _ (.blankKind hi hblank)
    · exact nodup_iff_not_recurs.mpr fun _ _ _ hrecurs => h _ _ (.duplicateKind hrecurs)
    · intro kind hkind
      obtain ⟨i, hi⟩ := List.mem_iff_getElem?.mp hkind
      exact Nat.pos_of_ne_zero fun hsize => h _ _ (.zeroEntrySize hi hsize)
    · intro kind hkind hsame
      obtain ⟨i, hi⟩ := List.mem_iff_getElem?.mp hkind
      exact h _ _ (.samePath hi hsame)

/-- A name of entities that recurs at the first violation repeats. -/
theorem Config.ClearBefore.repeats_entity {name : String} {earlier later : Nat}
    (h : config.ClearBefore (.newEntity later))
    (hrecurs : Recurs config.entityNames name earlier later) :
    Repeats config.entityNames name earlier later := by
  apply hrecurs.repeats
  intro other i j hother
  have hle := h _ _ (.duplicateEntity hother)
  simpa [Check.order, Prod.Lex.toLex_le_toLex, Nat.le_iff_lt_or_eq] using hle

/-- A name of kinds that recurs at the first violation repeats. -/
theorem Config.ClearBefore.repeats_kind {name : String} {earlier later : Nat}
    (h : config.ClearBefore (.newKind later))
    (hrecurs : Recurs config.kindNames name earlier later) :
    Repeats config.kindNames name earlier later := by
  apply hrecurs.repeats
  intro other i j hother
  have hle := h _ _ (.duplicateKind hother)
  simpa [Check.order, Prod.Lex.toLex_le_toLex, Nat.le_iff_lt_or_eq] using hle

/-- Two equal names are told by the later one of the first two. -/
theorem Repeats.unique {names : List String} {name name' : String} {earlier earlier' later : Nat}
    (h : Repeats names name earlier later) (h' : Repeats names name' earlier' later) :
    name = name' ∧ earlier = earlier' := by
  obtain rfl : name = name' := Option.some.inj (h.later_eq.symm.trans h'.later_eq)
  exact ⟨rfl, h'.only _ h.lt h.earlier_eq⟩

/-- There is only one first violation. -/
theorem Config.FirstViolation.unique (h : config.FirstViolation fault)
    (h' : config.FirstViolation fault') : fault = fault' := by
  obtain ⟨check, hviolates, hclear⟩ := h
  obtain ⟨other, hviolates', hclear'⟩ := h'
  obtain rfl : check = other :=
    Check.order_inj (le_antisymm (hclear _ _ hviolates') (hclear' _ _ hviolates))
  cases hviolates with
  | noEntities => cases hviolates'; rfl
  | noKinds => cases hviolates'; rfl
  | blankEntity => cases hviolates'; rfl
  | duplicateEntity hrecurs =>
      cases hviolates' with
      | duplicateEntity hrecurs' =>
          obtain ⟨rfl, rfl⟩ :=
            (hclear.repeats_entity hrecurs).unique (hclear.repeats_entity hrecurs')
          rfl
  | blankKind => cases hviolates'; rfl
  | duplicateKind hrecurs =>
      cases hviolates' with
      | duplicateKind hrecurs' =>
          obtain ⟨rfl, rfl⟩ :=
            (hclear.repeats_kind hrecurs).unique (hclear.repeats_kind hrecurs')
          rfl
  | zeroEntrySize hkind =>
      cases hviolates' with
      | zeroEntrySize hkind' => rw [Option.some.inj (hkind.symm.trans hkind')]
  | samePath hkind =>
      cases hviolates' with
      | samePath hkind' => rw [Option.some.inj (hkind.symm.trans hkind')]

end Checks

/-! ## Going through the checks -/

/-- The check after another one; no configuration has entities or kinds enough for all of
them. -/
def Check.next : Check → Check
  | entities => kinds
  | kinds => entityName 0
  | entityName index => newEntity index
  | newEntity index => entityName (index + 1)
  | kindName index => newKind index
  | newKind index => entrySize index
  | entrySize index => templates index
  | templates index => kindName (index + 1)

section Going

variable {config : Config} {check other : Check} {index : Nat}

/-- Between a check and the next one there is none. -/
theorem Check.next_order_le (h : check.order < other.order) :
    check.next.order ≤ other.order := by
  cases check <;> cases other <;>
    simp [order, next, Prod.Lex.toLex_lt_toLex, Prod.Lex.toLex_le_toLex] at h ⊢ <;> omega

/-- Nothing comes before the first check. -/
theorem Config.clearBefore_entities (config : Config) : config.ClearBefore .entities := by
  intro other fault _
  cases other <;> simp [Check.order, Prod.Lex.toLex_le_toLex]

/-- A check that is not violated is clear for the next one. -/
theorem Config.ClearBefore.next (h : config.ClearBefore check)
    (hnot : ∀ fault, ¬ config.Violates check fault) : config.ClearBefore check.next := by
  intro other fault hviolates
  rcases lt_or_eq_of_le (h other fault hviolates) with hlt | heq
  · exact Check.next_order_le hlt
  · obtain rfl := Check.order_inj heq
    exact absurd hviolates (hnot fault)

/-- After the last entity come the kinds. -/
theorem Config.ClearBefore.kinds
    (h : config.ClearBefore (.entityName config.entityNames.length)) :
    config.ClearBefore (.kindName 0) := by
  intro other fault hviolates
  have hle := h other fault hviolates
  have hinside : ∀ {index : Nat} {name : String}, config.entityNames[index]? = some name →
      index < config.entityNames.length := by
    intro index name hname
    exact (List.getElem?_eq_some_iff.mp hname).1
  cases hviolates with
  | blankEntity hname =>
      have hlt := hinside hname
      simp [Check.order, Prod.Lex.toLex_le_toLex] at hle
      omega
  | duplicateEntity hrecurs =>
      have hlt := hinside hrecurs.later_eq
      simp [Check.order, Prod.Lex.toLex_le_toLex] at hle
      omega
  | _ =>
      simp [Check.order, Prod.Lex.toLex_le_toLex] at hle ⊢ <;> omega

/-- After the last kind no check is violated. -/
theorem Config.ClearBefore.not_violates
    (h : config.ClearBefore (.kindName config.kinds.length)) (check : Check)
    (fault : ConfigFault) : ¬ config.Violates check fault := by
  intro hviolates
  have hle := h check fault hviolates
  have hinside : ∀ {index : Nat} {name : String}, config.kindNames[index]? = some name →
      index < config.kinds.length := by
    intro index name hname
    simpa [Config.kindNames] using (List.getElem?_eq_some_iff.mp hname).1
  cases hviolates with
  | blankKind hname =>
      have hlt := hinside hname
      simp [Check.order, Prod.Lex.toLex_le_toLex] at hle
      omega
  | duplicateKind hrecurs =>
      have hlt := hinside hrecurs.later_eq
      simp [Check.order, Prod.Lex.toLex_le_toLex] at hle
      omega
  | zeroEntrySize hkind =>
      have hlt := (List.getElem?_eq_some_iff.mp hkind).1
      simp [Check.order, Prod.Lex.toLex_le_toLex] at hle
      omega
  | samePath hkind =>
      have hlt := (List.getElem?_eq_some_iff.mp hkind).1
      simp [Check.order, Prod.Lex.toLex_le_toLex] at hle
      omega
  | _ => simp [Check.order, Prod.Lex.toLex_le_toLex] at hle

section Steps

variable {name : String} {names before after : List String} {kind : Kind}

theorem Config.ClearBefore.newEntity (h : config.ClearBefore (.entityName index))
    (hname : config.entityNames[index]? = some name) (hblank : ¬ IsBlank name) :
    config.ClearBefore (.newEntity index) := by
  apply h.next
  intro fault hviolates
  cases hviolates with
  | blankEntity hname' hblank' =>
      rw [Option.some.inj (hname'.symm.trans hname)] at hblank'
      exact hblank hblank'

theorem Config.ClearBefore.newKind (h : config.ClearBefore (.kindName index))
    (hname : config.kindNames[index]? = some name) (hblank : ¬ IsBlank name) :
    config.ClearBefore (.newKind index) := by
  apply h.next
  intro fault hviolates
  cases hviolates with
  | blankKind hname' hblank' =>
      rw [Option.some.inj (hname'.symm.trans hname)] at hblank'
      exact hblank hblank'

theorem Config.ClearBefore.entityName_succ (h : config.ClearBefore (.newEntity index))
    (hnew : ∀ other earlier, ¬ Recurs config.entityNames other earlier index) :
    config.ClearBefore (.entityName (index + 1)) := by
  apply h.next
  intro fault hviolates
  cases hviolates with
  | duplicateEntity hrecurs => exact hnew _ _ hrecurs

theorem Config.ClearBefore.entrySize (h : config.ClearBefore (.newKind index))
    (hnew : ∀ other earlier, ¬ Recurs config.kindNames other earlier index) :
    config.ClearBefore (.entrySize index) := by
  apply h.next
  intro fault hviolates
  cases hviolates with
  | duplicateKind hrecurs => exact hnew _ _ hrecurs

theorem Config.ClearBefore.templates (h : config.ClearBefore (.entrySize index))
    (hkind : config.kinds[index]? = some kind) (hsize : kind.entrySize ≠ 0) :
    config.ClearBefore (.templates index) := by
  apply h.next
  intro fault hviolates
  cases hviolates with
  | zeroEntrySize hkind' hsize' =>
      rw [Option.some.inj (hkind'.symm.trans hkind)] at hsize'
      exact hsize hsize'

theorem Config.ClearBefore.kindName_succ (h : config.ClearBefore (.templates index))
    (hkind : config.kinds[index]? = some kind) (hdiffer : kind.source ≠ kind.target) :
    config.ClearBefore (.kindName (index + 1)) := by
  apply h.next
  intro fault hviolates
  cases hviolates with
  | samePath hkind' hsame =>
      rw [Option.some.inj (hkind'.symm.trans hkind)] at hsame
      exact hdiffer hsame

end Steps

/-- What a search for faults comes to: the fault of a first violation, or that the checks
before one are clear. -/
def Config.Finds (config : Config) (found : Option ConfigFault) (check : Check) : Prop :=
  match found with
  | some fault => config.FirstViolation fault
  | none => config.ClearBefore check

theorem isBlank_iff {name : String} : IsBlank name ↔ Text.isAllBlank name.toList = true := by
  rw [Text.isAllBlank_iff]
  constructor
  · rintro ⟨⟨before, after, hname, hbefore, hafter⟩, -, -⟩
    rw [hname, List.append_nil]
    exact List.forall_mem_append.mpr ⟨hbefore, hafter⟩
  · intro hblanks
    exact ⟨⟨name.toList, [], by simp, hblanks, .nil⟩, by simp, by simp⟩

/-- The search among some entities, after others whose checks are clear. -/
theorem Config.finds_entityFault? {before : List String} {rest : List Entity}
    (hnames : config.entityNames = before ++ rest.map (·.name))
    (hclear : config.ClearBefore (.entityName before.length)) :
    config.Finds (entityFault? before rest) (.entityName config.entityNames.length) := by
  induction rest generalizing before with
  | nil =>
      show config.ClearBefore _
      rwa [hnames, List.map_nil, List.append_nil]
  | cons entity rest ih =>
      rw [List.map_cons] at hnames
      have hname : config.entityNames[before.length]? = some entity.name := by
        simp [hnames]
      rw [entityFault?]
      split
      · next hblank => exact ⟨_, .blankEntity hname (isBlank_iff.mpr hblank), hclear⟩
      · next hblank =>
          have hnamed := hclear.newEntity hname (isBlank_iff.not.mpr hblank)
          split
          · next earlier hfound =>
              exact ⟨_, .duplicateEntity (recurs_of_idxOf? hnames hfound), hnamed⟩
          · next hfound =>
              apply ih
              · rw [hnames, List.append_assoc, List.singleton_append]
              · rw [List.length_append]
                exact hnamed.entityName_succ fun _ _ => not_recurs_of_idxOf? hnames hfound

/-- The search among some kinds, after others whose checks are clear. -/
theorem Config.finds_kindFault? {before rest : List Kind}
    (hkinds : config.kinds = before ++ rest)
    (hclear : config.ClearBefore (.kindName before.length)) :
    config.Finds (kindFault? (before.map (·.name)) rest) (.kindName config.kinds.length) := by
  induction rest generalizing before with
  | nil =>
      show config.ClearBefore _
      rwa [hkinds, List.append_nil]
  | cons kind rest ih =>
      have hnames : config.kindNames =
          before.map (·.name) ++ kind.name :: rest.map (·.name) := by
        rw [Config.kindNames, hkinds, List.map_append, List.map_cons]
      have hkind : config.kinds[before.length]? = some kind := by
        simp [hkinds]
      have hname : config.kindNames[before.length]? = some kind.name := by
        simp [Config.kindNames, hkinds]
      -- the names before are as many as the kinds before
      have hlength : (before.map (·.name)).length = before.length := List.length_map _
      rw [kindFault?, hlength]
      split
      · next hblank => exact ⟨_, .blankKind hname (isBlank_iff.mpr hblank), hclear⟩
      · next hblank =>
          have hnamed := hclear.newKind hname (isBlank_iff.not.mpr hblank)
          split
          · next earlier hfound =>
              have hrecurs := recurs_of_idxOf? hnames hfound
              rw [hlength] at hrecurs
              exact ⟨_, .duplicateKind hrecurs, hnamed⟩
          · next hfound =>
              have hnew := hnamed.entrySize fun other earlier =>
                hlength ▸ not_recurs_of_idxOf? hnames hfound
              split
              · next hsize => exact ⟨_, .zeroEntrySize hkind hsize, hnew⟩
              · next hsize =>
                  have hsized := hnew.templates hkind hsize
                  split
                  · next hsame => exact ⟨_, .samePath hkind hsame, hsized⟩
                  · next hdiffer =>
                      have hclear' : config.ClearBefore (.kindName (before ++ [kind]).length) := by
                        rw [List.length_append]
                        exact hsized.kindName_succ hkind hdiffer
                      have hrest := ih (by rw [hkinds, List.append_cons]) hclear'
                      rwa [List.map_append] at hrest

/-- The search through a whole configuration. -/
theorem Config.finds_fault? (config : Config) :
    config.Finds config.fault? (.kindName config.kinds.length) := by
  have hfirst := config.clearBefore_entities
  rw [Config.fault?]
  split
  · next hnone => exact ⟨_, .noEntities hnone, hfirst⟩
  · next hentities =>
      have hsecond : config.ClearBefore .kinds := by
        apply hfirst.next
        intro fault hviolates
        cases hviolates with
        | noEntities hnone => exact hentities hnone
      split
      · next hnone => exact ⟨_, .noKinds hnone, hsecond⟩
      · next hkinds =>
          have hthird : config.ClearBefore (.entityName 0) := by
            apply hsecond.next
            intro fault hviolates
            cases hviolates with
            | noKinds hnone => exact hkinds hnone
          have hamong : config.Finds (entityFault? [] config.entities) _ :=
            finds_entityFault? rfl hthird
          cases hfault : entityFault? [] config.entities with
          | some fault =>
              rw [hfault] at hamong
              exact hamong
          | none =>
              rw [hfault] at hamong
              have hfourth : config.ClearBefore (.kindName 0) := Config.ClearBefore.kinds hamong
              have hnone : config.kinds = [] ++ config.kinds := rfl
              exact finds_kindFault? hnone hfourth

/-- A configuration has no fault exactly when it is valid. -/
theorem Config.fault?_eq_none_iff : config.fault? = none ↔ config.Valid := by
  have hfinds := config.finds_fault?
  rw [valid_iff]
  constructor
  · intro hnone
    rw [hnone] at hfinds
    exact Config.ClearBefore.not_violates hfinds
  · intro hvalid
    cases hfault : config.fault? with
    | none => rfl
    | some fault =>
        rw [hfault] at hfinds
        obtain ⟨check, hviolates, -⟩ := hfinds
        exact absurd hviolates (hvalid check fault)

/-- The fault of a configuration is that of its first violation. -/
theorem Config.fault?_eq_some_iff {fault : ConfigFault} :
    config.fault? = some fault ↔ config.FirstViolation fault := by
  have hfinds := config.finds_fault?
  constructor
  · intro hfault
    rw [hfault] at hfinds
    exact hfinds
  · intro hfirst
    cases hfault : config.fault? with
    | none =>
        rw [hfault] at hfinds
        obtain ⟨check, hviolates, -⟩ := hfirst
        exact absurd hviolates (Config.ClearBefore.not_violates hfinds check fault)
    | some found =>
        rw [hfault] at hfinds
        rw [Config.FirstViolation.unique hfinds hfirst]

end Going

/-! ## Remembering the last place of each name -/

/-- The first fault of some entities, the first of which has a position, given where each
name was last seen. A name that is seen again is put over its former place. -/
def entityFaultFrom? (lastSeen : String → Option Nat) (position : Nat) :
    List Entity → Option ConfigFault
  | [] => none
  | entity :: rest =>
      if Text.isAllBlank entity.name.toList then some (.blankEntity position)
      else match lastSeen entity.name with
        | some earlier => some (.duplicateEntity entity.name earlier position)
        | none =>
            entityFaultFrom? (Function.update lastSeen entity.name (some position))
              (position + 1) rest

/-- The first fault of some kinds, the first of which has a position, given where each name
was last seen. -/
def kindFaultFrom? (lastSeen : String → Option Nat) (position : Nat) :
    List Kind → Option ConfigFault
  | [] => none
  | kind :: rest =>
      if Text.isAllBlank kind.name.toList then some (.blankKind position)
      else match lastSeen kind.name with
        | some earlier => some (.duplicateKind kind.name earlier position)
        | none =>
            if kind.entrySize = 0 then some (.zeroEntrySize kind.name)
            else if kind.source = kind.target then some (.samePath kind.name)
            else
              kindFaultFrom? (Function.update lastSeen kind.name (some position))
                (position + 1) rest

/-- The first fault of a configuration, names being remembered with their last place. -/
def Config.faultByPlaces? (config : Config) : Option ConfigFault :=
  if config.entities = [] then some .noEntities
  else if config.kinds = [] then some .noKinds
  else
    (entityFaultFrom? (fun _ => none) 0 config.entities).or
      (kindFaultFrom? (fun _ => none) 0 config.kinds)

section Places

variable {names : List String} {name : String}

/-- The first places of names and of a new one. -/
theorem update_idxOf? (hnew : names.idxOf? name = none) :
    Function.update (fun other => names.idxOf? other) name (some names.length) =
      fun other => (names ++ [name]).idxOf? other := by
  funext other
  have happend : (names ++ [name]).idxOf? other =
      (names.idxOf? other).or (if name = other then some names.length else none) := by
    simp [List.idxOf?, List.findIdx?_append, List.findIdx?_cons]
  rw [happend]
  by_cases hother : other = name
  · subst hother
    rw [Function.update_self, hnew, if_pos rfl, Option.none_or]
  · rw [Function.update_of_ne hother, if_neg (Ne.symm hother), Option.or_none]

/-- Where no name has recurred, the first place of each is the last one. -/
theorem entityFaultFrom?_eq (names : List String) (entities : List Entity) :
    entityFaultFrom? (fun name => names.idxOf? name) names.length entities =
      entityFault? names entities := by
  induction entities generalizing names with
  | nil => rfl
  | cons entity rest ih =>
      rw [entityFaultFrom?, entityFault?]
      cases hfound : names.idxOf? entity.name with
      | some earlier => rfl
      | none =>
          have hrest := ih (names ++ [entity.name])
          rw [List.length_append, ← update_idxOf? hfound] at hrest
          exact congrArg _ hrest

theorem kindFaultFrom?_eq (names : List String) (kinds : List Kind) :
    kindFaultFrom? (fun name => names.idxOf? name) names.length kinds =
      kindFault? names kinds := by
  induction kinds generalizing names with
  | nil => rfl
  | cons kind rest ih =>
      rw [kindFaultFrom?, kindFault?]
      cases hfound : names.idxOf? kind.name with
      | some earlier => rfl
      | none =>
          have hrest := ih (names ++ [kind.name])
          rw [List.length_append, ← update_idxOf? hfound] at hrest
          simp only [← hrest]
          rfl

theorem Config.faultByPlaces?_eq (config : Config) : config.faultByPlaces? = config.fault? := by
  have hentities := entityFaultFrom?_eq [] config.entities
  have hkinds := kindFaultFrom?_eq [] config.kinds
  rw [faultByPlaces?, fault?, ← hentities, ← hkinds]
  rfl

end Places

/-- A configuration without a fault is a valid one, and the fault of any other is its first
violation. When a name occurs twice, the fault has the first place at which one occurs again
and the only place before at which that name occurs. It is the fault that is found when each
name is remembered with its last place. -/
theorem Config.fault?_first_violation (config : Config) :
    (config.fault? = none ↔ config.Valid) ∧
    (∀ fault, config.fault? = some fault ↔ config.FirstViolation fault) ∧
    (∀ name earlier later, config.fault? = some (.duplicateEntity name earlier later) →
      Repeats config.entityNames name earlier later) ∧
    (∀ name earlier later, config.fault? = some (.duplicateKind name earlier later) →
      Repeats config.kindNames name earlier later) ∧
    config.faultByPlaces? = config.fault? := by
  refine ⟨fault?_eq_none_iff, fun _ => fault?_eq_some_iff, ?_, ?_, config.faultByPlaces?_eq⟩
  · intro name earlier later hfault
    obtain ⟨check, hviolates, hclear⟩ := fault?_eq_some_iff.mp hfault
    cases hviolates with
    | duplicateEntity hrecurs => exact hclear.repeats_entity hrecurs
  · intro name earlier later hfault
    obtain ⟨check, hviolates, hclear⟩ := fault?_eq_some_iff.mp hfault
    cases hviolates with
    | duplicateKind hrecurs => exact hclear.repeats_kind hrecurs

/-- The second of three equal names is reported, with the place of the first one, although a
kind has a fault, too. -/
example : Config.fault? ⟨[{ name := "A" }, { name := "B" }, { name := "B" }, { name := "B" }],
    [{ name := " ", source := "", target := "", entrySize := 0 }]⟩ =
      some (.duplicateEntity "B" 1 2) := by
  decide +kernel

end SpriteTables.Batch
