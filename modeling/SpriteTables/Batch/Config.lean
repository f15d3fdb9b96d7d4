import SpriteTables.Files.Path
import SpriteTables.Minify
import SpriteTables.Text.Replace

/-!
# What a batch consists of

A batch minifies every kind of artifact for every entity. A configuration names the entities and
the kinds; the paths of a kind are templates in which the entity's name is filled in.
`Config.standard` is the batch that needs no configuration. `Config.fault?` is the first fault of
a configuration, entities before kinds and each in order.
-/

set_option autoImplicit false

namespace SpriteTables.Batch

/-! ## Configurations -/

/-- Somebody or something with artifacts. Its name is part of their paths; with `interleave` its
offset tables are ranked record by record. -/
structure Entity where
  name : String
  interleave : Bool := false
deriving DecidableEq, Repr, Inhabited

/-- One kind of artifact, under the `name` that messages call it. `source` and `target` are
templates of paths, the first of the artifact that holds the records and the second of the one
whose offset tables are kept. Records have `entrySize` payload words per unit of their count, and
payloads are written in the width `payload`. -/
structure Kind where
  name : String
  source : String
  target : String
  entrySize : Nat
  payload : Width := .word
deriving DecidableEq, Repr, Inhabited

/-- The entities and the kinds of a batch. Work goes through the entities in order, and for each
of them through the kinds in order. -/
structure Config where
  entities : List Entity
  kinds : List Kind
deriving DecidableEq, Repr, Inhabited

/-! ## Paths -/

/-- What stands for the entity's name in the template of a path. -/
def entityMark : String := "\x7bentity\x7d"

/-- A template with the name of an entity filled in. -/
def fillIn (template entity : String) : String :=
  String.ofList (Text.replaceAll entityMark.toList entity.toList template.toList)

namespace Kind

/-- Where the records of an entity are, under a root directory. -/
def sourcePath (kind : Kind) (root entity : String) : String :=
  Files.join root (fillIn kind.source entity)

/-- Where the offset tables of an entity are, under a root directory. -/
def targetPath (kind : Kind) (root entity : String) : String :=
  Files.join root (fillIn kind.target entity)

end Kind

/-! ## The standard batch -/

/-- A record of sprite mappings has three words per piece. -/
def mappingsEntrySize : Nat := 3

/-- A record of loading requests has one word per request. -/
def requestsEntrySize : Nat := 1

/-- Mappings and loading requests of the three playable characters. -/
def Config.standard : Config where
  entities :=
    [{ name := "Sonic", interleave := true }, { name := "Tails" }, { name := "Knuckles" }]
  kinds :=
    [{ name := "mappings"
       source := entityMark ++ "/map.asm"
       target := entityMark ++ "/Map - " ++ entityMark ++ ".asm"
       entrySize := mappingsEntrySize
       payload := .byte },
     { name := "dplc"
       source := entityMark ++ "/plc.asm"
       target := entityMark ++ "/DPLC - " ++ entityMark ++ ".asm"
       entrySize := requestsEntrySize }]

/-! ## Faults -/

/-- Why a configuration describes no batch. Blank names are reported with their position, a
duplicate name with its two positions. A kind is at fault with no words per unit, or with one path
for its source and its target. -/
inductive ConfigFault where
  | noEntities
  | noKinds
  | blankEntity (index : Nat)
  | duplicateEntity (name : String) (earlier later : Nat)
  | blankKind (index : Nat)
  | duplicateKind (name : String) (earlier later : Nat)
  | zeroEntrySize (kind : String)
  | samePath (kind : String)
deriving DecidableEq, Repr

/-- The text of a fault. -/
def ConfigFault.message : ConfigFault → String
  | noEntities => "batch config declares no entities"
  | noKinds => "batch config declares no artifact kinds"
  | blankEntity index => s!"entity name at index {index} must not be empty"
  | duplicateEntity name earlier later =>
      s!"duplicate entity '{name}' at indices {earlier} and {later}"
  | blankKind index => s!"artifact kind name at index {index} must not be empty"
  | duplicateKind name earlier later =>
      s!"duplicate artifact kind '{name}' at indices {earlier} and {later}"
  | zeroEntrySize kind => s!"artifact kind '{kind}' must have an entry_size of at least 1"
  | samePath kind => s!"artifact kind '{kind}' uses the same path for source and target"

/-- The first fault of some entities, given the names before them. -/
def entityFault? (earlier : List String) : List Entity → Option ConfigFault
  | [] => none
  | entity :: rest =>
      if Text.isAllBlank entity.name.toList then some (.blankEntity earlier.length)
      else match earlier.idxOf? entity.name with
        | some index => some (.duplicateEntity entity.name index earlier.length)
        | none => entityFault? (earlier ++ [entity.name]) rest

/-- The first fault of some kinds, given the names before them. -/
def kindFault? (earlier : List String) : List Kind → Option ConfigFault
  | [] => none
  | kind :: rest =>
      if Text.isAllBlank kind.name.toList then some (.blankKind earlier.length)
      else match earlier.idxOf? kind.name with
        | some index => some (.duplicateKind kind.name index earlier.length)
        | none =>
            if kind.entrySize = 0 then some (.zeroEntrySize kind.name)
            else if kind.source = kind.target then some (.samePath kind.name)
            else kindFault? (earlier ++ [kind.name]) rest

/-- The first fault of a configuration. -/
def Config.fault? (config : Config) : Option ConfigFault :=
  if config.entities = [] then some .noEntities
  else if config.kinds = [] then some .noKinds
  else (entityFault? [] config.entities).or (kindFault? [] config.kinds)

end SpriteTables.Batch
