import RaidTest.Base.Text
import RaidTest.Common

/-!
# The configuration file (`config.c`)

`config_save` prints a record as JSON, a field or a disk to a line. `config_load` goes through
the lines one by one and knows a field by the first quoted name it finds. The conversions
between narrow, wide and UTF-8 text are taken as lossless, and `%c` and `%[` store narrow
characters. A Ctrl-Z ends a text file.
-/

namespace RaidTest.Config
open RaidTest.Base

/-- `DISK_CONFIG`. -/
structure DiskConfig where
  diskId : ℕ
  driveLetter : Char
  poolMb : ℕ
  deriving DecidableEq

/-- `APP_CONFIG`; `disks` has `disk_count` entries. -/
structure AppConfig where
  version : ℕ
  disks : List DiskConfig
  cacheMb : ℕ
  poolMb : ℕ
  mountLetter : Char
  autoBench : Bool
  theme : ℤ
  language : List Char
  autoRestore : Bool
  autoMount : Bool
  firstRun : Bool
  deriving DecidableEq

/-- `config_defaults`. -/
def configDefaults : AppConfig where
  version := 2
  disks := []
  cacheMb := 4096
  poolMb := 51200
  mountLetter := 'R'
  autoBench := true
  theme := 0
  language := "en".toList
  autoRestore := true
  autoMount := true
  firstRun := true

/-! ### Saving -/

def boolText (b : Bool) : List Char := if b then "true".toList else "false".toList

/-- A line of `config_save` for one field. -/
def fieldLine (key value : List Char) : List Char :=
  "  \"".toList ++ key ++ "\": ".toList ++ value ++ ",\n".toList

def quote (s : List Char) : List Char := '"' :: s ++ ['"']

/-- A line of `config_save` for one disk; `more` unless it is the last. -/
def diskLine (more : Bool) (dc : DiskConfig) : List Char :=
  "    \x7b\"id\": ".toList ++ decimal dc.diskId ++ ", \"drive\": \"".toList ++ [dc.driveLetter] ++
    "\", \"pool_mb\": ".toList ++ decimal dc.poolMb ++ "\x7d".toList ++ (if more then ",".toList else []) ++ "\n".toList

def diskLines : List DiskConfig → List (List Char)
  | [] => []
  | dc :: disks => diskLine (!disks.isEmpty) dc :: diskLines disks

/-- What `config_save` writes in front of the language. -/
def headLines (cfg : AppConfig) : List (List Char) :=
  ["\x7b\n".toList,
    fieldLine "version".toList (decimal cfg.version),
    fieldLine "cache_mb".toList (decimal cfg.cacheMb),
    fieldLine "pool_mb".toList (decimal cfg.poolMb),
    fieldLine "mount_letter".toList (quote [cfg.mountLetter]),
    fieldLine "auto_bench".toList (boolText cfg.autoBench),
    fieldLine "theme".toList (intDecimal cfg.theme)]

/-- What `config_save` writes behind the language. -/
def tailLines (cfg : AppConfig) : List (List Char) :=
  [fieldLine "auto_restore".toList (boolText cfg.autoRestore),
    fieldLine "auto_mount".toList (boolText cfg.autoMount),
    fieldLine "first_run".toList (boolText cfg.firstRun),
    "  \"disks\": [\n".toList] ++ diskLines (cfg.disks.take maxDisks) ++ ["  ]\n".toList, "\x7d\n".toList]

/-- `config_save`: the text of the file. -/
def configSave (cfg : AppConfig) : List Char :=
  (headLines cfg).flatten ++ fieldLine "language".toList (quote cfg.language) ++ (tailLines cfg).flatten

/-! ### Loading -/

/-- What `%d` and `%llu` store of a number that does not fit. -/
structure Overflow where
  int : ℤ → ℤ
  unsigned : ℕ → ℕ

def Overflow.storedInt (o : Overflow) (z : ℤ) : ℤ :=
  if -2147483648 ≤ z ∧ z < 2147483648 then z else o.int z

def Overflow.storedUnsigned (o : Overflow) (n : ℕ) : ℕ :=
  if n < 18446744073709551616 then n else o.unsigned n

/-- `(uint32_t)v`. -/
def uint32 (z : ℤ) : ℕ := (z % 4294967296).toNat

/-- A branch of `config_load`: the name it looks for, and what it makes of a line with that name. -/
structure Field where
  key : List Char
  read : List Char → AppConfig → AppConfig

def keyFormat (key : List Char) : List Directive := format (" \"".toList ++ key ++ "\": ".toList)

/-- A branch that reads `%d`, with what its format has behind it. -/
def intField (o : Overflow) (key behind : List Char) (set : ℤ → AppConfig → AppConfig) : Field where
  key := key
  read := fun p cfg =>
    match scan (keyFormat key ++ .int :: format behind) p with
    | .int v :: _ => set (o.storedInt v) cfg
    | _ => cfg

/-- A branch that looks for `true`. -/
def boolField (key : List Char) (set : Bool → AppConfig → AppConfig) : Field where
  key := key
  read := fun p cfg => set (strstr p "true".toList) cfg

def mountLetterField : Field where
  key := "mount_letter".toList
  read := fun p cfg =>
    match scan (keyFormat "mount_letter".toList ++ .lit '"' :: .char :: format "\",".toList) p with
    | .char c :: _ => { cfg with mountLetter := c }
    | _ => cfg

def languageField : Field where
  key := "language".toList
  read := fun p cfg =>
    match scan (keyFormat "language".toList ++ .lit '"' :: .word 7 '"' :: format "\",".toList) p with
    | .word s :: _ => { cfg with language := s }
    | _ => cfg

/-- The branch for a disk, which asks for all three conversions. -/
def diskField (o : Overflow) : Field where
  key := "id".toList
  read := fun p cfg =>
    if cfg.disks.length < maxDisks then
      match scan (format " \x7b\"id\": ".toList ++ .int :: format ", \"drive\": \"".toList ++
          .char :: format "\", \"pool_mb\": ".toList ++ .unsigned :: format "\x7d".toList) p with
      | .int id :: .char drive :: .unsigned pool :: _ =>
        { cfg with disks := cfg.disks ++ [⟨uint32 (o.storedInt id), drive, o.storedUnsigned pool⟩] }
      | _ => cfg
    else cfg

/-- The branches of `config_load` in their order. -/
def fields (o : Overflow) : List Field :=
  [intField o "version".toList ",".toList fun v cfg => { cfg with version := uint32 v },
    intField o "cache_mb".toList ",".toList fun v cfg => { cfg with cacheMb := uint32 v },
    intField o "pool_mb".toList ",".toList fun v cfg => { cfg with poolMb := uint32 v },
    mountLetterField,
    boolField "auto_bench".toList fun b cfg => { cfg with autoBench := b },
    intField o "theme".toList [] fun v cfg => { cfg with theme := v },
    languageField,
    boolField "auto_restore".toList fun b cfg => { cfg with autoRestore := b },
    boolField "auto_mount".toList fun b cfg => { cfg with autoMount := b },
    boolField "first_run".toList fun b cfg => { cfg with firstRun := b },
    diskField o]

/-- `*p == L'{' || *p == L'}' || *p == L'[' || *p == L']'`. -/
def isBracket (p : List Char) : Bool := p.head?.any fun c => c = '{' || c = '}' || c = '[' || c = ']'

/-- One turn of the loop of `config_load`. -/
def loadLine (o : Overflow) (cfg : AppConfig) (line : List Char) : AppConfig :=
  let p := line.dropWhile fun c => decide (c ≤ ' ')
  if isBracket p then cfg
  else if strstr p (quoted "disks".toList []) then cfg
  else
    match (fields o).find? fun f => strstr p (quoted f.key [':']) with
    | none => cfg
    | some f => f.read p cfg

/-- The file as it is read in text mode. -/
def readText (file : List Char) : List Char := file.takeWhile (· ≠ '\x1a')

/-- `config_load` on the file, if there is one. -/
def configLoad (o : Overflow) (file : Option (List Char)) : AppConfig :=
  match file with
  | none => configDefaults
  | some file => (readLines 511 511 [] (readText file)).foldl (loadLine o) configDefaults

end RaidTest.Config
