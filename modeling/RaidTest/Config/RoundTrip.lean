import RaidTest.Config.Format
import Mathlib.Data.List.Find

/-!
# A configuration saved and loaded again

Each line of `config_save` is read apart, so a load is a fold over the lines; a line for a field
sets that field, and a line for a disk is skipped for the bracket it begins with.
-/

namespace RaidTest.Config
open RaidTest.Base

/-! ### The branch a line takes -/

theorem fields_keys (o : Overflow) : (fields o).map Field.key =
    ["version".toList, "cache_mb".toList, "pool_mb".toList, "mount_letter".toList, "auto_bench".toList, "theme".toList,
      "language".toList, "auto_restore".toList, "auto_mount".toList, "first_run".toList, "id".toList] := rfl

theorem field_key {o : Overflow} {f : Field} (hf : f ∈ fields o) : '"' ∉ f.key ∧ f.key ≠ ": ".toList := by
  have hmem := List.mem_map_of_mem (f := Field.key) hf
  rw [fields_keys] at hmem
  have hall : ∀ k ∈ ["version".toList, "cache_mb".toList, "pool_mb".toList, "mount_letter".toList, "auto_bench".toList,
      "theme".toList, "language".toList, "auto_restore".toList, "auto_mount".toList, "first_run".toList, "id".toList],
      '"' ∉ k ∧ k ≠ ": ".toList := by decide
  exact hall _ hmem

/-- A line without a quoted name is passed over. -/
theorem loadLine_other (o : Overflow) (cfg : AppConfig) {line : List Char}
    (h : ∀ name tail, ¬ quoted name tail <:+: line.dropWhile fun c => decide (c ≤ ' ')) : loadLine o cfg line = cfg := by
  have hnone : ((fields o).find? fun f =>
      strstr (line.dropWhile fun c => decide (c ≤ ' ')) (quoted f.key [':'])) = none := by
    rw [List.find?_eq_none]
    intro f _ hs
    exact h _ _ (strstr_iff.mp hs)
  unfold loadLine
  simp only [hnone, ite_self]

section Keyed
variable (o : Overflow) (cfg : AppConfig) {key rest : List Char}

/-- A line that begins with a quoted name takes the branch of that name. -/
theorem loadLine_keyed (hkey : '"' ∉ key) (hdisks : ¬ quoted "disks".toList [] <:+: '"' :: key ++ '"' :: ':' :: rest)
    (hrest : ∀ f ∈ fields o, ¬ quoted f.key [':'] <:+: '"' :: ':' :: rest) :
    loadLine o cfg ("  ".toList ++ ('"' :: key ++ '"' :: ':' :: rest)) =
      ((fields o).find? fun f => decide (f.key = key)).elim cfg fun f => f.read ('"' :: key ++ '"' :: ':' :: rest) cfg := by
  have hfind : ((fields o).find? fun f => strstr ('"' :: key ++ '"' :: ':' :: rest) (quoted f.key [':'])) =
      (fields o).find? fun f => decide (f.key = key) := by
    refine List.find?_congr fun f hf => ?_
    rw [strstr, decide_eq_decide, quoted_first (field_key hf).1 hkey, or_iff_left (hrest f hf)]
    exact and_iff_left ⟨rest, rfl⟩
  have hskip : (("  ".toList ++ ('"' :: key ++ '"' :: ':' :: rest)).dropWhile fun c => decide (c ≤ ' ')) =
      '"' :: key ++ '"' :: ':' :: rest := rfl
  have hbracket : isBracket ('"' :: key ++ '"' :: ':' :: rest) = false := rfl
  unfold loadLine
  rw [hskip]
  simp only [hbracket, Bool.false_eq_true, ite_false, strstr_iff.not.mpr hdisks, hfind]
  cases (fields o).find? fun f => decide (f.key = key) <;> rfl

end Keyed

theorem fieldLine_eq (key value : List Char) :
    fieldLine key value = "  ".toList ++ ('"' :: key ++ '"' :: ':' :: (' ' :: (value ++ ",\n".toList))) := by
  unfold fieldLine
  simp only [List.append_assoc]
  rfl

/-- A value without quotes has no name in it. -/
theorem loadLine_plain (o : Overflow) (cfg : AppConfig) {key value : List Char} (hkey : '"' ∉ key) (hne : key ≠ "disks".toList)
    (hvalue : '"' ∉ value) :
    loadLine o cfg (fieldLine key value) = ((fields o).find? fun f => decide (f.key = key)).elim cfg
      fun f => f.read ('"' :: key ++ '"' :: ':' :: (' ' :: (value ++ ",\n".toList))) cfg := by
  have hrest : '"' ∉ ':' :: (' ' :: (value ++ ",\n".toList)) := by
    simp only [List.mem_cons, List.mem_append, not_or]
    exact ⟨by decide, by decide, hvalue, by decide⟩
  rw [fieldLine_eq]
  refine loadLine_keyed o cfg hkey ?_ fun f _ => quoted_last hrest
  rw [quoted_first (by decide) hkey]
  rintro (⟨h, _⟩ | h)
  · exact hne h.symm
  · exact quoted_last hrest h

/-- The names in a line with a quoted value. -/
theorem quoted_value {name tail value : List Char} (hname : '"' ∉ name) (hvalue : '"' ∉ value) :
    quoted name tail <:+: '"' :: ':' :: (' ' :: (quote value ++ ",\n".toList)) ↔
      (name = ": ".toList ∧ tail <+: value ++ '"' :: ",\n".toList) ∨ (name = value ∧ tail <+: ",\n".toList) := by
  have hline : '"' :: ':' :: (' ' :: (quote value ++ ",\n".toList)) =
      '"' :: ": ".toList ++ '"' :: (value ++ '"' :: ",\n".toList) := by
    unfold quote
    simp only [List.cons_append, List.append_assoc]
    rfl
  rw [hline, quoted_first hname (by decide), ← List.cons_append, quoted_first hname hvalue,
    or_iff_left (a := name = value ∧ _) (quoted_last (by decide))]

theorem loadLine_quote (o : Overflow) (cfg : AppConfig) {key value : List Char} (hkey : '"' ∉ key) (hne : key ≠ "disks".toList)
    (hvalue : '"' ∉ value) (hdisks : value ≠ "disks".toList) :
    loadLine o cfg (fieldLine key (quote value)) = ((fields o).find? fun f => decide (f.key = key)).elim cfg
      fun f => f.read ('"' :: key ++ '"' :: ':' :: (' ' :: (quote value ++ ",\n".toList))) cfg := by
  rw [fieldLine_eq]
  refine loadLine_keyed o cfg hkey ?_ fun f hf => ?_
  · rw [quoted_first (by decide) hkey, quoted_value (by decide) hvalue]
    rintro (⟨h, _⟩ | ⟨h, _⟩ | ⟨h, _⟩)
    · exact hne h.symm
    · exact absurd h (by decide)
    · exact hdisks h.symm
  · obtain ⟨hq, hcolon⟩ := field_key hf
    rw [quoted_value hq hvalue]
    rintro (⟨h, _⟩ | ⟨_, h⟩)
    · exact hcolon h
    · exact absurd h (by decide)

/-! ### What the branches read -/

theorem spaceless {s : List Char} (h : (s.all fun c => !isSpace c) = true) : ∀ c ∈ s, isSpace c = false := by
  intro c hc
  have hall := List.all_eq_true.mp h c hc
  rw [Bool.not_eq_true'] at hall
  exact hall

theorem scan_key {key : List Char} (hkey : ∀ c ∈ key, isSpace c = false) (ds : List Directive) (rest : List Char) :
    scan (keyFormat key ++ ds) ('"' :: key ++ '"' :: ':' :: (' ' :: rest)) = scan ds (skipSpace rest) := by
  have hformat : keyFormat key ++ ds = .space :: .lit '"' :: (format key ++ (.lit '"' :: .lit ':' :: .space :: ds)) := by
    unfold keyFormat format
    simp only [List.map_append, List.append_assoc]
    rfl
  rw [hformat]
  simp only [scan, List.cons_append, skipSpace_of_ne (show isSpace '"' = false by decide), ite_true]
  rw [scan_format hkey]
  simp only [scan, ite_true, skipSpace_blank]

theorem digit_plain {c : Char} (h : c.isDigit = true) : isSpace c = false ∧ c ≠ '"' ∧ c ≠ '\n' ∧ c ≠ '\x1a' :=
  ⟨digit_not_space h, digit_ne h (by decide), digit_ne h (by decide), digit_ne h (by decide)⟩

/-- A word up to a character that stops it, or up to the end of the text. -/
theorem scan_word {width : ℕ} {stop : Char} {t rest : List Char} (ht : t ≠ []) (hlen : t.length ≤ width) (hstop : stop ∉ t)
    (hrest : ∀ c ∈ rest.head?, c = stop) (ds : List Directive) :
    scan (.word width stop :: ds) (t ++ rest) = .word t :: scan ds rest := by
  have hin : ∀ c ∈ t, decide (c ≠ stop) = true := by
    intro c hc
    rw [decide_eq_true_iff]
    rintro rfl
    exact hstop hc
  have hout : ((rest.take (width - t.length)).takeWhile fun c => decide (c ≠ stop)) = [] := by
    cases rest with
    | nil => rw [List.take_nil, List.takeWhile_nil]
    | cons c rest =>
      cases width - t.length with
      | zero => rfl
      | succ n =>
        rw [List.take_succ_cons, List.takeWhile_cons_of_neg]
        rw [hrest c rfl]
        simp only [ne_eq, not_true_eq_false, decide_false, Bool.false_eq_true, not_false_eq_true]
  have hword : (((t ++ rest).take width).takeWhile fun c => decide (c ≠ stop)) = t := by
    rw [List.take_append, List.take_of_length_le hlen, List.takeWhile_append_of_pos hin, hout, List.append_nil]
  rw [scan]
  simp only [hword, if_neg ht, List.drop_left]

/-- Neither a quote nor the end of a line nor the end of a text. -/
def Plain (s : List Char) : Prop := ∀ c ∈ s, c ≠ '"' ∧ c ≠ '\n' ∧ c ≠ '\x1a'

instance (s : List Char) : Decidable (Plain s) := List.decidableBAll _ s

theorem Plain.append {s t : List Char} (hs : Plain s) (ht : Plain t) : Plain (s ++ t) := fun c hc =>
  (List.mem_append.mp hc).elim (hs c) (ht c)

theorem decimal_plain (n : ℕ) : Plain (decimal n) := fun c hc => (digit_plain (decimal_digits n c hc)).2

theorem intDecimal_plain (z : ℤ) : Plain (intDecimal z) := by
  unfold intDecimal
  split
  · exact Plain.append (s := ['-']) (by decide) (decimal_plain _)
  · exact decimal_plain _

theorem skipSpace_intDecimal (z : ℤ) (rest : List Char) : skipSpace (intDecimal z ++ rest) = intDecimal z ++ rest := by
  unfold intDecimal
  split
  · exact skipSpace_of_ne (by decide) _
  · obtain ⟨c, s, hd, hc⟩ := decimal_cons z.natAbs
    rw [hd]
    exact skipSpace_of_ne (digit_plain hc).1 _

/-- The line of a language up to a break behind `s`. -/
def brokenLine (s : List Char) : List Char :=
  "  ".toList ++ ('"' :: "language".toList ++ '"' :: ':' :: (' ' :: '"' :: (s ++ ['\n'])))

section Branches
variable (o : Overflow) (cfg : AppConfig) {key : List Char}

/-- A key as the branches have them. -/
structure Key (key : List Char) : Prop where
  quote : '"' ∉ key
  space : ∀ c ∈ key, isSpace c = false
  disks : key ≠ "disks".toList

theorem loadLine_int (hkey : Key key) {behind : List Char} {set : ℤ → AppConfig → AppConfig}
    (hfind : ((fields o).find? fun f => decide (f.key = key)) = some (intField o key behind set)) (z : ℤ) :
    loadLine o cfg (fieldLine key (intDecimal z)) = set (o.storedInt z) cfg := by
  have hquote : '"' ∉ intDecimal z := fun h => (intDecimal_plain z _ h).1 rfl
  have hread : readInt (intDecimal z ++ ",\n".toList) = some (z, ",\n".toList) :=
    readInt_intDecimal z fun _ hc => Option.mem_some_iff.mp hc ▸ rfl
  rw [loadLine_plain o cfg hkey.quote hkey.disks hquote, hfind]
  change (intField o key behind set).read _ cfg = _
  unfold intField
  simp only [scan_key hkey.space, skipSpace_intDecimal, scan, hread]

theorem loadLine_bool (hkey : Key key) {set : Bool → AppConfig → AppConfig}
    (hfind : ((fields o).find? fun f => decide (f.key = key)) = some (boolField key set))
    (htrue : ∀ b, strstr ('"' :: key ++ '"' :: ':' :: (' ' :: (boolText b ++ ",\n".toList))) "true".toList = b) (b : Bool) :
    loadLine o cfg (fieldLine key (boolText b)) = set b cfg := by
  have hquote : '"' ∉ boolText b := by
    cases b <;> decide
  rw [loadLine_plain o cfg hkey.quote hkey.disks hquote, hfind]
  exact congrArg (fun b => set b cfg) (htrue b)

theorem loadLine_mount {c : Char} (hc : c ≠ '"') :
    loadLine o cfg (fieldLine "mount_letter".toList (quote [c])) = { cfg with mountLetter := c } := by
  have hquote : '"' ∉ [c] := fun h => hc (List.mem_singleton.mp h).symm
  have hdisks : [c] ≠ "disks".toList := fun h =>
    absurd (show 1 = 5 from congrArg List.length h) (by decide)
  rw [loadLine_quote o cfg (by decide) (by decide) hquote hdisks]
  change mountLetterField.read _ cfg = _
  unfold mountLetterField
  have hspace : ∀ c ∈ "mount_letter".toList, isSpace c = false := spaceless (by decide)
  simp only [scan_key hspace]
  rfl

theorem languageField_read {s rest : List Char} (hs : '"' ∉ s) (hne : s ≠ []) (hlen : s.length ≤ 7)
    (hrest : ∀ c ∈ rest.head?, c = '"') :
    languageField.read ('"' :: "language".toList ++ '"' :: ':' :: (' ' :: '"' :: (s ++ rest))) cfg =
      { cfg with language := s } := by
  have hspace : ∀ c ∈ "language".toList, isSpace c = false := spaceless (by decide)
  have hread : scan (.lit '"' :: .word 7 '"' :: format "\",".toList) (skipSpace ('"' :: (s ++ rest))) =
      .word s :: scan (format "\",".toList) rest := by
    rw [skipSpace_of_ne (by decide), scan, if_pos rfl]
    exact scan_word hne hlen hs hrest _
  unfold languageField
  simp only [scan_key hspace, hread]

theorem loadLine_language {s : List Char} (hs : '"' ∉ s) (hne : s ≠ []) (hlen : s.length ≤ 7) (hdisks : s ≠ "disks".toList) :
    loadLine o cfg (fieldLine "language".toList (quote s)) = { cfg with language := s } := by
  rw [loadLine_quote o cfg (by decide) (by decide) hs hdisks]
  change languageField.read _ cfg = _
  have hline : quote s ++ ",\n".toList = '"' :: (s ++ '"' :: ",\n".toList) := by
    unfold quote
    simp only [List.cons_append, List.append_assoc, List.nil_append]
  rw [hline]
  exact languageField_read cfg hs hne hlen fun _ hc => (Option.mem_some_iff.mp hc).symm

/-- Of a language with a line break the line ends there. -/
theorem loadLine_broken {s : List Char} (hs : '"' ∉ s) (hlen : s.length < 7) :
    loadLine o cfg (brokenLine s) = { cfg with language := s ++ ['\n'] } := by
  unfold brokenLine
  have hs' : '"' ∉ s ++ ['\n'] := by
    simp only [List.mem_append, not_or]
    exact ⟨hs, by decide⟩
  have hnames : ∀ {name tail}, '"' ∉ name → name ≠ ": ".toList →
      ¬ quoted name tail <:+: '"' :: ':' :: (' ' :: '"' :: (s ++ ['\n'])) := by
    intro name tail hname hne h
    have hline : '"' :: ':' :: (' ' :: '"' :: (s ++ ['\n'])) = '"' :: ": ".toList ++ '"' :: (s ++ ['\n']) := rfl
    rw [hline, quoted_first hname (by decide)] at h
    rcases h with ⟨h, _⟩ | h
    · exact hne h
    · exact quoted_last hs' h
  rw [loadLine_keyed o cfg (by decide) ?_ fun f hf => hnames (field_key hf).1 (field_key hf).2]
  · change languageField.read _ cfg = _
    have hne : s ++ ['\n'] ≠ [] := List.append_ne_nil_of_right_ne_nil s (by decide)
    have hlen' : (s ++ ['\n']).length ≤ 7 := by
      rw [List.length_append]
      exact hlen
    have hend : ∀ c ∈ ([] : List Char).head?, c = '"' := fun _ hc => nomatch hc
    have h := languageField_read cfg hs' hne hlen' hend
    rw [List.append_nil] at h
    exact h
  · rw [quoted_first (by decide) (by decide)]
    rintro (⟨h, _⟩ | h)
    · exact absurd h (by decide)
    · exact hnames (by decide) (by decide) h

/-- Text with one quote at most has no quoted name. -/
theorem loadLine_rest {line s : List Char} (hs : '"' ∉ s) (hline : line <:+: s ++ "\",\n".toList) :
    loadLine o cfg line = cfg := by
  refine loadLine_other o cfg fun name tail h => ?_
  have hsub := (h.trans (List.dropWhile_suffix _).isInfix).trans hline
  have hcount := hsub.sublist.count_le '"'
  have htwo : 2 ≤ (quoted name tail).count '"' := by
    unfold quoted
    rw [List.count_append, List.count_cons_self, List.count_cons_self]
    omega
  have hone : (s ++ "\",\n".toList).count '"' = 1 := by
    rw [List.count_append, List.count_eq_zero_of_not_mem hs]
    decide
  omega

/-- The line of a disk begins with a bracket. -/
theorem loadLine_disk (more : Bool) (dc : DiskConfig) : loadLine o cfg (diskLine more dc) = cfg := by
  have hline : diskLine more dc = "    \x7b".toList ++ ("\"id\": ".toList ++ decimal dc.diskId ++
      ", \"drive\": \"".toList ++ [dc.driveLetter] ++ "\", \"pool_mb\": ".toList ++ decimal dc.poolMb ++
      "\x7d".toList ++ (if more then ",".toList else []) ++ "\n".toList) := by
    unfold diskLine
    simp only [List.append_assoc]
    rfl
  rw [hline]
  rfl

end Branches

/-! ### Files of any kind -/

/-- All three conversions of a disk need the name of its pool size. -/
theorem diskField_pool {o : Overflow} {p : List Char} {cfg : AppConfig}
    (h : strstr p (quoted "pool_mb".toList [':']) = false) : (diskField o).read p cfg = cfg := by
  unfold diskField
  simp only
  split
  swap
  · rfl
  split
  swap
  · rfl
  next id drive pool more hs =>
    exfalso
    have hlong : List.countP Directive.converts (format " \x7b\"id\": ".toList ++ .int :: format ", \"drive\": \"".toList ++
          .char :: format "\", ".toList) <
        (scan ((format " \x7b\"id\": ".toList ++ .int :: format ", \"drive\": \"".toList ++ .char :: format "\", ".toList) ++
          (format "\"pool_mb\":".toList ++ .space :: .unsigned :: format "\x7d".toList)) p).length := by
      refine lt_of_lt_of_eq (b := 3 + more.length) ?_ ?_
      · exact Nat.lt_of_lt_of_le (by decide) (Nat.le_add_right 3 _)
      · have hl := congrArg List.length hs
        simp only [List.length_cons] at hl
        exact (hl.trans (by omega)).symm
    obtain ⟨t, ht, hne⟩ := scan_past _ _ hlong
    have hp := format_prefix (spaceless (by decide)) hne
    have hin : quoted "pool_mb".toList [':'] <:+: p := hp.isInfix.trans ht.isInfix
    rw [← strstr_iff, h] at hin
    cases hin

theorem intField_disks {o : Overflow} {key behind : List Char} {set : ℤ → AppConfig → AppConfig}
    (hset : ∀ v cfg, (set v cfg).disks = cfg.disks) (p : List Char) (cfg : AppConfig) :
    ((intField o key behind set).read p cfg).disks = cfg.disks := by
  unfold intField
  simp only
  split
  · exact hset _ _
  · rfl

/-- No branch but the last touches the disks. -/
theorem fields_disks (o : Overflow) (p : List Char) (cfg : AppConfig) :
    ∀ f ∈ (fields o).take 10, (f.read p cfg).disks = cfg.disks := by
  have hmount : (mountLetterField.read p cfg).disks = cfg.disks := by
    unfold mountLetterField
    simp only
    split <;> rfl
  have hlanguage : (languageField.read p cfg).disks = cfg.disks := by
    unfold languageField
    simp only
    split <;> rfl
  have hint := fun key behind set hset => @intField_disks o key behind set hset p cfg
  intro f hf
  simp only [fields, List.take_succ_cons, List.take_zero, List.mem_cons, List.not_mem_nil, or_false] at hf
  rcases hf with rfl | rfl | rfl | rfl | rfl | rfl | rfl | rfl | rfl | rfl
  · exact hint _ _ _ fun _ _ => rfl
  · exact hint _ _ _ fun _ _ => rfl
  · exact hint _ _ _ fun _ _ => rfl
  · exact hmount
  · rfl
  · exact hint _ _ _ fun _ _ => rfl
  · exact hlanguage
  · rfl
  · rfl
  · rfl

/-- A line with all that a disk needs has a pool size, whose branch comes first. -/
theorem loadLine_disks (o : Overflow) (cfg : AppConfig) (line : List Char) : (loadLine o cfg line).disks = cfg.disks := by
  unfold loadLine
  simp only
  split
  · rfl
  split
  · rfl
  generalize (line.dropWhile fun c => decide (c ≤ ' ')) = p
  have hfields : fields o = (fields o).take 10 ++ [diskField o] := rfl
  rw [hfields, List.find?_append]
  cases hfront : ((fields o).take 10).find? fun f => strstr p (quoted f.key [':']) with
  | some f => exact fields_disks o p cfg f (List.mem_of_find?_eq_some hfront)
  | none =>
    have hpool : strstr p (quoted "pool_mb".toList [':']) = false := by
      have hmem : intField o "pool_mb".toList ",".toList (fun v cfg => { cfg with poolMb := uint32 v }) ∈ (fields o).take 10 := by
        simp only [fields, List.take_succ_cons, List.mem_cons, true_or, or_true]
      have hnot := List.find?_eq_none.mp hfront _ hmem
      rw [Bool.not_eq_true] at hnot
      exact hnot
    rw [Option.none_or, List.find?_singleton]
    by_cases hid : strstr p (quoted (diskField o).key [':']) = true
    · rw [if_pos hid]
      exact congrArg AppConfig.disks (diskField_pool hpool)
    · rw [if_neg hid]

/-- No file brings a disk. -/
theorem configLoad_disks (o : Overflow) (file : Option (List Char)) : (configLoad o file).disks = [] := by
  cases file with
  | none => rfl
  | some file =>
    change ((readLines 511 511 [] (readText file)).foldl (loadLine o) configDefaults).disks = configDefaults.disks
    generalize configDefaults = cfg
    induction readLines 511 511 [] (readText file) generalizing cfg with
    | nil => rfl
    | cons line lines ih => rw [List.foldl_cons, ih, loadLine_disks]

/-! ### The lines of the file -/

/-- Neither the end of a line nor the end of a text. -/
def Inline (s : List Char) : Prop := '\n' ∉ s ∧ '\x1a' ∉ s

instance (s : List Char) : Decidable (Inline s) := inferInstanceAs (Decidable (_ ∧ _))

theorem Inline.append {s t : List Char} (hs : Inline s) (ht : Inline t) : Inline (s ++ t) :=
  ⟨fun h => (List.mem_append.mp h).elim hs.1 ht.1, fun h => (List.mem_append.mp h).elim hs.2 ht.2⟩

theorem Plain.inline {s : List Char} (h : Plain s) : Inline s :=
  ⟨fun hc => (h _ hc).2.1 rfl, fun hc => (h _ hc).2.2 rfl⟩

theorem quote_inline {s : List Char} (h : Inline s) : Inline (quote s) :=
  Inline.append (s := ['"']) (by decide) (h.append (by decide))

/-- A line of a text: the break at its end, and room for it in the buffer. -/
def Line (x : List Char) : Prop := ∃ l, x = l ++ "\n".toList ∧ Inline l ∧ l.length < 511

theorem readLines_flatten {ls : List (List Char)} (h : ∀ x ∈ ls, Line x) (rest : List Char) :
    readLines 511 511 [] (ls.flatten ++ rest) = ls ++ readLines 511 511 [] rest := by
  induction ls with
  | nil => rfl
  | cons x ls ih =>
    obtain ⟨l, rfl, hin, hlen⟩ := h x (List.mem_cons_self ..)
    have hbreak : "\n".toList ++ (ls.flatten ++ rest) = '\n' :: (ls.flatten ++ rest) := rfl
    rw [List.flatten_cons, List.append_assoc, List.append_assoc, hbreak, readLines_line hin.1 hlen,
      ih fun y hy => h y (List.mem_cons_of_mem _ hy), List.cons_append]
    rfl

theorem fieldLine_line {key value : List Char} (hkey : Inline key) (hvalue : Inline value)
    (hlen : key.length + value.length < 500) : Line (fieldLine key value) := by
  refine ⟨"  \"".toList ++ (key ++ ("\": ".toList ++ (value ++ ",".toList))), ?_, ?_, ?_⟩
  · unfold fieldLine
    simp only [List.append_assoc]
    rfl
  · exact Inline.append (by decide) (hkey.append (Inline.append (by decide) (hvalue.append (by decide))))
  · have h1 : ("  \"".toList).length = 3 := rfl
    have h2 : ("\": ".toList).length = 3 := rfl
    have h3 : (",".toList).length = 1 := rfl
    simp only [List.length_append, h1, h2, h3]
    omega

theorem decimal_short {n : ℕ} (h : n < 2^64) : (decimal n).length ≤ 20 := decimal_length 19 n (Nat.lt_trans h (by decide))

theorem intDecimal_short {z : ℤ} (h : z.natAbs < 2^64) : (intDecimal z).length ≤ 21 := by
  have hlen := decimal_short h
  unfold intDecimal
  split
  · exact Nat.succ_le_succ hlen
  · exact Nat.le_succ_of_le hlen

/-- `A`..`Z`. -/
def Letter (c : Char) : Prop := 'A' ≤ c ∧ c ≤ 'Z'

theorem Letter.plain {c : Char} (h : Letter c) : Plain [c] := by
  intro x hx
  rw [List.mem_singleton.mp hx]
  refine ⟨?_, ?_, ?_⟩
  all_goals
    rintro rfl
    exact absurd h.1 (by decide)

theorem diskLine_line (more : Bool) {dc : DiskConfig} (hid : dc.diskId < 2^32) (hpool : dc.poolMb < 2^64)
    (hletter : Letter dc.driveLetter) : Line (diskLine more dc) := by
  have hcomma : Inline (if more then ",".toList else []) := by
    cases more <;> decide
  have hend : (if more then ",".toList else []).length ≤ 1 := by
    cases more <;> decide
  refine ⟨"    \x7b\"id\": ".toList ++ (decimal dc.diskId ++ (", \"drive\": \"".toList ++ ([dc.driveLetter] ++
    ("\", \"pool_mb\": ".toList ++ (decimal dc.poolMb ++ ("\x7d".toList ++ if more then ",".toList else [])))))), ?_, ?_, ?_⟩
  · unfold diskLine
    simp only [List.append_assoc]
  · exact Inline.append (by decide) ((decimal_plain _).inline.append (Inline.append (by decide)
      (hletter.plain.inline.append (Inline.append (by decide) ((decimal_plain _).inline.append
        (Inline.append (by decide) hcomma))))))
  · have h1 := decimal_short (Nat.lt_trans hid (by decide))
    have h2 := decimal_short hpool
    have h3 : ("    \x7b\"id\": ".toList).length = 11 := rfl
    have h4 : (", \"drive\": \"".toList).length = 12 := rfl
    have h5 : ("\", \"pool_mb\": ".toList).length = 14 := rfl
    have h6 : ("\x7d".toList).length = 1 := rfl
    simp only [List.length_append, h3, h4, h5, h6, List.length_singleton]
    omega

/-- A configuration with fields in their ranges. -/
structure ConfigOk (cfg : AppConfig) : Prop where
  version : cfg.version < 2^32
  count : cfg.disks.length ≤ maxDisks
  disks : ∀ dc ∈ cfg.disks, dc.diskId < 2^32 ∧ dc.poolMb < 2^64 ∧ Letter dc.driveLetter
  cacheMb : cfg.cacheMb < 2^31
  poolMb : cfg.poolMb < 2^31
  mountLetter : Letter cfg.mountLetter
  theme : -2147483648 ≤ cfg.theme ∧ cfg.theme < 2147483648
  language : cfg.language ≠ [] ∧ cfg.language.length ≤ 7 ∧ '"' ∉ cfg.language ∧ '\x00' ∉ cfg.language

section Saved
variable {cfg : AppConfig} (h : ConfigOk cfg)
include h

theorem headLines_line : ∀ x ∈ headLines cfg, Line x := by
  have h1 := decimal_short (n := cfg.version) (Nat.lt_trans h.version (by decide))
  have h2 := decimal_short (n := cfg.cacheMb) (Nat.lt_trans h.cacheMb (by decide))
  have h3 := decimal_short (n := cfg.poolMb) (Nat.lt_trans h.poolMb (by decide))
  have h4 := intDecimal_short (z := cfg.theme) (by have := h.theme; omega)
  have hbool : Inline (boolText cfg.autoBench) ∧ (boolText cfg.autoBench).length ≤ 5 := by
    cases cfg.autoBench <;> decide
  unfold headLines
  simp only [List.forall_mem_cons, List.not_mem_nil, false_imp_iff, implies_true, and_true]
  refine ⟨⟨"\x7b".toList, rfl, by decide, by decide⟩, ?_, ?_, ?_, ?_, ?_, ?_⟩
  · exact fieldLine_line (by decide) (decimal_plain _).inline (Nat.lt_of_le_of_lt (Nat.add_le_add_left h1 _) (by decide))
  · exact fieldLine_line (by decide) (decimal_plain _).inline (Nat.lt_of_le_of_lt (Nat.add_le_add_left h2 _) (by decide))
  · exact fieldLine_line (by decide) (decimal_plain _).inline (Nat.lt_of_le_of_lt (Nat.add_le_add_left h3 _) (by decide))
  · exact fieldLine_line (by decide) (quote_inline h.mountLetter.plain.inline) (show 12 + 3 < 500 by decide)
  · exact fieldLine_line (by decide) hbool.1 (Nat.lt_of_le_of_lt (Nat.add_le_add_left hbool.2 _) (by decide))
  · exact fieldLine_line (by decide) (intDecimal_plain _).inline (Nat.lt_of_le_of_lt (Nat.add_le_add_left h4 _) (by decide))

theorem tailLines_line : ∀ x ∈ tailLines cfg, Line x := by
  have hbool : ∀ b, Inline (boolText b) ∧ (boolText b).length ≤ 5 := by decide
  have hdisks : ∀ x ∈ diskLines (cfg.disks.take maxDisks), Line x := by
    have hall := fun dc hdc => h.disks dc (List.mem_of_mem_take (i := maxDisks) hdc)
    generalize cfg.disks.take maxDisks = disks at hall
    induction disks with
    | nil => exact nofun
    | cons dc disks ih =>
      unfold diskLines
      rw [List.forall_mem_cons]
      obtain ⟨hid, hpool, hletter⟩ := hall dc (List.mem_cons_self ..)
      exact ⟨diskLine_line _ hid hpool hletter, ih fun x hx => hall x (List.mem_cons_of_mem _ hx)⟩
  have hflag : ∀ {key : List Char} (_ : Inline key) (_ : key.length ≤ 20) (b : Bool), Line (fieldLine key (boolText b)) :=
    fun hkey hlen b => fieldLine_line hkey (hbool b).1 (by have := (hbool b).2; omega)
  unfold tailLines
  simp only [List.forall_mem_append, List.forall_mem_cons, List.not_mem_nil, false_imp_iff, implies_true, and_true]
  refine ⟨⟨⟨?_, ?_, ?_, ?_⟩, hdisks⟩, ?_, ?_⟩
  · exact hflag (by decide) (by decide) _
  · exact hflag (by decide) (by decide) _
  · exact hflag (by decide) (by decide) _
  · exact ⟨"  \"disks\": [".toList, rfl, by decide, by decide⟩
  · exact ⟨"  ]".toList, rfl, by decide, by decide⟩
  · exact ⟨"\x7d".toList, rfl, by decide, by decide⟩

end Saved

/-! ### What the lines set -/

theorem storedInt_of_lt (o : Overflow) {z : ℤ} (h : -2147483648 ≤ z ∧ z < 2147483648) : o.storedInt z = z := if_pos h

theorem stored_of_lt (o : Overflow) {n : ℕ} (h : n < 2^31) : uint32 (o.storedInt n) = n := by
  rw [storedInt_of_lt o (by omega)]
  unfold uint32
  omega

theorem loadLine_version (o : Overflow) (c : AppConfig) (z : ℤ) :
    loadLine o c (fieldLine "version".toList (intDecimal z)) = { c with version := uint32 (o.storedInt z) } := by
  have hfind : ((fields o).find? fun f => decide (f.key = "version".toList)) =
      some (intField o "version".toList ",".toList fun v c => { c with version := uint32 v }) := rfl
  exact loadLine_int o c ⟨by decide, spaceless (by decide), by decide⟩ hfind z

theorem loadLine_cacheMb (o : Overflow) (c : AppConfig) (z : ℤ) :
    loadLine o c (fieldLine "cache_mb".toList (intDecimal z)) = { c with cacheMb := uint32 (o.storedInt z) } := by
  have hfind : ((fields o).find? fun f => decide (f.key = "cache_mb".toList)) =
      some (intField o "cache_mb".toList ",".toList fun v c => { c with cacheMb := uint32 v }) := rfl
  exact loadLine_int o c ⟨by decide, spaceless (by decide), by decide⟩ hfind z

theorem loadLine_poolMb (o : Overflow) (c : AppConfig) (z : ℤ) :
    loadLine o c (fieldLine "pool_mb".toList (intDecimal z)) = { c with poolMb := uint32 (o.storedInt z) } := by
  have hfind : ((fields o).find? fun f => decide (f.key = "pool_mb".toList)) =
      some (intField o "pool_mb".toList ",".toList fun v c => { c with poolMb := uint32 v }) := rfl
  exact loadLine_int o c ⟨by decide, spaceless (by decide), by decide⟩ hfind z

theorem loadLine_theme (o : Overflow) (c : AppConfig) (z : ℤ) :
    loadLine o c (fieldLine "theme".toList (intDecimal z)) = { c with theme := o.storedInt z } := by
  have hfind : ((fields o).find? fun f => decide (f.key = "theme".toList)) =
      some (intField o "theme".toList [] fun v c => { c with theme := v }) := rfl
  exact loadLine_int o c ⟨by decide, spaceless (by decide), by decide⟩ hfind z

theorem loadLine_autoBench (o : Overflow) (c : AppConfig) (b : Bool) :
    loadLine o c (fieldLine "auto_bench".toList (boolText b)) = { c with autoBench := b } := by
  have hfind : ((fields o).find? fun f => decide (f.key = "auto_bench".toList)) =
      some (boolField "auto_bench".toList fun b c => { c with autoBench := b }) := rfl
  exact loadLine_bool o c ⟨by decide, spaceless (by decide), by decide⟩ hfind (by decide) b

theorem loadLine_autoRestore (o : Overflow) (c : AppConfig) (b : Bool) :
    loadLine o c (fieldLine "auto_restore".toList (boolText b)) = { c with autoRestore := b } := by
  have hfind : ((fields o).find? fun f => decide (f.key = "auto_restore".toList)) =
      some (boolField "auto_restore".toList fun b c => { c with autoRestore := b }) := rfl
  exact loadLine_bool o c ⟨by decide, spaceless (by decide), by decide⟩ hfind (by decide) b

theorem loadLine_autoMount (o : Overflow) (c : AppConfig) (b : Bool) :
    loadLine o c (fieldLine "auto_mount".toList (boolText b)) = { c with autoMount := b } := by
  have hfind : ((fields o).find? fun f => decide (f.key = "auto_mount".toList)) =
      some (boolField "auto_mount".toList fun b c => { c with autoMount := b }) := rfl
  exact loadLine_bool o c ⟨by decide, spaceless (by decide), by decide⟩ hfind (by decide) b

theorem loadLine_firstRun (o : Overflow) (c : AppConfig) (b : Bool) :
    loadLine o c (fieldLine "first_run".toList (boolText b)) = { c with firstRun := b } := by
  have hfind : ((fields o).find? fun f => decide (f.key = "first_run".toList)) =
      some (boolField "first_run".toList fun b c => { c with firstRun := b }) := rfl
  exact loadLine_bool o c ⟨by decide, spaceless (by decide), by decide⟩ hfind (by decide) b

theorem headLines_load (o : Overflow) {cfg : AppConfig} (h : ConfigOk cfg) (c : AppConfig) :
    (headLines cfg).foldl (loadLine o) c =
      { c with
        version := uint32 (o.storedInt cfg.version)
        cacheMb := cfg.cacheMb
        poolMb := cfg.poolMb
        mountLetter := cfg.mountLetter
        autoBench := cfg.autoBench
        theme := cfg.theme } := by
  have hquote : cfg.mountLetter ≠ '"' := (h.mountLetter.plain _ (List.mem_singleton_self _)).1
  have hopen : ∀ c, loadLine o c "\x7b\n".toList = c := fun _ => rfl
  unfold headLines
  simp only [List.foldl_cons, List.foldl_nil, hopen, ← intDecimal_natCast, loadLine_version, loadLine_cacheMb, loadLine_poolMb,
    loadLine_mount o _ hquote, loadLine_autoBench, loadLine_theme, stored_of_lt o h.cacheMb, stored_of_lt o h.poolMb,
    storedInt_of_lt o h.theme]

theorem tailLines_load (o : Overflow) (cfg c : AppConfig) :
    (tailLines cfg).foldl (loadLine o) c =
      { c with autoRestore := cfg.autoRestore, autoMount := cfg.autoMount, firstRun := cfg.firstRun } := by
  have hdisks : ∀ c, (diskLines (cfg.disks.take maxDisks)).foldl (loadLine o) c = c := by
    intro c
    generalize cfg.disks.take maxDisks = disks
    induction disks with
    | nil => rfl
    | cons dc disks ih => rw [diskLines, List.foldl_cons, loadLine_disk, ih]
  have hlist : ∀ c, loadLine o c "  \"disks\": [\n".toList = c := fun _ => rfl
  have hclose : ∀ c, loadLine o c "  ]\n".toList = c ∧ loadLine o c "\x7d\n".toList = c := fun _ => ⟨rfl, rfl⟩
  unfold tailLines
  simp only [List.foldl_append, List.foldl_cons, List.foldl_nil, hdisks, hlist, hclose, loadLine_autoRestore,
    loadLine_autoMount, loadLine_firstRun]

/-! ### The round trip -/

/-- What a load makes of a language: it ends with its line, and `disks` is taken for the name of the list. -/
def loadedLanguage (s : List Char) : List Char :=
  if '\n' ∈ s then s.takeWhile (fun c => decide (c ≠ '\n')) ++ ['\n']
  else if s = "disks".toList then configDefaults.language else s

theorem takeWhile_break {a : List Char} (ha : '\n' ∉ a) (b : List Char) :
    ((a ++ '\n' :: b).takeWhile fun c => decide (c ≠ '\n')) = a := by
  rw [List.takeWhile_append_of_pos, List.takeWhile_cons_of_neg (by decide), List.append_nil]
  intro c hc
  rw [decide_eq_true_iff]
  rintro rfl
  exact ha hc

theorem loadedLanguage_eq_iff (s : List Char) : loadedLanguage s = s ↔ '\n' ∉ s.dropLast ∧ s ≠ "disks".toList := by
  unfold loadedLanguage
  by_cases hn : '\n' ∈ s
  · obtain ⟨a, b, rfl, ha⟩ := List.eq_append_cons_of_mem hn
    have hne : a ++ '\n' :: b ≠ "disks".toList := fun h => by
      rw [h] at hn
      exact absurd hn (by decide)
    rw [if_pos hn, takeWhile_break ha, List.append_right_inj, List.cons.injEq, and_iff_right rfl, and_iff_left hne,
      List.dropLast_append_cons]
    cases b with
    | nil => exact iff_of_true rfl (by rwa [List.dropLast_singleton, List.append_nil])
    | cons c b =>
      refine iff_of_false nofun fun h => h ?_
      rw [List.dropLast_cons_cons]
      exact List.mem_append_right _ (List.mem_cons_self ..)
  · rw [if_neg hn]
    have hdrop : '\n' ∉ s.dropLast := fun h => hn (List.mem_of_mem_dropLast h)
    by_cases hd : s = "disks".toList
    · rw [if_pos hd, hd]
      decide
    · rw [if_neg hd]
      exact iff_of_true rfl ⟨hdrop, hd⟩

theorem languageLine_plain (o : Overflow) {c : AppConfig} (hc : c.language = configDefaults.language) {s : List Char}
    (hne : s ≠ []) (hlen : s.length ≤ 7) (hs : '"' ∉ s) (hn : '\n' ∉ s) :
    loadLine o c (fieldLine "language".toList (quote s)) = { c with language := loadedLanguage s } := by
  unfold loadedLanguage
  rw [if_neg hn]
  by_cases hd : s = "disks".toList
  · have hskip : loadLine o c (fieldLine "language".toList (quote "disks".toList)) = c := rfl
    rw [if_pos hd, hd, hskip, ← hc]
  · rw [if_neg hd]
    exact loadLine_language o c hs hne hlen hd

/-- The line of the language, or the lines it breaks into. -/
theorem languageLine_load (o : Overflow) {c : AppConfig} (hc : c.language = configDefaults.language) {s : List Char}
    (hne : s ≠ []) (hlen : s.length ≤ 7) (hs : '"' ∉ s) (hz : '\x1a' ∉ s) (rest : List Char) :
    ∃ ls, readLines 511 511 [] (fieldLine "language".toList (quote s) ++ rest) = ls ++ readLines 511 511 [] rest ∧
      ls.foldl (loadLine o) c = { c with language := loadedLanguage s } := by
  have hkey : ("language".toList).length = 8 := rfl
  by_cases hn : '\n' ∈ s
  · obtain ⟨a, b, rfl, ha⟩ := List.eq_append_cons_of_mem hn
    simp only [List.mem_append, List.mem_cons, not_or] at hs hz
    rw [List.length_append, List.length_cons] at hlen
    have hfirst : ∀ x ∈ [brokenLine a], Line x := by
      intro x hx
      rw [List.mem_singleton.mp hx]
      refine ⟨"  \"language\": \"".toList ++ a, rfl, Inline.append (by decide) ⟨ha, hz.1⟩, ?_⟩
      rw [List.length_append]
      exact Nat.lt_of_lt_of_le (Nat.add_lt_add_left (show a.length < 7 by omega) _) (by decide)
    obtain ⟨ls, hls, hin⟩ := readLines_block 511 rest _ (b ++ "\",".toList) (Nat.le_refl _) (by
      rw [List.length_append]
      exact Nat.lt_of_lt_of_le (Nat.add_lt_add_right (show b.length < 7 by omega) _) (by decide))
    have htext : fieldLine "language".toList (quote (a ++ '\n' :: b)) ++ rest =
        [brokenLine a].flatten ++
          (b ++ "\",".toList ++ '\n' :: rest) := by
      rw [fieldLine_eq, List.flatten_singleton]
      unfold quote brokenLine
      simp only [List.append_assoc, List.cons_append, List.nil_append]
      rfl
    refine ⟨[brokenLine a] ++ ls, ?_, ?_⟩
    · rw [htext, readLines_flatten hfirst, hls, ← List.append_assoc]
    · have hrest : ∀ c, ls.foldl (loadLine o) c = c := by
        have hall : ∀ x ∈ ls, ∀ c, loadLine o c x = c := fun x hx c => loadLine_rest o c hs.2.2 (by
          have h := hin x hx
          rw [List.append_assoc] at h
          exact h)
        intro c
        clear hls hin
        induction ls with
        | nil => rfl
        | cons x ls ih =>
          rw [List.foldl_cons, hall x (List.mem_cons_self ..)]
          exact ih fun y hy => hall y (List.mem_cons_of_mem _ hy)
      rw [List.foldl_append, List.foldl_cons, List.foldl_nil, hrest, loadLine_broken o c hs.1 (by omega), loadedLanguage,
        if_pos hn, takeWhile_break ha]
  · refine ⟨[fieldLine "language".toList (quote s)], ?_, languageLine_plain o hc hne hlen hs hn⟩
    have hline : ∀ x ∈ [fieldLine "language".toList (quote s)], Line x := by
      intro x hx
      rw [List.mem_singleton.mp hx]
      refine fieldLine_line (by decide) (quote_inline ⟨hn, hz⟩) ?_
      unfold quote
      rw [hkey, List.length_append, List.length_cons, List.length_singleton]
      omega
    have h := readLines_flatten hline rest
    rw [List.flatten_singleton] at h
    exact h

theorem Line.ends {x : List Char} (h : Line x) : '\x1a' ∉ x := by
  obtain ⟨l, rfl, hin, _⟩ := h
  rw [List.mem_append, not_or]
  exact ⟨hin.2, by decide⟩

theorem flatten_ends {ls : List (List Char)} (h : ∀ x ∈ ls, Line x) : '\x1a' ∉ ls.flatten := by
  rw [List.mem_flatten]
  rintro ⟨x, hx, hc⟩
  exact (h x hx).ends hc

/-- A load after a save, unless the language ends the text. -/
theorem configLoad_saved (o : Overflow) {cfg : AppConfig} (h : ConfigOk cfg) (hz : '\x1a' ∉ cfg.language) :
    configLoad o (some (configSave cfg)) =
      { cfg with
        version := uint32 (o.storedInt cfg.version)
        disks := []
        language := loadedLanguage cfg.language } := by
  obtain ⟨hne, hlen, hs, _⟩ := h.language
  have hlanguage : '\x1a' ∉ fieldLine "language".toList (quote cfg.language) := by
    unfold fieldLine quote
    simp only [List.mem_append, List.mem_cons, not_or]
    exact ⟨⟨⟨⟨by decide, by decide⟩, by decide⟩, ⟨by decide, hz⟩, by decide, nofun⟩, by decide⟩
  have htext : readText (configSave cfg) = configSave cfg := by
    have hno : '\x1a' ∉ configSave cfg := by
      unfold configSave
      simp only [List.mem_append, not_or]
      exact ⟨⟨flatten_ends (headLines_line h), hlanguage⟩, flatten_ends (tailLines_line h)⟩
    have hall : ∀ c ∈ configSave cfg, decide (c ≠ '\x1a') = true := fun c hc =>
      decide_eq_true fun hce => hno (hce ▸ hc)
    unfold readText
    rw [← List.append_nil (configSave cfg), List.takeWhile_append_of_pos hall, List.takeWhile_nil]
  have hhead := headLines_load o h configDefaults
  have hkept : ((headLines cfg).foldl (loadLine o) configDefaults).language = configDefaults.language := by
    rw [hhead]
  obtain ⟨ls, hls, hload⟩ := languageLine_load o hkept hne hlen hs hz ((tailLines cfg).flatten ++ [])
  have hlines : readLines 511 511 [] (configSave cfg) = headLines cfg ++ (ls ++ tailLines cfg) := by
    have hnil : readLines 511 511 [] [] = [] := rfl
    unfold configSave
    rw [List.append_assoc, readLines_flatten (headLines_line h), ← List.append_nil (tailLines cfg).flatten, hls,
      readLines_flatten (tailLines_line h), hnil, List.append_nil]
  change (readLines 511 511 [] (readText (configSave cfg))).foldl (loadLine o) configDefaults = _
  have hdisks : configDefaults.disks = [] := rfl
  rw [htext, hlines, List.foldl_append, List.foldl_append, hload, tailLines_load, hhead]
  simp only [hdisks]

/-! ### A language that ends the text -/

theorem read_language (o : Overflow) {f : Field} (hf : f ∈ fields o) (p : List Char) (cfg : AppConfig) :
    (f.read p cfg).language = cfg.language ∨ ∀ c ∈ (f.read p cfg).language, c ∈ p := by
  have hint : ∀ key behind (set : ℤ → AppConfig → AppConfig), (∀ z, (set z cfg).language = cfg.language) →
      ((intField o key behind set).read p cfg).language = cfg.language := by
    intro key behind set hset
    unfold intField
    simp only
    split
    · exact hset _
    · rfl
  unfold fields at hf
  simp only [List.mem_cons, List.not_mem_nil, or_false] at hf
  rcases hf with rfl | rfl | rfl | rfl | rfl | rfl | rfl | rfl | rfl | rfl | rfl
  · exact Or.inl (hint _ _ _ fun _ => rfl)
  · exact Or.inl (hint _ _ _ fun _ => rfl)
  · exact Or.inl (hint _ _ _ fun _ => rfl)
  · left
    unfold mountLetterField
    simp only
    split <;> rfl
  · exact Or.inl rfl
  · exact Or.inl (hint _ _ _ fun _ => rfl)
  · unfold languageField
    simp only
    split
    · next s more heq =>
      have hin := List.mem_cons_self (a := Scanned.word s) (l := more)
      rw [← heq] at hin
      exact Or.inr (scan_chars _ hin)
    · exact Or.inl rfl
  · exact Or.inl rfl
  · exact Or.inl rfl
  · exact Or.inl rfl
  · left
    unfold diskField
    simp only
    split
    · split <;> rfl
    · rfl

/-- A line leaves the language or makes it of characters of its own. -/
theorem loadLine_chars (o : Overflow) (cfg : AppConfig) (line : List Char) {c : Char}
    (hc : c ∈ (loadLine o cfg line).language) : c ∈ cfg.language ∨ c ∈ line := by
  unfold loadLine at hc
  simp only at hc
  split at hc
  · exact Or.inl hc
  split at hc
  · exact Or.inl hc
  split at hc
  · exact Or.inl hc
  next f hf =>
  rcases read_language o (List.mem_of_find?_eq_some hf) (line.dropWhile fun c => decide (c ≤ ' ')) cfg with h | h
  · rw [h] at hc
    exact Or.inl hc
  · exact Or.inr ((List.dropWhile_suffix _).mem (h c hc))

theorem foldl_chars (o : Overflow) {c : Char} (ls : List (List Char)) :
    ∀ {cfg : AppConfig}, c ∈ (ls.foldl (loadLine o) cfg).language → c ∈ cfg.language ∨ c ∈ ls.flatten := by
  induction ls with
  | nil => exact fun h => Or.inl h
  | cons line ls ih =>
    intro cfg h
    rw [List.flatten_cons, List.mem_append]
    rcases ih h with h | h
    · exact (loadLine_chars o cfg line h).imp_right Or.inl
    · exact Or.inr (Or.inr h)

/-- A load reads nothing behind the end of the text. -/
theorem configLoad_ends (o : Overflow) (file : List Char) : '\x1a' ∉ (configLoad o (some file)).language := by
  intro hc
  rcases foldl_chars o _ hc with h | h
  · exact absurd h (by decide)
  · rw [flatten_readLines, List.reverse_nil, List.nil_append] at h
    have hne := List.all_eq_true.mp List.all_takeWhile _ h
    exact absurd rfl (of_decide_eq_true hne)

/-- A configuration comes back exactly if it has no disks, its language neither breaks its line nor
ends the text nor is `disks`, and its version can be stored. -/
theorem configLoad_configSave (o : Overflow) {cfg : AppConfig} (h : ConfigOk cfg) :
    configLoad o (some (configSave cfg)) = cfg ↔
      cfg.disks = [] ∧ ('\n' ∉ cfg.language.dropLast ∧ cfg.language ≠ "disks".toList ∧ '\x1a' ∉ cfg.language) ∧
        (cfg.version < 2^31 ∨ uint32 (o.int cfg.version) = cfg.version) := by
  by_cases hz : '\x1a' ∈ cfg.language
  · refine iff_of_false (fun he => ?_) fun hc => hc.2.1.2.2 hz
    exact configLoad_ends o (configSave cfg) (by rw [he]; exact hz)
  have hversion : uint32 (o.storedInt cfg.version) = cfg.version ↔
      cfg.version < 2^31 ∨ uint32 (o.int cfg.version) = cfg.version := by
    by_cases hlt : cfg.version < 2^31
    · exact iff_of_true (stored_of_lt o hlt) (Or.inl hlt)
    · have hstored : o.storedInt cfg.version = o.int cfg.version := if_neg (by omega)
      rw [hstored, or_iff_right hlt]
  rw [configLoad_saved o h hz, ← hversion, ← and_assoc (a := '\n' ∉ _), ← loadedLanguage_eq_iff, and_iff_left hz]
  constructor
  · intro he
    have hversion := congrArg AppConfig.version he
    have hlanguage := congrArg AppConfig.language he
    have hdisks := congrArg AppConfig.disks he
    simp only at hversion hlanguage hdisks
    exact ⟨hdisks.symm, hlanguage, hversion⟩
  · rintro ⟨hd, hl, hv⟩
    rw [hl, hv, ← hd]

/-- No value is the default one. -/
def otherConfig : AppConfig where
  version := 3
  disks := []
  cacheMb := 1024
  poolMb := 2147483647
  mountLetter := 'S'
  autoBench := false
  theme := -1
  language := "zh-Hant".toList
  autoRestore := false
  autoMount := false
  firstRun := false

theorem configLoad_configSave_sample : configLoad ⟨id, id⟩ (some (configSave otherConfig)) = otherConfig := by
  have hok : ConfigOk otherConfig :=
    ⟨by decide, by decide, nofun, by decide, by decide, ⟨by decide, by decide⟩, ⟨by decide, by decide⟩,
      ⟨by decide, by decide, by decide, by decide⟩⟩
  exact (configLoad_configSave ⟨id, id⟩ hok).mpr ⟨rfl, ⟨by decide, by decide, by decide⟩, Or.inl (by decide)⟩

def oneDisk : AppConfig := { configDefaults with disks := [⟨1, 'D', 51200⟩] }

/-- A disk does not come back. -/
theorem configLoad_configSave_fails : ConfigOk oneDisk ∧ configLoad ⟨id, id⟩ (some (configSave oneDisk)) ≠ oneDisk := by
  refine ⟨⟨by decide, by decide, ?_, by decide, by decide, ⟨by decide, by decide⟩, ⟨by decide, by decide⟩,
    ⟨by decide, by decide, by decide, by decide⟩⟩, by decide +kernel⟩
  intro dc hdc
  rw [List.mem_singleton.mp hdc]
  exact ⟨by decide, by decide, by decide, by decide⟩

end RaidTest.Config
