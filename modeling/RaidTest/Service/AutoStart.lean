import RaidTest.Config.RoundTrip
import RaidTest.Service.Restore

/-!
# Starting with a saved configuration (`main.c`)

The program comes to `do_restore` at its start only, with the configuration that `config_load`
has made of the file a moment before. A restore with a configuration of its own would make all
pool files anew; with one from a file it has no disk to restore.
-/

namespace RaidTest.Service
open RaidTest.Base RaidTest.Stripe RaidTest.Cache RaidTest.Volume

/-! ### The start -/

/-- The starts that lead to `do_restore`: `--auto`, with or without a letter, `--cli`, and `--auto ""`, which is the
empty command. -/
inductive Start where
  | auto
  | cli
  | command
  deriving Repr, DecidableEq

/-- The configuration in `g_state` for one from a file. -/
def AppConfig.ofFile (cfg : Config.AppConfig) (few : cfg.disks.length ≤ maxDisks) : AppConfig :=
  ⟨cfg.disks.map fun dc => ⟨dc.diskId, dc.driveLetter.toNat, dc.poolMb⟩, cfg.cacheMb, by rw [List.length_map]; exact few⟩

/-- `config_load(&g_state.cfg.config)`, in `raid_init` and in `auto_restore_or_quick`. -/
def loadedConfig (o : Config.Overflow) (file : Option (List Char)) : AppConfig :=
  .ofFile (Config.configLoad o file) (by rw [Config.configLoad_disks]; exact Nat.zero_le _)

/-- `cli_main` up to the end of `do_restore`; `none` where it goes to the quick setup. -/
def cliMain (env : SetupEnv) (config : AppConfig) (c : Console) : Start → Option Console
  | .auto => some (doRestore env config c).2
  | .cli => if 0 < config.disks.length then some (doRestore env config c).2 else none
  | .command => if 0 < config.disks.length then some (doRestore env config (raidScan env.found c).2).2 else none

/-! ### What a start restores -/

theorem loadedConfig_disks (o : Config.Overflow) (file : Option (List Char)) : (loadedConfig o file).disks = [] := by
  unfold loadedConfig AppConfig.ofFile
  simp only [Config.configLoad_disks, List.map_nil]

/-- A restore without disks is over at once. -/
theorem cliMain_empty {env : SetupEnv} {config : AppConfig} {c t : Console} {start : Start} (hempty : config.disks = [])
    (h : cliMain env config c start = some t) : t = c := by
  have hguard : ¬ 0 < config.disks.length := by
    rw [hempty]
    exact Nat.lt_irrefl 0
  cases start with
  | auto =>
    rw [cliMain, doRestore, if_pos hempty] at h
    exact (Option.some.inj h).symm
  | cli =>
    rw [cliMain, if_neg hguard] at h
    cases h
  | command =>
    rw [cliMain, if_neg hguard] at h
    cases h

/-- Disk 0 on C and disk 1 on D, with pools of 1 GiB. -/
def pairFile : Config.AppConfig :=
  { Config.configDefaults with disks := [⟨0, 'C', 1024⟩, ⟨1, 'D', 1024⟩], cacheMb := 256 }

def pairConfig : AppConfig := .ofFile pairFile (by decide)

def onesDisks : Disks := ⟨fun _ => { scannedDisk with poolBytes := 1073741824 }, fun _ _ => 1⟩

/-- Everything succeeds, and both drives have a pool file. -/
def onesEnv : SetupEnv where
  found := twoDrives
  init := ⟨fun p => if p = 67 ∨ p = 68 then some ⟨1073741824, fun _ => 1⟩ else none, fun _ => .good, fun _ => .good⟩
  create := ⟨fun _ => .good, fun _ => true, true⟩
  alloc := .good
  thread := true
  fuse := true

def onesVolume : StripeVolume := (stripeVolumeCreate onesDisks [0, 1] defaultStripeUnit).getD .zero

def onesSaved : SavedVolume pairConfig onesEnv.init.file where
  disks := [0, 1]
  d := onesDisks
  v := onesVolume
  created := rfl
  count := rfl
  sizes := by
    intro x hx
    simp only [pairConfig, AppConfig.ofFile, pairFile, List.map_cons, List.map_nil, List.zip_cons_cons, List.zip_nil_right,
      List.mem_cons, List.not_mem_nil, or_false] at hx
    rcases hx with rfl | rfl <;> decide
  files := by
    intro x hx
    simp only [pairConfig, AppConfig.ofFile, pairFile, List.map_cons, List.map_nil, List.zip_cons_cons, List.zip_nil_right,
      List.mem_cons, List.not_mem_nil, or_false] at hx
    rcases hx with rfl | rfl <;> rfl
  drives := by decide

end RaidTest.Service
