import BlobStore.Proofs.Command.Arguments
import BlobStore.Proofs.Command.Shown
import BlobStore.Proofs.Config.Defaults
import BlobStore.Proofs.Config.Saving

/-!
# A configuration that a call has saved

A call that saves its configuration leaves a file from which later calls work as it has
(`config_save_fixpoint`).  What is saved is the configuration that the call itself has used, so it
has made a store of it before (`exists_save_of_run`).  It is read back because its block size fits
into 64 bits wherever it comes from: the words of the call, the file, or the standard
(`fits_loadConfig`).  The settings that have been saved can be given again or be left out:
overriding once more changes nothing (`override_override`).
-/

namespace BlobStore

/-! ## Block sizes -/

theorem getD_le {o : Option Nat} {n bound : Nat} (hn : n ≤ bound) (ho : ∀ m, o = some m → m ≤ bound) :
    o.getD n ≤ bound := by
  cases o with
  | none => exact hn
  | some m => exact ho m rfl

namespace Config

/-- A configuration that has been read has a block size of 64 bits. -/
theorem fits_ofJson {text : String} {c : Config} (h : ofJson text = .ok c) :
    c.blockSize ≤ Json.maxNatural := by
  obtain ⟨v, draft, -, hfills, hfinish⟩ :=
    Json.Schema.exists_denotes_of_readAll takesValues_schema h
  obtain rfl := Except.ok.inj hfinish
  have hdraft : ∀ n, draft.blockSize = some n → n ≤ Json.maxNatural := by
    refine hfills (∀ n, ·.blockSize = some n → n ≤ Json.maxNatural) ?_ (fun n hn => by cases hn)
    intro f hf _ draft hdraft
    simp only [schema, List.mem_cons, List.not_mem_nil, or_false] at hf
    rcases hf with rfl | rfl | rfl | rfl | rfl
    · exact .after fun _ => .pure hdraft
    · exact .after fun _ => .pure hdraft
    · exact .after fun _ => .pure hdraft
    · refine (Json.ensures_readNatural _).bind fun n hn => .pure fun m hm => ?_
      obtain rfl := Option.some.inj hm
      exact hn
    · exact .after fun _ => .pure hdraft
  exact getD_le (by decide) hdraft

theorem fits_load {p : Path} {d d' : Disk} {c : Config} (h : (load p).run d = (.ok c, d')) :
    c.blockSize ≤ Json.maxNatural := by
  obtain ⟨text, d₁, -, hread⟩ := Action.run_bind_eq_ok.mp h
  split at hread
  · next c' hc' =>
    obtain rfl : c' = c := Except.ok.inj (Prod.mk.inj hread).1
    exact fits_ofJson hc'
  · cases hread

end Config

namespace Settings

variable {settings : Settings} {p : Path} {saving : Bool} {around : Surroundings} {d d' : Disk}
  {c : Config}

/-- The configuration with which a call begins has a block size of 64 bits. -/
theorem fits_loadConfig (hfile : settings.configFile = some p)
    (huse : settings.noConfigFile = false)
    (h : (settings.loadConfig saving around).run d = (.ok c, d')) :
    c.blockSize ≤ Json.maxNatural := by
  rw [loadConfig, if_neg (by simp [huse]), hfile] at h
  obtain ⟨found, d₁, -, h⟩ := Action.run_bind_eq_ok.mp h
  split_ifs at h
  · exact Config.fits_load (Action.run_mapError_eq_ok.mp h)
  · obtain rfl := Except.ok.inj (Prod.mk.inj h).1
    decide
  · cases h

theorem Fits.override (hs : settings.Fits) (hc : c.blockSize ≤ Json.maxNatural) :
    (settings.override c).blockSize ≤ Json.maxNatural := getD_le hc hs

/-! ## Settings that are given again, or left out -/

/-- Settings that have been given once need not be given again. -/
theorem override_override (settings : Settings) (c : Config) :
    settings.override (settings.override c) = settings.override c := by
  obtain ⟨_, _, root, scheme, algorithm, blockSize, atomicWrites, _⟩ := settings
  cases root <;> cases scheme <;> cases algorithm <;> cases blockSize <;> cases atomicWrites <;> rfl

/-- Settings that name the configuration file, and perhaps a format, and override nothing. -/
def bare (file : Path) (format : Option Format) : Settings :=
  { none with configFile := some file, format := format }

theorem override_bare (file : Path) (format : Option Format) (c : Config) :
    (bare file format).override c = c := rfl

/-- A configuration that can be loaded is the one with which a call begins. -/
theorem loadConfig_of_load (hfile : settings.configFile = some p)
    (huse : settings.noConfigFile = false) (hload : (Config.load p).run d = (.ok c, d))
    (saving : Bool) (around : Surroundings) :
    (settings.loadConfig saving around).run d = (.ok c, d) := by
  obtain ⟨b, hb⟩ := exists_file?_of_load hload
  rw [loadConfig, if_neg (by simp [huse]), hfile]
  dsimp only
  rw [Action.run_bind, run_leadsSomewhere, Disk.isOk_kind hb]
  exact Action.run_mapError_eq_ok.mpr hload

end Settings

/-! ## Calls -/

namespace Invocation

variable {settings : Settings} {p : Path} {around : Surroundings} {input : Source} {d d' : Disk}
  {c : Config}

/-- When its configuration can be loaded, a call carries out its command. -/
theorem run_of_load (hfile : settings.configFile = some p) (huse : settings.noConfigFile = false)
    (hload : (Config.load p).run d = (.ok c, d)) (command : Command) :
    (run ⟨settings, command⟩ around input).run d =
      (command.run settings (settings.override c) around input).run d := by
  rw [run, Action.run_bind, Settings.loadConfig_of_load hfile huse hload]

end Invocation

namespace Command

variable {settings : Settings} {p : Path} {around : Surroundings} {input : Source} {d d' : Disk}
  {c : Config}

/-- The configuration of a store is shown if its root can be written. -/
theorem run_config {options : Options} {root : String} (hoptions : c.toOptions = .ok options)
    (hroot : c.root.toString? = some root) :
    ((config false).run settings c around input).run d =
      (.ok (settings.shown (configRecord c root none)), d) := by
  rw [run, Config.toStore, hoptions]
  dsimp only
  rw [runConfig, hroot]
  rfl

/-- A configuration is saved, and shown, after a store has been made of it. -/
theorem run_config_save_eq_ok (hfile : settings.configFile = some p) {output : ByteArray} :
    ((config true).run settings c around input).run d = (.ok output, d') ↔
      ∃ options root, c.toOptions = .ok options ∧ c.root.toString? = some root ∧
        (c.save p).run d = (.ok (), d') ∧
        settings.shown (configRecord c root (some p)) = output := by
  have hrun {options : Options} (hoptions : c.toOptions = .ok options) :
      (config true).run settings c around input =
        settings.shown <$> runConfig c (some p) true := by
    rw [run, Config.toStore, hoptions, hfile]
    rfl
  constructor
  · intro h
    obtain ⟨store, d₁, hstore, -⟩ := Action.run_bind_eq_ok.mp h
    rw [Action.run_mapError_eq_ok, Action.run_ofExcept] at hstore
    cases hoptions : c.toOptions with
    | error e => simp [Config.toStore, hoptions, Except.map] at hstore
    | ok options =>
      rw [hrun hoptions, Action.run_map_eq_ok] at h
      obtain ⟨record, hrecord, rfl⟩ := h
      unfold runConfig at hrecord
      split at hrecord
      · cases hrecord
      · next root hroot =>
        rw [if_pos rfl] at hrecord
        obtain ⟨⟨⟩, d₂, hsave, hlast⟩ := Action.run_bind_eq_ok.mp hrecord
        obtain ⟨hshown, rfl⟩ := Prod.mk.inj hlast
        obtain rfl := Except.ok.inj hshown
        exact ⟨options, root, rfl, hroot, Action.run_mapError_eq_ok.mp hsave, rfl⟩
  · rintro ⟨options, root, hoptions, hroot, hsave, rfl⟩
    rw [hrun hoptions, Action.run_map_eq_ok]
    refine ⟨_, ?_, rfl⟩
    rw [runConfig, hroot]
    exact Action.run_bind_eq_ok.mpr ⟨(), d', Action.run_mapError_eq_ok.mpr hsave, rfl⟩

end Command

/-! ## The call that saves, and those after it -/

namespace Command

/-- What is printed of a configuration. -/
structure ShowsConfig (c : Config) (root : String) (v : Json.Datum) : Prop where
  root : v.field? "root" = some (.text (Json.units root))
  transform : v.field? "transform" = some (.text (Json.units c.scheme.name))
  hash : v.field? "hash" = some (.text (Json.units c.algorithm.name))
  blockSize : v.field? "block_size" = some (.number (Nat.toDigits 10 c.blockSize))
  atomicWrites : v.field? "atomic_writes" = some (.boolean c.atomicWrites)

/-- A configuration is printed in the same way whether it has been saved or not. -/
theorem showsConfig_configRecord (c : Config) (root : String) (saved : Option Path) :
    ShowsConfig c root (configRecord c root saved).datum := by
  constructor <;> rw [Json.Record.field?_datum] <;> cases saved <;> rfl

variable {ε : Type} {words : List Word} {settings : Settings} {file : Path} {around : Surroundings}
  {input : Source} {d d' : Disk} {c : Config} {options : Options} {root : String}
  {outcome : Outcome}

/-- What is saved is the configuration that the call uses. -/
theorem exists_save_of_run (hfile : settings.configFile = some file)
    (huse : settings.noConfigFile = false) (hfits : settings.Fits) {output : ByteArray}
    (hrun : (Invocation.run ⟨settings, config true⟩ around input).run d = (.ok output, d')) :
    ∃ c options root, c.toOptions = .ok options ∧ c.root.toString? = some root ∧
      settings.override c = c ∧ c.blockSize ≤ Json.maxNatural ∧ (c.save file).run d = (.ok (), d') ∧
      settings.shown (configRecord c root (some file)) = output := by
  obtain ⟨loaded, d₁, hloaded, hcommand⟩ := Action.run_bind_eq_ok.mp hrun
  have hlooks : d₁ = d := by
    have hsame := (asks_loadConfig settings true around).run_looks d
    rwa [show (settings.loadConfig true around).run d = (.ok loaded, d₁) from hloaded] at hsame
  obtain ⟨options, root, hoptions, hroot, hsave, houtput⟩ :=
    (run_config_save_eq_ok hfile).mp hcommand
  exact ⟨settings.override loaded, options, root, hoptions, hroot, settings.override_override loaded,
    hfits.override (Settings.fits_loadConfig hfile huse hloaded), hlooks ▸ hsave, houtput⟩

section later

variable {format : Option Format} (hload : (Config.load file).run d = (.ok c, d))

include hload

/-- A call that only names the file shows the configuration in it. -/
theorem run_config_bare (hoptions : c.toOptions = .ok options)
    (hroot : c.root.toString? = some root) :
    (Invocation.run ⟨.bare file format, config false⟩ around input).run d =
      (.ok ((Settings.bare file format).shown (configRecord c root none)), d) := by
  rw [Invocation.run_of_load rfl rfl hload, Settings.override_bare]
  exact run_config hoptions hroot

/-- It saves what it has loaded. -/
theorem run_config_save_bare (hoptions : c.toOptions = .ok options)
    (hroot : c.root.toString? = some root) (hsave : (c.save file).run d = (.ok (), d')) :
    (Invocation.run ⟨.bare file format, config true⟩ around input).run d =
      (.ok ((Settings.bare file format).shown (configRecord c root (some file))), d') := by
  rw [Invocation.run_of_load rfl rfl hload, Settings.override_bare]
  exact (run_config_save_eq_ok rfl).mpr ⟨options, root, hoptions, hroot, hsave, rfl⟩

/-- Settings that are in the file do not change where a key is. -/
theorem run_path_bare (hfile : settings.configFile = some file)
    (huse : settings.noConfigFile = false) (hover : settings.override c = c) (key : String) :
    (Invocation.run ⟨settings, path key⟩ around input).run d =
      (Invocation.run ⟨.bare file settings.format, path key⟩ around input).run d := by
  rw [Invocation.run_of_load hfile huse hload, Invocation.run_of_load rfl rfl hload, hover,
    Settings.override_bare]
  rfl

end later

/-- **What a call has saved is where later calls start from.**  Let a call save its configuration
to a file that it names, whatever was there before.  If it ends with the code 0, then it has printed
a configuration of which a store can be made, and this is what the file holds.  Without the settings
that were given, a later call prints the same root, transform, hash, block size and way of writing;
another one saves the same bytes again; and a key has the same place with the settings as without
them. -/
theorem config_save_fixpoint (hwords : Invocation.ofWords words = .ok ⟨settings, .config true⟩)
    (hfile : settings.configFile = some file) (huse : settings.noConfigFile = false)
    (hd : d.Stored)
    (hrun : (respond words around input : Action ε Outcome).run d = (.ok outcome, d'))
    (hcode : outcome.code = 0) :
    ∃ c options root, c.toOptions = .ok options ∧ c.root.toString? = some root ∧
      (Config.load file).run d' = (.ok c, d') ∧
      outcome.output = settings.shown (configRecord c root (some file)) ∧
      Shows outcome.output (ShowsConfig c root) ∧
      ∀ (format : Option Format) (around' : Surroundings) (input' : Source),
        let bare := Settings.bare file format
        (∀ words', Invocation.ofWords words' = .ok ⟨bare, .config false⟩ →
          (respond words' around' input' : Action ε Outcome).run d' =
            (.ok ⟨0, bare.shown (configRecord c root none), ""⟩, d') ∧
          Shows (bare.shown (configRecord c root none)) (ShowsConfig c root)) ∧
        (∀ words', Invocation.ofWords words' = .ok ⟨bare, .config true⟩ →
          ∃ outcome' d'', (respond words' around' input' : Action ε Outcome).run d' =
            (.ok outcome', d'') ∧ outcome'.code = 0 ∧ d''.file? file = d'.file? file) ∧
        ∀ key words₁ words₂, format = settings.format →
          Invocation.ofWords words₁ = .ok ⟨settings, .path key⟩ →
          Invocation.ofWords words₂ = .ok ⟨bare, .path key⟩ →
          (respond words₁ around' input' : Action ε Outcome).run d' =
            (respond words₂ around' input').run d' := by
  obtain ⟨c, options, root, hoptions, hroot, hover, hfits, hsave, houtput⟩ :=
    exists_save_of_run hfile huse (Invocation.fits_ofWords hwords)
      (run_of_code_eq_zero hwords hrun hcode)
  have hload : (Config.load file).run d' = (.ok c, d') := (Config.save_load hfits hd file).1 d' hsave
  obtain ⟨d'', hagain, hbytes⟩ := Config.exists_save_of_save hd hsave
  refine ⟨c, options, root, hoptions, hroot, hload, houtput.symm,
    houtput ▸ settings.shows_shown (showsConfig_configRecord ..), fun format around' input' => ?_⟩
  refine ⟨fun words' hwords' => ⟨?_, ?_⟩, fun words' hwords' => ?_, ?_⟩
  · rw [run_respond hwords', run_config_bare hload hoptions hroot]
  · exact Settings.shows_shown _ (showsConfig_configRecord ..)
  · rw [run_respond hwords', run_config_save_bare hload hoptions hroot hagain]
    exact ⟨_, _, rfl, rfl, hbytes⟩
  · rintro key words₁ words₂ rfl hwords₁ hwords₂
    rw [run_respond hwords₁, run_respond hwords₂, run_path_bare hload hfile huse hover]

/-- A block size and atomic writes are saved to a file in a directory that is not there.  They are
printed then and later. -/
theorem config_save_fixpoint_missing :
    let words (given : List String) : List Word := given.map fun w => (Path.ofString w).bytes
    let call (given : List String) : Action Empty Outcome :=
      respond (words given) ⟨none, none⟩ (.ofBytes ByteArray.empty)
    let file := Path.ofString "n/c"
    let settings : Settings :=
      { Settings.none with configFile := some file, blockSize := some 7, atomicWrites := true }
    let saved : Config := { Config.standard with blockSize := 7, atomicWrites := true }
    Invocation.ofWords (words ["--config", "n/c", "-b", "7", "--atomic", "config", "--save"]) =
        .ok ⟨settings, .config true⟩ ∧
      settings.configFile = some file ∧ settings.noConfigFile = false ∧ Sample.disk.Stored ∧
      ∃ outcome d', (call ["--config", "n/c", "-b", "7", "--atomic", "config", "--save"]).run
          Sample.disk = (.ok outcome, d') ∧ outcome.code = 0 ∧
        Shows outcome.output (ShowsConfig saved "supernetwork") ∧
        (∃ output, (call ["-c", "n/c", "config"]).run d' = (.ok ⟨0, output, ""⟩, d') ∧
          Shows output (ShowsConfig saved "supernetwork")) ∧
        (∃ outcome' d'', (call ["-c", "n/c", "config", "--save"]).run d' = (.ok outcome', d'') ∧
          outcome'.code = 0 ∧ d''.file? file = d'.file? file) ∧
        (call ["-c", "n/c", "-b7", "--atomic", "path", "k"]).run d' =
          (call ["-c", "n/c", "path", "k"]).run d' := by
  intro words call file settings saved
  have hsave : Invocation.ofWords
      (words ["--config", "n/c", "-b", "7", "--atomic", "config", "--save"]) =
        .ok ⟨settings, .config true⟩ := ofWords_of_toOption (by decide +kernel)
  have hshow : Invocation.ofWords (words ["-c", "n/c", "config"]) =
      .ok ⟨.bare file none, .config false⟩ := ofWords_of_toOption (by decide +kernel)
  have hagain : Invocation.ofWords (words ["-c", "n/c", "config", "--save"]) =
      .ok ⟨.bare file none, .config true⟩ := ofWords_of_toOption (by decide +kernel)
  have hset : Invocation.ofWords (words ["-c", "n/c", "-b7", "--atomic", "path", "k"]) =
      .ok ⟨settings, .path "k"⟩ := ofWords_of_toOption (by decide +kernel)
  have hbare : Invocation.ofWords (words ["-c", "n/c", "path", "k"]) =
      .ok ⟨.bare file none, .path "k"⟩ := ofWords_of_toOption (by decide +kernel)
  obtain ⟨outcome, d', hrun, hcode⟩ :
      ∃ outcome d', (call ["--config", "n/c", "-b", "7", "--atomic", "config", "--save"]).run
        Sample.disk = (.ok outcome, d') ∧ outcome.code = 0 :=
    Sample.exists_outcome (by decide +kernel)
  obtain ⟨c, options, root, -, hroot, hload, -, hshows, hlater⟩ :=
    config_save_fixpoint hsave rfl rfl Sample.stored_disk hrun hcode
  have hsaved : ((Config.load file).run ((call ["--config", "n/c", "-b", "7", "--atomic", "config",
      "--save"]).run Sample.disk).2).1.toOption = some saved := by decide +kernel
  rw [hrun, hload] at hsaved
  obtain rfl : c = saved := Option.some.inj hsaved
  obtain rfl : "supernetwork" = root := Option.some.inj (Eq.trans (by decide +kernel) hroot)
  obtain ⟨hconfig, hresaved, hpath⟩ := hlater none ⟨none, none⟩ (.ofBytes ByteArray.empty)
  exact ⟨hsave, rfl, rfl, Sample.stored_disk, outcome, d', hrun, hcode, hshows,
    ⟨_, hconfig _ hshow⟩, hresaved _ hagain, hpath "k" _ _ rfl hset hbare⟩

end Command

end BlobStore
