import BlobStore.Proofs.Command.Configuration
import BlobStore.Proofs.Command.Words
import BlobStore.Proofs.Config.Defaults

/-!
# Configuration files and switches

What a configuration file says can be said by switches as well.  `Settings.spelledOut` are the
settings that give all fields in the words of the call, each as some settings give it or else as the
file has it.  A call with them and without the file does the same as a call with the file
(`flags_interchangeable`), because a command looks at its settings only for the format, and for the
file to which it saves (`run_congr`).

The settings that are spelled out can be given: a block size that has been read fits into 64 bits,
wherever it has been read.  Only an empty root cannot be given in words, though it can stand in a
file.
-/

namespace BlobStore

/-! ## Settings in the place of a file -/

namespace Settings

variable {settings : Settings} {c : Config}

/-- Settings that ignore configuration files and give every field in words: as some settings give
it, or as a configuration has it. -/
def spelledOut (settings : Settings) (c : Config) : Settings where
  configFile := .none
  noConfigFile := true
  root := some (settings.root.getD c.root)
  scheme := some (settings.scheme.getD c.scheme)
  algorithm := some (settings.algorithm.getD c.algorithm)
  blockSize := some (settings.blockSize.getD c.blockSize)
  atomicWrites := settings.atomicWrites || c.atomicWrites
  format := settings.format

/-- The fields of a configuration that some settings give. -/
def mentions (settings : Settings) : List String :=
  settings.root.toList.map (fun _ => "root") ++
  settings.scheme.toList.map (fun _ => "transform") ++
  settings.algorithm.toList.map (fun _ => "hash") ++
  settings.blockSize.toList.map (fun _ => "block_size") ++
  if settings.atomicWrites then ["atomic_writes"] else []

theorem override_spelledOut (settings : Settings) (c : Config) :
    (settings.spelledOut c).override Config.standard = settings.override c := by
  rw [override, spelledOut, override]
  simp [Config.standard]

theorem sayable_spelledOut (hfits : settings.Fits)
    (hpath : ∀ p, settings.root = some p → p.bytes ≠ []) (hblockSize : c.blockSize ≤ Json.maxNatural)
    (hroot : c.root.bytes ≠ []) : (settings.spelledOut c).Sayable where
  configFile _ h := by cases h
  root p hp := by
    obtain rfl := Option.some.inj hp
    cases hset : settings.root with
    | none => exact hroot
    | some p => exact hpath p hset
  fits n hn := by
    obtain rfl := Option.some.inj hn
    exact getD_le hblockSize hfits
  consistent _ := rfl

/-- A field that neither some settings nor a file give is standard. -/
theorem standardBut_override {given : String → Prop} (h : c.StandardBut given) :
    (settings.override c).StandardBut fun name => name ∈ settings.mentions ∨ given name := by
  obtain ⟨_, _, root, scheme, algorithm, blockSize, atomicWrites, _⟩ := settings
  constructor
  · intro hname
    cases root with
    | none => exact h.root fun hgiven => hname (Or.inr hgiven)
    | some p => exact absurd (Or.inl (by simp [mentions])) hname
  · intro hname
    cases scheme with
    | none => exact h.scheme fun hgiven => hname (Or.inr hgiven)
    | some k => exact absurd (Or.inl (by simp [mentions])) hname
  · intro hname
    cases algorithm with
    | none => exact h.algorithm fun hgiven => hname (Or.inr hgiven)
    | some a => exact absurd (Or.inl (by simp [mentions])) hname
  · intro hname
    cases blockSize with
    | none => exact h.blockSize fun hgiven => hname (Or.inr hgiven)
    | some n => exact absurd (Or.inl (by simp [mentions])) hname
  · intro hname
    cases atomicWrites with
    | false => exact h.atomicWrites fun hgiven => hname (Or.inr hgiven)
    | true => exact absurd (Or.inl (by simp [mentions])) hname

end Settings

/-! ## Calls -/

namespace Command

variable {ε : Type} {words : List Word} {settings settings' : Settings} {command : Command}
  {file : Path} {around : Surroundings} {input : Source} {d : Disk} {c : Config}

/-- A command that does not save looks at its settings only for the format. -/
theorem run_congr (hsaving : command.isSaving = false) (hformat : settings'.format = settings.format)
    (c : Config) (around : Surroundings) (input : Source) :
    command.run settings' c around input = command.run settings c around input := by
  cases command with
  | config save =>
    obtain rfl : save = false := hsaving
    have hrunConfig (file file' : Option Path) :
        runConfig c file' false = runConfig c file false := by
      rw [runConfig, runConfig]
      cases c.root.toString? <;> rfl
    rw [run, run, hformat]
    dsimp only
    rw [hrunConfig]
  | get key output =>
    rw [run, run, hformat]
    cases output <;> rfl
  | _ =>
    rw [run, run, hformat]

/-- Without a configuration file a call begins with the standard configuration. -/
theorem run_of_noConfigFile (huse : settings.noConfigFile = true) (command : Command)
    (around : Surroundings) (input : Source) :
    Invocation.run ⟨settings, command⟩ around input =
      command.run settings (settings.override Config.standard) around input := by
  rw [Invocation.run, Settings.loadConfig, if_pos huse]
  rfl

/-- **A configuration file and switches are interchangeable.**  Let the words of a call name a
configuration file, from which a configuration can be loaded whose root is not empty, and any
settings besides; the command does not save the configuration.  The settings that are spelled out
can be given in words, in front of the same command with the same words after it.  However they are
given, the call does the same: its exit code, its output, its report and the disk afterwards are
those of the call with the file.  A field that neither the file nor the settings mention is
standard. -/
theorem flags_interchangeable (hwords : Invocation.ofWords words = .ok ⟨settings, command⟩)
    (hfile : settings.configFile = some file) (huse : settings.noConfigFile = false)
    (hsaving : command.isSaving = false) (hload : (Config.load file).run d = (.ok c, d))
    (hroot : c.root.bytes ≠ []) :
    let flags := settings.spelledOut c
    (∃ (before : List Word) (name : String) (rest : List Word),
      words = before ++ name.toUTF8.data.toList :: rest ∧
      Invocation.ofWords (flags.words ++ name.toUTF8.data.toList :: rest) =
        .ok ⟨flags, command⟩) ∧
    (∀ words', Invocation.ofWords words' = .ok ⟨flags, command⟩ →
      (respond words' around input : Action ε Outcome).run d =
        (respond words around input).run d) ∧
    ∃ text v, d.file? file = some text.toUTF8 ∧ (∀ v', Json.Denotes text v' ↔ v' = v) ∧
      (settings.override c).StandardBut fun name =>
        name ∈ settings.mentions ∨ Config.Gives v name := by
  intro flags
  refine ⟨?_, fun words' hwords' => ?_, ?_⟩
  · -- the values of the words can be given again, and those of the file have been read
    obtain ⟨hfits, hpath⟩ := Invocation.values_of_ofWords hwords
    have hsayable := Settings.sayable_spelledOut hfits hpath (Config.fits_load hload) hroot
    obtain ⟨before, name, rest, hbefore, hname, hread⟩ := Invocation.exists_of_ofWords hwords
    exact ⟨before, name, rest, hbefore, Invocation.ofWords_words hsayable hname hread⟩
  · -- both calls work with the same configuration, and look at nothing else
    have hrun : (Invocation.run ⟨flags, command⟩ around input).run d =
        (Invocation.run ⟨settings, command⟩ around input).run d := by
      have hformat : flags.format = settings.format := rfl
      rw [Invocation.run_of_load hfile huse hload, run_of_noConfigFile rfl,
        Settings.override_spelledOut, run_congr hsaving hformat]
    rw [run_respond hwords', run_respond hwords, hrun]
  · obtain ⟨text, htext, hread⟩ := Config.exists_text_of_load hload
    obtain ⟨v, hdenotes, hstandard⟩ := Config.exists_denotes_of_ofJson hread
    exact ⟨text, v, htext, hdenotes, Settings.standardBut_override hstandard⟩

/-- The file gives a root and a scheme, the words a block size; nothing gives an algorithm. -/
theorem flags_interchangeable_block_size :
    let fields : Json.Record := [("root", .text "s"), ("transform", .text "identity")]
    let d := (Sample.disk.insertFile [[0x63]]).setBytes 1 fields.compact.toUTF8
    let file : Path := ⟨[0x63]⟩
    let c : Config := { Config.standard with root := ⟨[0x73]⟩, scheme := .identity }
    let settings : Settings := { Settings.none with configFile := some file, blockSize := some 7 }
    let words (given : List String) : List Word :=
      (given ++ ["path", "k"]).map fun w => (Path.ofString w).bytes
    let call (given : List String) : Action Empty Outcome :=
      respond (words given) ⟨none, none⟩ (.ofBytes ByteArray.empty)
    Invocation.ofWords (words ["--config", "c", "-b", "7"]) = .ok ⟨settings, .path "k"⟩ ∧
      settings.configFile = some file ∧ settings.noConfigFile = false ∧
      (path "k").isSaving = false ∧ (Config.load file).run d = (.ok c, d) ∧ c.root.bytes ≠ [] ∧
      (∃ (before : List Word) (name : String) (rest : List Word),
        words ["--config", "c", "-b", "7"] = before ++ name.toUTF8.data.toList :: rest ∧
        Invocation.ofWords ((settings.spelledOut c).words ++ name.toUTF8.data.toList :: rest) =
          .ok ⟨settings.spelledOut c, path "k"⟩) ∧
      (call ["--no-config", "-r", "s", "-t", "identity", "--hash", "sha1", "-b7"]).run d =
        (call ["--config", "c", "-b", "7"]).run d ∧
      (settings.override c).algorithm = Config.standard.algorithm := by
  intro fields d file c settings words call
  have hwords : Invocation.ofWords (words ["--config", "c", "-b", "7"]) =
      .ok ⟨settings, .path "k"⟩ := ofWords_of_toOption (by decide +kernel)
  have hflags : Invocation.ofWords
      (words ["--no-config", "-r", "s", "-t", "identity", "--hash", "sha1", "-b7"]) =
        .ok ⟨settings.spelledOut c, .path "k"⟩ := ofWords_of_toOption (by decide +kernel)
  have htext : d.file? file = some fields.compact.toUTF8 := by decide +kernel
  have hread : Config.ofJson fields.compact = .ok c := by
    have hoption : (Config.ofJson fields.compact).toOption = some c := by decide +kernel
    cases h : Config.ofJson fields.compact with
    | error e => simp [h, Except.toOption] at hoption
    | ok c' => simpa [h, Except.toOption] using hoption
  have hload : (Config.load file).run d = (.ok c, d) := by rw [Config.run_load htext, hread]
  have hroot : c.root.bytes ≠ [] := List.cons_ne_nil _ _
  obtain ⟨hsaid, hsame, text', v, htext', hdenotes, hstandard⟩ :=
    flags_interchangeable hwords rfl rfl rfl hload hroot
  refine ⟨hwords, rfl, rfl, rfl, hload, hroot, hsaid, hsame _ hflags, hstandard.algorithm ?_⟩
  have hdatum : Json.Denotes fields.compact fields.datum :=
    Json.denotes_of_spelled (Json.spelled_compact fields)
  have heq : text' = fields.compact :=
    String.toByteArray_inj.mp (Option.some.inj (htext'.symm.trans htext))
  rw [heq] at hdenotes
  obtain rfl := (hdenotes _).mp hdatum
  decide

end Command

end BlobStore
