import BlobStore.Proofs.Command.Arguments
import BlobStore.Proofs.Command.Import
import BlobStore.Proofs.Command.Shown

/-!
# What a call shows

Every command but the one that copies an object to the output answers a record
(`Command.answer?`), and only then is the record written in the format that is set
(`Invocation.run_eq_shown`).  So two calls that differ in their format answer the same record from
the same disk and change the disk alike.  Both ways to write the record are one JSON value, of which
the record can be read off (`output_faithful`).
-/

namespace BlobStore

/-! ## Answers -/

namespace Command

/-- The record that a command answers, from the configuration and the store of its call.  An object
that is copied to the output is answered as it is, without a record. -/
def answer? (file : Option Path) (input : Source) :
    Command → Option (Config → Store → Action CommandError Json.Record)
  | put key source => some fun _ store => runPut store key source input
  | get key (some target) => some fun _ store => runExport store key target
  | get _ none => none
  | has key => some fun _ store => do
    let present ← Action.mapError .store (store.has key)
    return [("exists", .boolean present), ("key", .text key)]
  | delete key => some fun _ store => do
    Action.mapError .store (store.delete key)
    return [("deleted", .text key), ("status", .text "ok")]
  | clear => some fun _ store => do
    Action.mapError .store store.clear
    return [("cleared", .text store.root.display), ("status", .text "ok")]
  | path key => some fun _ store => runPath store key
  | config save => some fun c _ => runConfig c file save

variable {file : Option Path} {input : Source} {settings : Settings} {around : Surroundings}

theorem exists_answer {command : Command} (h : ∀ key, command ≠ get key none)
    (file : Option Path) (input : Source) :
    ∃ answer, command.answer? file input = some answer := by
  cases command with
  | get key target =>
    cases target with
    | none => exact absurd rfl (h key)
    | some target => exact ⟨_, rfl⟩
  | _ => exact ⟨_, rfl⟩

/-- What a command answers is written in the format that is set. -/
theorem run_eq_shown {command : Command} {answer : Config → Store → Action CommandError Json.Record}
    (h : command.answer? (settings.configFile <|> around.configFile?) input = some answer)
    (c : Config) :
    command.run settings c around input =
      settings.shown <$> (do
        let store ← Action.mapError .store (Action.ofExcept c.toStore)
        answer c store) := by
  rw [map_bind]
  cases command with
  | get key target =>
    cases target with
    | none => cases h
    | some target =>
      cases h
      rfl
  | has key =>
    cases h
    rw [run]
    simp only [map_bind, map_pure]
    rfl
  | delete key =>
    cases h
    rw [run]
    simp only [map_bind, map_pure]
    rfl
  | clear =>
    cases h
    rw [run]
    simp only [map_bind, map_pure]
    rfl
  | _ =>
    cases h
    rfl

/-- The field in which a command shows its key. -/
def keyField : Command → String
  | delete _ => "deleted"
  | _ => "key"

section answers

variable {command : Command} {answer : Config → Store → Action CommandError Json.Record}
  {c : Config} {store : Store} {d d' : Disk} {r : Json.Record} {key : String}

theorem run_runPath_eq_ok :
    (runPath store key).run d = (.ok r, d') ↔
      ∃ file, store.location key = .ok file ∧ d = d' ∧
        [("filename", .text (store.layout key).filename),
          ("first_segment", .text (store.layout key).firstSegment), ("key", .text key),
          ("location", .text file.display), ("pathname", .text (store.layout key).pathname)] = r := by
  rw [runPath, Action.run_bind, Action.run_mapError, Action.run_ofExcept]
  cases store.location key with
  | error e => simp
  | ok file => simp [and_comm]

/-- Whatever else a command answers, it shows its key. -/
theorem lookup_keyField (h : command.answer? file input = some answer)
    (hrun : (answer c store).run d = (.ok r, d')) (hkey : command.key? = some key) :
    r.lookup command.keyField = some (.text key) := by
  cases command with
  | put key' source =>
    obtain rfl := Option.some.inj hkey
    cases h
    replace hrun : (runPut store key' source input).run d = (.ok r, d') := hrun
    rw [runPut_eq] at hrun
    obtain ⟨content, d₁, -, hrun⟩ := Action.run_bind_eq_ok.mp hrun
    obtain ⟨bytes, d₂, -, hrun⟩ := Action.run_bind_eq_ok.mp hrun
    obtain ⟨place, d₃, -, hrun⟩ := Action.run_bind_eq_ok.mp hrun
    cases hrun
    rfl
  | get key' target =>
    obtain rfl := Option.some.inj hkey
    cases target with
    | none => cases h
    | some target =>
      cases h
      obtain ⟨blob, d₁, -, hrun⟩ := Action.run_bind_eq_ok.mp hrun
      obtain ⟨h, d₂, -, hrun⟩ := Action.run_bind_eq_ok.mp hrun
      obtain ⟨⟨⟩, d₃, -, hrun⟩ := Action.run_bind_eq_ok.mp hrun
      cases hrun
      rfl
  | has key' =>
    obtain rfl := Option.some.inj hkey
    cases h
    obtain ⟨present, d₁, -, hrun⟩ := Action.run_bind_eq_ok.mp hrun
    cases hrun
    rfl
  | delete key' =>
    obtain rfl := Option.some.inj hkey
    cases h
    obtain ⟨⟨⟩, d₁, -, hrun⟩ := Action.run_bind_eq_ok.mp hrun
    cases hrun
    rfl
  | path key' =>
    obtain rfl := Option.some.inj hkey
    cases h
    obtain ⟨file, -, -, rfl⟩ := run_runPath_eq_ok.mp hrun
    rfl
  | clear => cases hkey
  | config save => cases hkey

end answers

end Command

/-! ## Calls -/

namespace Settings

/-- The settings with a format. -/
def withFormat (settings : Settings) (format : Format) : Settings :=
  { settings with format := some format }

/-- The answer of a command for which the configuration has been read and a store has been made. -/
def answering (settings : Settings) (saving : Bool) (around : Surroundings)
    (answer : Config → Store → Action CommandError Json.Record) :
    Action CommandError Json.Record := do
  let loaded ← settings.loadConfig saving around
  let store ← Action.mapError .store (Action.ofExcept (settings.override loaded).toStore)
  answer (settings.override loaded) store

end Settings

namespace Invocation

variable {settings : Settings} {command : Command} {around : Surroundings} {input : Source}
  {answer : Config → Store → Action CommandError Json.Record}

theorem run_eq_shown
    (h : command.answer? (settings.configFile <|> around.configFile?) input = some answer) :
    run ⟨settings, command⟩ around input =
      settings.shown <$> settings.answering command.isSaving around answer := by
  rw [run, Settings.answering, map_bind]
  exact bind_congr fun loaded => Command.run_eq_shown h (settings.override loaded)

end Invocation

namespace Command

/-- What a call shows of the place of a key. -/
structure ShowsPlace (store : Store) (key : String) (v : Json.Datum) : Prop where
  pathname : v.field? "pathname" = some (.text (Json.units (store.layout key).pathname))
  filename : v.field? "filename" = some (.text (Json.units (store.layout key).filename))
  firstSegment :
    v.field? "first_segment" = some (.text (Json.units (store.layout key).firstSegment))
  location : ∃ file, store.location key = .ok file ∧
    v.field? "location" = some (.text (Json.units file.display))

/-- Under a root that is a text, the location is shown as the text of the root and that of the
placement. -/
theorem ShowsPlace.location_text {store : Store} {key root : String} {v : Json.Datum}
    (h : ShowsPlace store key v) (hroot : store.root = Path.ofString root) :
    v.field? "location" = some (.text (Json.units
      (root ++ (if store.root.isEmpty || store.root.endsInSlash then "" else "/") ++
        (store.layout key).fullPath))) := by
  obtain ⟨file, hfile, hlocation⟩ := h.location
  rw [hlocation, Store.display_location hroot hfile]

variable {ε : Type} {words : List Word} {settings : Settings} {command : Command}
  {around : Surroundings} {input : Source} {d d' : Disk} {outcome : Outcome}

/-- A call that shows where a key is has made the store on which it works. -/
theorem showsPlace_of_answering {key : String} {r : Json.Record}
    (hrun : (settings.answering false around fun _ store => runPath store key).run d = (.ok r, d')) :
    ∃ store, settings.storeOn around d = .ok store ∧ ShowsPlace store key r.datum := by
  obtain ⟨loaded, d₁, hloaded, hrun⟩ := Action.run_bind_eq_ok.mp hrun
  obtain ⟨store, d₂, hstore, hrun⟩ := Action.run_bind_eq_ok.mp hrun
  obtain ⟨file, hfile, -, rfl⟩ := run_runPath_eq_ok.mp hrun
  refine ⟨store, ?_, ?_, ?_, ?_, file, hfile, ?_⟩
  · rw [Action.run_mapError_eq_ok, Action.run_ofExcept] at hstore
    rw [Settings.storeOn, hloaded]
    dsimp only
    rw [(Prod.mk.inj hstore).1]
    rfl
  · rw [Json.Record.field?_datum]
    rfl
  · rw [Json.Record.field?_datum]
    rfl
  · rw [Json.Record.field?_datum]
    rfl
  · rw [Json.Record.field?_datum]
    rfl

/-- **What a call shows is one JSON value, in both formats.**  Let a call of any command, except of
the one that copies an object to the output, end with the code 0.  There is a JSON value `v` such
that the same call with another format, from the same disk, ends with the code 0, leaves the same
disk, and writes a text that stands for `v` and for nothing else.  In the format `json` the text is
one line, without control characters.  The key is one of the words of the call, and `v` shows it as
it is; and if the call asks for its place, then `v` shows the place that the store gives. -/
theorem output_faithful (hwords : Invocation.ofWords words = .ok ⟨settings, command⟩)
    (hcommand : ∀ key, command ≠ get key none)
    (hrun : (respond words around input : Action ε Outcome).run d = (.ok outcome, d'))
    (hcode : outcome.code = 0) :
    ∃ (v : Json.Datum) (text : Format → String),
      (∀ format words', Invocation.ofWords words' = .ok ⟨settings.withFormat format, command⟩ →
        (respond words' around input : Action ε Outcome).run d =
          (.ok ⟨0, (text format).toUTF8, ""⟩, d')) ∧
      outcome.output = (text (settings.format.getD .json)).toUTF8 ∧
      (∀ format v', Json.Denotes (text format) v' ↔ v' = v) ∧
      (∃ line, text .json = line ++ "\n" ∧ Json.Printable line.toList) ∧
      (∀ key, command.key? = some key →
        key.toUTF8.data.toList ∈ words ∧
          v.field? command.keyField = some (.text (Json.units key))) ∧
      ∀ key, command = path key →
        ∃ store, settings.storeOn around d = .ok store ∧ ShowsPlace store key v := by
  obtain ⟨answer, hanswer⟩ :=
    exists_answer hcommand (settings.configFile <|> around.configFile?) input
  have hoption := run_of_code_eq_zero hwords hrun hcode
  rw [Invocation.run_eq_shown hanswer, Action.run_map_eq_ok] at hoption
  obtain ⟨r, hr, houtput⟩ := hoption
  refine ⟨r.datum, fun format => format.write r, ?_, houtput.symm, ?_, ?_, ?_, ?_⟩
  · intro format words' hwords'
    -- nothing but the writing depends on the format
    have hanswer' : command.answer? ((settings.withFormat format).configFile <|>
        around.configFile?) input = some answer := hanswer
    have hsame : (Invocation.run ⟨settings.withFormat format, command⟩ around input).run d =
        (.ok (format.write r).toUTF8, d') := by
      rw [Invocation.run_eq_shown hanswer', Action.run_map_eq_ok]
      exact ⟨r, hr, rfl⟩
    rw [run_respond hwords', hsame]
  · exact fun format v' => Json.denotes_write_iff format
  · exact ⟨r.compact, rfl, Json.printable_compact r⟩
  · intro key hkey
    obtain ⟨loaded, d₁, -, hr⟩ := Action.run_bind_eq_ok.mp hr
    obtain ⟨store, d₂, -, hr⟩ := Action.run_bind_eq_ok.mp hr
    refine ⟨Invocation.key_mem_words hwords hkey, ?_⟩
    rw [Json.Record.field?_datum, lookup_keyField hanswer hr hkey]
    rfl
  · rintro key rfl
    cases hanswer
    exact showsPlace_of_answering hr

/-- The key is a quote, a line break, a backslash and an accented letter. -/
theorem output_faithful_escapes :
    let key := "\"\n\\é"
    let words (format : List String) : List Word :=
      (["--no-config", "-r", "s", "-t", "identity"] ++ format ++ ["path", key]).map fun w =>
        (Path.ofString w).bytes
    let call (format : List String) : Action Empty Outcome :=
      respond (words format) ⟨none, none⟩ (.ofBytes ByteArray.empty)
    let settings := { Sample.settings false with format := some .text }
    Invocation.ofWords (words ["--format", "text"]) = .ok ⟨settings, .path key⟩ ∧
      (∀ key', path key ≠ get key' none) ∧
      ∃ outcome d', (call ["--format", "text"]).run Sample.disk = (.ok outcome, d') ∧
        outcome.code = 0 ∧
        ∃ (v : Json.Datum) (line text : String), outcome.output = text.toUTF8 ∧
          Json.Denotes text v ∧
          (call ["-f", "json"]).run Sample.disk = (.ok ⟨0, (line ++ "\n").toUTF8, ""⟩, d') ∧
          Json.Denotes (line ++ "\n") v ∧ Json.Printable line.toList ∧
          v.field? "key" = some (.text (Json.units key)) ∧
          v.field? "pathname" = some (.text (Json.units key)) ∧
          v.field? "location" = some (.text (Json.units ("s/" ++ key ++ "/" ++ key))) := by
  intro key words call settings
  have htext : Invocation.ofWords (words ["--format", "text"]) = .ok ⟨settings, .path key⟩ :=
    ofWords_of_toOption (by decide +kernel)
  have hjson : Invocation.ofWords (words ["-f", "json"]) =
      .ok ⟨settings.withFormat .json, .path key⟩ := ofWords_of_toOption (by decide +kernel)
  have hcommand : ∀ key', path key ≠ get key' none := fun _ h => (by cases h)
  obtain ⟨outcome, d', hrun, hcode⟩ : ∃ outcome d', (call ["--format", "text"]).run Sample.disk =
      (.ok outcome, d') ∧ outcome.code = 0 := Sample.exists_outcome (by decide +kernel)
  obtain ⟨v, text, hsame, houtput, hdenotes, ⟨line, hline, hprintable⟩, hkey, hpath⟩ :=
    output_faithful htext hcommand hrun hcode
  obtain ⟨store, hstore, hplace⟩ := hpath key rfl
  have hsample : settings.storeOn ⟨none, none⟩ Sample.disk = .ok (Sample.store false) := rfl
  obtain rfl : Sample.store false = store := Except.ok.inj (hsample.symm.trans hstore)
  have hjsonRun := hsame .json _ hjson
  rw [hline] at hjsonRun
  refine ⟨htext, hcommand, outcome, d', hrun, hcode, v, line, text .text, houtput,
    (hdenotes .text v).mpr rfl, hjsonRun, ?_, hprintable, (hkey key rfl).2, ?_, ?_⟩
  · rw [← hline]
    exact (hdenotes .json v).mpr rfl
  · exact hplace.pathname
  · have hroot : (Sample.store false).root = Path.ofString "s" := rfl
    have htext : "s" ++ (if (Sample.store false).root.isEmpty ||
        (Sample.store false).root.endsInSlash then "" else "/") ++
          ((Sample.store false).layout key).fullPath = "s/" ++ key ++ "/" ++ key := by
      decide +kernel
    rw [hplace.location_text hroot, htext]

end Command

end BlobStore
