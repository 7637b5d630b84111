import BlobStore.Command.Run
import BlobStore.Proofs.Disk.Numbers

/-!
# What a call does

A call reads its configuration and then works on one store, `Settings.storeOn`.  Reading the
configuration only looks, so the command finds the disk as it was when the call began
(`run_of_command`), and only the configuration file decides which store it is: as long as that
file has the same bytes, or is not there, further calls work on the same store
(`Settings.storeOn_congr`).  A call never fails as an action; it ends with the code 0 exactly if
its command has succeeded (`run_of_code_eq_zero`).
-/

namespace BlobStore

/-! ## Reading the configuration -/

section looks

open BlobStore.Action

theorem asks_leadsSomewhere {ε : Type} (p : Path) :
    (leadsSomewhere p : Action ε Bool).Asks Request.Looks := by
  unfold leadsSomewhere
  refine .bind (.attempt trivial) fun answer => ?_
  split <;> trivial

theorem asks_readText (p : Path) : (readText p).Asks Request.Looks := by
  have hbytes : (readBytes p).Asks Request.Looks := by
    unfold readBytes
    refine .bind (.request trivial) fun opened => ?_
    split
    · trivial
    · exact .request trivial
  unfold readText
  refine .bind hbytes fun bytes => ?_
  split <;> trivial

theorem asks_load (p : Path) : (Config.load p).Asks Request.Looks := by
  unfold Config.load
  refine .bind ((asks_readText p).mapError _) fun text => ?_
  split <;> trivial

theorem asks_loadDefault (around : Surroundings) :
    (Config.loadDefault around).Asks Request.Looks := by
  unfold Config.loadDefault
  split
  · trivial
  · next p _ =>
    refine .bind (asks_leadsSomewhere p) fun found => ?_
    split
    · exact asks_load p
    · trivial

theorem asks_loadConfig (settings : Settings) (saving : Bool) (around : Surroundings) :
    (settings.loadConfig saving around).Asks Request.Looks := by
  unfold Settings.loadConfig
  split
  · trivial
  · split
    · exact (asks_loadDefault around).mapError _
    · next p _ =>
      refine .bind (asks_leadsSomewhere p) fun found => ?_
      split
      · exact (asks_load p).mapError _
      · split <;> trivial

end looks

/-! ## What the configuration depends on -/

section files

variable {d d' : Disk} {p : Path} {b : ByteArray}

theorem Disk.isOk_kind (h : d.file? p = some b) : (d.kind p).isOk = true := by
  obtain ⟨i, hnumber, -⟩ := Disk.file?_eq_some.mp h
  obtain ⟨l, hleads, hnode⟩ := Disk.number?_eq_some.mp hnumber
  rw [Disk.kind_eq_file hleads hnode]
  rfl

theorem run_leadsSomewhere {ε : Type} (p : Path) (d : Disk) :
    (leadsSomewhere p : Action ε Bool).run d = (.ok (d.kind p).isOk, d) := by
  rw [leadsSomewhere, Action.run_bind, Action.run_attempt]
  simp only [Disk.perform, Disk.looking]
  cases d.kind p <;> rfl

theorem run_readText (h : d.file? p = some b) :
    (readText p).run d = (match String.fromUTF8? b with
      | some text => .ok text
      | none => .error .notUtf8, d) := by
  obtain ⟨i, hnumber, rfl⟩ := Disk.file?_eq_some.mp h
  have hopen : d.openRead p = .ok (.file ⟨i⟩ (d.bytes i).size) :=
    Disk.openRead_eq_ok_file.mpr ⟨hnumber, rfl⟩
  have hbytes : (readBytes p).run d = (.ok (d.bytes i), d) := by
    rw [readBytes, Action.run_bind, Action.run_request]
    simp only [Disk.perform, Disk.looking, hopen]
    rw [Action.run_request, Disk.perform, Disk.looking, Disk.readFrom, ByteArray.extract_zero_size]
  rw [readText, Action.run_bind, hbytes]
  dsimp only
  cases String.fromUTF8? (d.bytes i) <;> rfl

/-- Loading reads the file at a path. -/
theorem Config.run_load {text : String} (hfile : d.file? p = some text.toUTF8) :
    (Config.load p).run d = (match Config.ofJson text with
      | .ok c => .ok c
      | .error e => .error (.json (.misread e text)), d) := by
  rw [Config.load, Action.run_bind, Action.run_mapError, run_readText hfile,
    Text.fromUTF8?_toUTF8]
  simp only [Except.mapError_ok]
  cases Config.ofJson text <;> rfl

/-- A configuration can be read only from a file. -/
theorem exists_file?_of_load {c : Config} (hrun : (Config.load p).run d = (.ok c, d')) :
    ∃ b, d.file? p = some b := by
  obtain ⟨text, d₁, htext, -⟩ := Action.run_bind_eq_ok.mp hrun
  obtain ⟨bytes, d₂, hbytes, -⟩ := Action.run_bind_eq_ok.mp (Action.run_mapError_eq_ok.mp htext)
  obtain ⟨o, d₃, hopen, hread⟩ := Action.run_bind_eq_ok.mp hbytes
  cases o with
  | dir => simp at hread
  | file h size =>
    obtain ⟨hopened, -⟩ : d.openRead p = .ok (.file h size) ∧ d = d₃ :=
      Prod.mk.inj ((Action.run_request _ _).symm.trans hopen)
    exact ⟨_, Disk.file?_of_number? (Disk.openRead_eq_ok_file.mp hopened).1⟩

/-- What is loaded has been read from the text of the file. -/
theorem Config.exists_text_of_load {c : Config} (hrun : (Config.load p).run d = (.ok c, d')) :
    ∃ text, d.file? p = some text.toUTF8 ∧ Config.ofJson text = .ok c := by
  obtain ⟨b, hb⟩ := exists_file?_of_load hrun
  cases htext : String.fromUTF8? b with
  | none =>
    rw [Config.load, Action.run_bind, Action.run_mapError, run_readText hb, htext] at hrun
    cases hrun
  | some text =>
    obtain rfl := Text.toUTF8_of_fromUTF8? htext
    rw [Config.run_load hb] at hrun
    cases hread : Config.ofJson text with
    | error e =>
      rw [hread] at hrun
      cases hrun
    | ok c' =>
      rw [hread] at hrun
      cases hrun
      exact ⟨text, hb, hread⟩

theorem run_load_congr (h : d.file? p = some b) (h' : d'.file? p = some b) :
    ((Config.load p).run d').1 = ((Config.load p).run d).1 := by
  rw [Config.load, Action.run_bind, Action.run_bind, Action.run_mapError, Action.run_mapError,
    run_readText h, run_readText h']
  cases String.fromUTF8? b with
  | none => rfl
  | some text =>
    simp only [Except.mapError_ok]
    cases Config.ofJson text <;> rfl

end files

namespace Settings

/-- Where a call looks for its configuration. -/
def consulted? (settings : Settings) (around : Surroundings) : Option Path :=
  if settings.noConfigFile then Option.none else settings.configFile <|> around.configFile?

theorem run_loadConfig (settings : Settings) (around : Surroundings) (d : Disk) :
    ((settings.loadConfig false around).run d).1 = match settings.consulted? around with
      | .none => .ok Config.standard
      | .some p =>
        if (d.kind p).isOk then ((Config.load p).run d).1.mapError .store
        else match settings.configFile with
          | .none => .ok Config.standard
          | .some p => .error (.noConfigFile p) := by
  rw [loadConfig, consulted?]
  cases settings.noConfigFile with
  | true => rfl
  | false =>
    rw [if_neg Bool.false_ne_true]
    cases settings.configFile with
    | some p =>
      dsimp only
      rw [Action.run_bind, run_leadsSomewhere]
      show _ = if (d.kind p).isOk then _ else _
      cases (d.kind p).isOk with
      | true => exact congrArg Prod.fst (Action.run_mapError ..)
      | false => rfl
    | none =>
      dsimp only
      rw [Action.run_mapError, Config.loadDefault]
      cases around.configFile? with
      | none => rfl
      | some p =>
        dsimp only
        rw [Action.run_bind, run_leadsSomewhere]
        show _ = if (d.kind p).isOk then _ else _
        cases (d.kind p).isOk <;> rfl

/-- The store on which a call works, unless the call saves the configuration. -/
def storeOn (settings : Settings) (around : Surroundings) (d : Disk) :
    Except CommandError Store :=
  match ((settings.loadConfig false around).run d).1 with
  | .error e => .error e
  | .ok c => (settings.override c).toStore.mapError .store

/-- A call works on the same store as before if its configuration file has the same bytes, or is
still not there. -/
theorem storeOn_congr {settings : Settings} {around : Surroundings} {d d' : Disk} {s : Store}
    (hstore : settings.storeOn around d = .ok s)
    (hfile : ∀ p b, settings.consulted? around = some p → d.file? p = some b →
      d'.file? p = some b)
    (hmissing : ∀ p, settings.consulted? around = some p → (d'.kind p).isOk → (d.kind p).isOk) :
    settings.storeOn around d' = .ok s := by
  suffices hload : ((settings.loadConfig false around).run d').1 =
      ((settings.loadConfig false around).run d).1 by
    rw [storeOn, hload]
    exact hstore
  rw [storeOn] at hstore
  rw [run_loadConfig] at hstore ⊢
  rw [run_loadConfig]
  cases hconsulted : settings.consulted? around with
  | none => rfl
  | some p =>
    simp only [hconsulted] at hstore
    dsimp only
    by_cases hthere : (d.kind p).isOk = true
    · -- what is there is a file, since it has been read
      obtain ⟨b, hb⟩ : ∃ b, d.file? p = some b := by
        rw [if_pos hthere] at hstore
        rcases hload : (Config.load p).run d with ⟨e | c, d₁⟩
        · simp [hload] at hstore
        · exact exists_file?_of_load hload
      have hb' := hfile p b hconsulted hb
      rw [if_pos hthere, if_pos (Disk.isOk_kind hb'), run_load_congr hb hb']
    · rw [if_neg hthere, if_neg fun h => hthere (hmissing p hconsulted h)]

end Settings

/-! ## From the configuration to the command -/

namespace Settings

/-- The text of a result in the format that is set. -/
def shown (settings : Settings) (r : Json.Record) : ByteArray :=
  ((settings.format.getD .json).write r).toUTF8

end Settings

namespace Invocation

variable {around : Surroundings} {input : Source} {d : Disk} {settings : Settings}

/-- A command that begins with making a store works on the store of its call. -/
theorem run_of_command {command : Command} (hsaving : command.isSaving = false)
    {body : Store → Action CommandError ByteArray}
    (hbody : ∀ c, command.run settings c around input =
      Action.mapError .store (Action.ofExcept c.toStore) >>= body) :
    (run ⟨settings, command⟩ around input).run d = match settings.storeOn around d with
      | .error e => (.error e, d)
      | .ok s => (body s).run d := by
  have hlooks := (asks_loadConfig settings false around).run_looks d
  rw [run, Action.run_bind, hsaving, Settings.storeOn]
  rcases hload : (settings.loadConfig false around).run d with ⟨e | c, d'⟩
  · rw [hload] at hlooks
    obtain rfl : d' = d := hlooks
    rfl
  · rw [hload] at hlooks
    obtain rfl : d' = d := hlooks
    dsimp only
    rw [hbody, Action.run_bind, Action.run_mapError, Action.run_ofExcept]
    cases (settings.override c).toStore <;> rfl

theorem run_put (key : String) (file : Option Path) :
    (run ⟨settings, .put key file⟩ around input).run d = match settings.storeOn around d with
      | .error e => (.error e, d)
      | .ok s => (settings.shown <$> Command.runPut s key file input).run d :=
  run_of_command rfl fun _ => rfl

theorem run_export (key : String) (target : Path) :
    (run ⟨settings, .get key (some target)⟩ around input).run d =
      match settings.storeOn around d with
      | .error e => (.error e, d)
      | .ok s => (settings.shown <$> Command.runExport s key target).run d :=
  run_of_command rfl fun _ => rfl

theorem run_get (key : String) :
    (run ⟨settings, .get key none⟩ around input).run d = match settings.storeOn around d with
      | .error e => (.error e, d)
      | .ok s => (do
          let blob ← Action.mapError .store (s.read key)
          Action.mapError .notCopied blob.rest : Action CommandError ByteArray).run d :=
  run_of_command rfl fun _ => rfl

end Invocation

/-! ## How a call ends -/

theorem ofWords_of_toOption {words : List Word} {i : Invocation}
    (h : (Invocation.ofWords words).toOption = some i) : Invocation.ofWords words = .ok i := by
  cases hwords : Invocation.ofWords words with
  | error e => simp [hwords, Except.toOption] at h
  | ok j => simpa [hwords, Except.toOption] using h

theorem run_respond {ε : Type} {words : List Word} {i : Invocation}
    (hwords : Invocation.ofWords words = .ok i) (around : Surroundings) (input : Source)
    (d : Disk) :
    (respond words around input : Action ε Outcome).run d =
      (match ((i.run around input).run d).1 with
        | .ok output => .ok ⟨0, output, ""⟩
        | .error e => .ok ⟨1, ByteArray.empty, e.report⟩, ((i.run around input).run d).2) := by
  rw [respond, hwords]
  dsimp only
  rw [Action.run_catching]
  cases ((i.run around input).run d).1 <;> rfl

/-- A call that ends with the code 0 has carried out its command, and shows what it answered. -/
theorem run_of_code_eq_zero {ε : Type} {words : List Word} {i : Invocation}
    (hwords : Invocation.ofWords words = .ok i) {around : Surroundings} {input : Source}
    {d d' : Disk} {outcome : Outcome}
    (hrun : (respond words around input : Action ε Outcome).run d = (.ok outcome, d'))
    (hcode : outcome.code = 0) :
    (i.run around input).run d = (.ok outcome.output, d') := by
  rw [run_respond hwords] at hrun
  rcases h : (i.run around input).run d with ⟨e | output, d''⟩
  · simp only [h, Prod.mk.injEq, Except.ok.injEq] at hrun
    obtain ⟨rfl, -⟩ := hrun
    exact absurd hcode (by simp)
  · simp only [h, Prod.mk.injEq, Except.ok.injEq] at hrun
    obtain ⟨rfl, rfl⟩ := hrun
    rfl

/-! ## Calls on a small store

The store in the directory `s`, with the identity layout, holds two bytes under the key `a`.  The
calls give all that they need in their words. -/

namespace Sample

def settings (atomic : Bool) : Settings :=
  { Settings.none with
    noConfigFile := true
    root := some ⟨[0x73]⟩
    scheme := some .identity
    atomicWrites := atomic }

def words (atomic : Bool) (command : List String) : List Word :=
  (["--no-config", "-r", "s", "-t", "identity"] ++ (if atomic then ["--atomic"] else []) ++
    command).map fun w => (Path.ofString w).bytes

/-- The call with the given words after the switches, and with nothing to read. -/
def call (atomic : Bool) (command : List String) : Action Empty Outcome :=
  respond (words atomic command) ⟨none, none⟩ (.ofBytes ByteArray.empty)

def store (atomic : Bool) : Store := ⟨⟨[0x73]⟩, Layout.identity, atomic⟩

/-- The path of the object `a`, which is `s/a/a`. -/
def object : Path := ⟨[0x73, 0x2F, 0x61, 0x2F, 0x61]⟩

def disk : Disk :=
  (((Disk.empty.insert [[0x73]] .dir).insert [[0x73], [0x61]] .dir).insertFile
    [[0x73], [0x61], [0x61]]).setBytes 0 ⟨#[7, 8]⟩

theorem stored_disk : disk.Stored := by
  have hdir : (Disk.empty.insert [[0x73]] .dir).Stored :=
    (Disk.Change.makeDir (by decide) rfl).stored Disk.wellFormed_empty.isStored
  have hdirs : ((Disk.empty.insert [[0x73]] .dir).insert [[0x73], [0x61]] .dir).Stored :=
    (Disk.Change.makeDir (by decide) rfl).stored hdir
  exact (Disk.Change.setBytes 0 _).stored (hdirs.insertFile (by decide))

theorem storeOn_settings (atomic : Bool) (d : Disk) :
    (settings atomic).storeOn ⟨none, none⟩ d = .ok (store atomic) := by
  cases atomic <;> rfl

theorem location_object (atomic : Bool) : (store atomic).location "a" = .ok object := by
  cases atomic <;> rfl

theorem exists_outcome {x : Action Empty Outcome} {d : Disk} {code : Nat}
    (h : (x.run d).1.toOption.map Outcome.code = some code) :
    ∃ outcome d', x.run d = (.ok outcome, d') ∧ outcome.code = code := by
  rcases hrun : x.run d with ⟨e | outcome, d'⟩
  · exact e.elim
  · rw [hrun] at h
    exact ⟨outcome, d', rfl, Option.some.inj h⟩

end Sample

end BlobStore
