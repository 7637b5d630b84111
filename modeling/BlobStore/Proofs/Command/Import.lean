import BlobStore.Proofs.Command.Shown
import BlobStore.Proofs.Store.Delivered

/-!
# Storing a file

`put` opens the file to store, or takes the input, and then writes the object.  What it shows and
what a following `get` writes to the output are the bytes that were there when the call began,
also if the file lies in the store.  The exception is a plain write of an object's own file: that
file is emptied before it is read, so no bytes are shown and none are left (`import_fidelity`).
Atomic writes have no exception.
-/

namespace BlobStore

namespace Command

variable {s : Store} {key : String} {file : Option Path} {input : Source} {d d' : Disk}

/-- The bytes that `put` is told to store. -/
def held? (file : Option Path) (input : Source) (d : Disk) : Option ByteArray :=
  match file with
  | none => some (input.delivered d)
  | some p => d.file? p

/-- The number of the file in which they are, if they are in a file. -/
def heldIn? (file : Option Path) (input : Source) (d : Disk) : Option Nat :=
  match file with
  | none => input.number?
  | some p => d.number? p

/-- Opens what `put` is told to store. -/
def openSource (file : Option Path) (input : Source) : Action CommandError Source :=
  match file with
  | none => pure input
  | some p => Source.opened <$> Action.mapError (.notOpened p) (Action.request (.openRead p))

theorem runPut_eq (s : Store) (key : String) (file : Option Path) (input : Source) :
    runPut s key file input = do
      let source ← openSource file input
      let bytes ← Action.mapError .store (s.write key source)
      let object ← Action.mapError .store (Action.ofExcept (s.location key))
      return storedRecord key bytes object := by
  cases file <;> rfl

/-- What has been opened delivers the bytes to store, unless it is a directory. -/
theorem openSource_eq_ok {source : Source}
    (hrun : (openSource file input).run d = (.ok source, d')) (hfailure : source.failure? = none) :
    d' = d ∧ held? file input d = some (source.delivered d) ∧
      heldIn? file input d = source.number? := by
  cases file with
  | none =>
    cases hrun
    exact ⟨rfl, rfl, rfl⟩
  | some p =>
    obtain ⟨o, hopen, rfl⟩ := Action.run_map_eq_ok.mp hrun
    rw [Action.run_mapError_eq_ok, Action.run_request] at hopen
    obtain ⟨hopened, rfl⟩ : d.openRead p = .ok o ∧ d = d' := Prod.mk.inj hopen
    cases o with
    | dir => simp [Source.failure?] at hfailure
    | file h size =>
      obtain ⟨hnumber, -⟩ := Disk.openRead_eq_ok_file.mp hopened
      refine ⟨rfl, ?_, hnumber⟩
      rw [held?, Disk.file?_of_number? hnumber, Source.delivered, Disk.readFrom,
        ByteArray.extract_zero_size]

theorem showsBytes_storedRecord (key : String) (bytes : Nat) (object : Path) :
    (storedRecord key bytes object).datum.ShowsBytes bytes := Json.Record.field?_datum ..

/-- An import that succeeds has stored what it was told to store, and shows how much that is. -/
theorem places_runPut (hd : d.Stored) {r : Json.Record}
    (hrun : (runPut s key file input).run d = (.ok r, d')) :
    ∃ object held b, s.location key = .ok object ∧ held? file input d = some held ∧
      r = storedRecord key b.size object ∧ d.Places d' object b ∧
      (¬ s.ReadsItself (heldIn? file input d) object d' → b = held) ∧
      (s.ReadsItself (heldIn? file input d) object d' → b = ByteArray.empty) := by
  rw [runPut_eq] at hrun
  obtain ⟨source, d₁, hsource, hrun⟩ := Action.run_bind_eq_ok.mp hrun
  obtain ⟨n, d₂, hwrite, hshow⟩ := Action.run_bind_eq_ok.mp hrun
  rw [Action.run_mapError_eq_ok] at hwrite
  have hd₁ : d₁.Stored := by
    have hstored := (openSource file input).run_stored hd
    rwa [hsource] at hstored
  obtain ⟨object, b, hlocation, hfailure, rfl, hplaces, hother, hitself⟩ :=
    Store.places_write hd₁ hwrite
  obtain ⟨rfl, hheld, hnumber⟩ := openSource_eq_ok hsource hfailure
  rw [hlocation] at hshow
  cases hshow
  rw [hnumber]
  exact ⟨object, _, b, hlocation, hheld, rfl, hplaces, hother, hitself⟩

/-- `get` writes an object that is there to the output. -/
theorem run_respond_get {ε : Type} {words : List Word} {settings : Settings}
    (hwords : Invocation.ofWords words = .ok ⟨settings, .get key none⟩) {around : Surroundings}
    (hstore : settings.storeOn around d = .ok s) {b : ByteArray}
    (hobject : s.object? d key = some b) (input : Source) :
    (respond words around input : Action ε Outcome).run d = (.ok ⟨0, b, ""⟩, d) := by
  obtain ⟨h, hread, rfl⟩ := Store.read_of_object? hobject
  have hrun : (Invocation.run ⟨settings, .get key none⟩ around input).run d =
      (.ok (d.bytes h.number), d) := by
    rw [Invocation.run_get, hstore]
    refine Action.run_bind_eq_ok.mpr ⟨_, d, Action.run_mapError_eq_ok.mpr hread, ?_⟩
    exact Action.run_mapError_eq_ok.mpr (Blob.run_rest_start ..)
  rw [run_respond hwords, hrun]

/-- **An import is faithful unless it reads the object itself.**  When `put` ends with the code 0,
it prints a JSON value that gives the number of bytes of the object it has stored, and a following
`get` writes these bytes to the output, provided that the object's file is not the configuration
file and that no configuration file has come to be where there was none.  They are the bytes that
the file or the input held when the call began, unless the write was plain and they were in the
object's own file: then there are none. -/
theorem import_fidelity {ε : Type} {words : List Word} {settings : Settings}
    (hwords : Invocation.ofWords words = .ok ⟨settings, .put key file⟩) {around : Surroundings}
    (hd : d.Stored) {outcome : Outcome}
    (hrun : (respond words around input : Action ε Outcome).run d = (.ok outcome, d'))
    (hcode : outcome.code = 0) :
    ∃ s object held b, settings.storeOn around d = .ok s ∧ s.location key = .ok object ∧
      held? file input d = some held ∧
      outcome.output = settings.shown (storedRecord key b.size object) ∧
      Shows outcome.output (·.ShowsBytes b.size) ∧
      s.object? d' key = some b ∧
      ((∀ p, settings.consulted? around = some p →
          ¬ d'.SameFile p object ∧ ((d'.kind p).isOk → (d.kind p).isOk)) →
        ∀ words' input', Invocation.ofWords words' = .ok ⟨settings, .get key none⟩ →
          (respond words' around input' : Action ε Outcome).run d' = (.ok ⟨0, b, ""⟩, d')) ∧
      (¬ s.ReadsItself (heldIn? file input d) object d' → b = held) ∧
      (s.ReadsItself (heldIn? file input d) object d' → b = ByteArray.empty) := by
  have hrun := run_of_code_eq_zero hwords hrun hcode
  rw [Invocation.run_put] at hrun
  cases hstore : settings.storeOn around d with
  | error e => simp [hstore] at hrun
  | ok s =>
    rw [hstore] at hrun
    obtain ⟨r, hrun, houtput⟩ := Action.run_map_eq_ok.mp hrun
    obtain ⟨object, held, b, hlocation, hheld, rfl, hplaces, hother, hitself⟩ :=
      places_runPut hd hrun
    have hobject : s.object? d' key = some b := by
      rw [Store.object?, hlocation]
      exact hplaces.file
    refine ⟨s, object, held, b, rfl, hlocation, hheld, houtput.symm,
      houtput ▸ settings.shows_shown (showsBytes_storedRecord ..), hobject,
      fun hconfig words' input' hwords' => ?_, hother, hitself⟩
    have hsame : settings.storeOn around d' = .ok s :=
      Settings.storeOn_congr hstore
        (fun p c hp hc => (hplaces.other p c hc).resolve_left (hconfig p hp).1)
        fun p hp => (hconfig p hp).2
    exact run_respond_get hwords' hsame hobject input'

section sample

open Sample

/-- The object is imported from its own file by an atomic write, and is read back. -/
theorem import_fidelity_atomic :
    Invocation.ofWords (words true ["put", "a", "s/a/a"]) =
        .ok ⟨settings true, .put "a" (some object)⟩ ∧
      disk.Stored ∧ (settings true).storeOn ⟨none, none⟩ disk = .ok (store true) ∧
      ∃ outcome d', (call true ["put", "a", "s/a/a"]).run disk = (.ok outcome, d') ∧
        outcome.code = 0 ∧
        outcome.output = (settings true).shown (storedRecord "a" 2 object) ∧
        Shows outcome.output (·.ShowsBytes 2) ∧
        (call true ["get", "a"]).run d' = (.ok ⟨0, ⟨#[7, 8]⟩, ""⟩, d') := by
  have hput : Invocation.ofWords (words true ["put", "a", "s/a/a"]) =
      .ok ⟨settings true, .put "a" (some object)⟩ := ofWords_of_toOption (by decide +kernel)
  have hget : Invocation.ofWords (words true ["get", "a"]) =
      .ok ⟨settings true, .get "a" none⟩ := ofWords_of_toOption (by decide +kernel)
  obtain ⟨outcome, d', hrun, hcode⟩ :
      ∃ outcome d', (call true ["put", "a", "s/a/a"]).run disk = (.ok outcome, d') ∧
        outcome.code = 0 := exists_outcome (by decide +kernel)
  obtain ⟨s, place, held, b, hstore, hlocation, hheld, houtput, hshows, -, hback, hother, -⟩ :=
    import_fidelity hput stored_disk hrun hcode
  obtain rfl : store true = s := Except.ok.inj hstore
  obtain rfl : object = place := Except.ok.inj ((location_object true).symm.trans hlocation)
  have hholds : held? (some object) (.ofBytes ByteArray.empty) disk = some ⟨#[7, 8]⟩ := by
    decide +kernel
  obtain rfl : ⟨#[7, 8]⟩ = held := Option.some.inj (hholds.symm.trans hheld)
  obtain rfl : b = ⟨#[7, 8]⟩ := hother fun h => absurd h.1 (by simp [store])
  have hnone : (settings true).consulted? ⟨none, none⟩ = none := rfl
  exact ⟨hput, stored_disk, hstore, outcome, d', hrun, hcode, houtput, hshows,
    hback (fun p hp => absurd (hnone.symm.trans hp) (by simp)) _ _ hget⟩

/-- The object is imported from its own file by a plain write.  The call says that all went well,
and the object is gone. -/
theorem import_from_object :
    let stored := (call false ["put", "a", "s/a/a"]).run disk
    let read := (call false ["get", "a"]).run stored.2
    (Invocation.ofWords (words false ["put", "a", "s/a/a"])).toOption =
        some ⟨settings false, .put "a" (some object)⟩ ∧
      (Invocation.ofWords (words false ["get", "a"])).toOption =
        some ⟨settings false, .get "a" none⟩ ∧
      (settings false).storeOn ⟨none, none⟩ disk = .ok (store false) ∧
      held? (some object) (.ofBytes ByteArray.empty) disk = some ⟨#[7, 8]⟩ ∧
      stored.1.toOption.map Outcome.code = some 0 ∧
      stored.1.toOption.map Outcome.output =
        some ((settings false).shown (storedRecord "a" 0 object)) ∧
      read.1.toOption.map Outcome.code = some 0 ∧
      read.1.toOption.map Outcome.output = some ByteArray.empty := by
  intro stored read
  refine ⟨?_, ?_, storeOn_settings .., ?_, ?_, ?_, ?_, ?_⟩ <;> decide +kernel

end sample

end Command

end BlobStore
