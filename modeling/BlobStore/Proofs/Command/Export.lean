import BlobStore.Proofs.Command.Shown
import BlobStore.Proofs.Store.Contents

/-!
# Writing an object to a file

`get` with an output opens the object, makes the output file, which empties a file that is
there, and only then reads.  As long as the output is not the object's own file the copy is
faithful, wherever the output lies.  Where it is, the object has been emptied before it is read:
the call ends with the code 0 and shows the number of bytes that there were, but both the
output and the object are without bytes (`export_fidelity`).
-/

namespace BlobStore

namespace Command

variable {s : Store} {key : String} {target : Path} {d d' : Disk}

/-- What is shown after `get` with an output. -/
def exportRecord (key : String) (bytes : Nat) (target : Path) : Json.Record :=
  [("bytes", .natural bytes), ("key", .text key), ("output", .text target.display),
    ("status", .text "ok")]

theorem showsBytes_exportRecord (key : String) (bytes : Nat) (target : Path) :
    (exportRecord key bytes target).datum.ShowsBytes bytes := Json.Record.field?_datum ..

/-- An export that succeeds has filled the target with what it found in the object's file after
the target had been opened. -/
theorem fills_runExport (hd : d.Stored) {r : Json.Record}
    (hrun : (runExport s key target).run d = (.ok r, d')) :
    ∃ file i j, s.location key = .ok file ∧ d.number? file = some j ∧
      r = exportRecord key (d.bytes j).size target ∧
      d.Fills d' target i (if j = i then ByteArray.empty else d.bytes j) := by
  obtain ⟨blob, d₁, hread, hrun⟩ := Action.run_bind_eq_ok.mp hrun
  obtain ⟨file, ⟨j⟩, hlocation, hnumber, rfl, rfl⟩ :=
    Store.read_eq_ok.mp (Action.run_mapError_eq_ok.mp hread)
  obtain ⟨h, d₂, hcreate, hrun⟩ := Action.run_bind_eq_ok.mp hrun
  rw [Action.run_mapError_eq_ok, Action.run_request, Disk.perform_create_eq_ok] at hcreate
  obtain ⟨_, d₃, hcopy, hrun⟩ := Action.run_bind_eq_ok.mp hrun
  obtain ⟨bytes, d₄, hrest, happend⟩ :=
    Action.run_bind_eq_ok.mp (Action.run_mapError_eq_ok.mp hcopy)
  rw [Blob.run_rest_start] at hrest
  cases hrest
  cases happend
  cases hrun
  have hemptied := Disk.fills_create hd hcreate
  refine ⟨file, h.number, j, hlocation, hnumber, rfl, ?_⟩
  have hfound : d₂.bytes j = if j = h.number then ByteArray.empty else d₁.bytes j := by
    split_ifs with hj
    · rw [hj, hemptied.bytes_self]
    · exact hemptied.bytes_other j hj
  rw [← hfound]
  exact hemptied.append _

/-- **An export is faithful unless it goes onto the object itself.**  When `get` with an output
ends with the code 0, an object was stored under the key, and the call prints a JSON value that
gives the number of its bytes.  If the output does not lead to the object's own file, the output
holds what the object held when the call began, and the object still holds it.  If it does, nothing
is left in either. -/
theorem export_fidelity {ε : Type} {words : List Word} {settings : Settings}
    (hwords : Invocation.ofWords words = .ok ⟨settings, .get key (some target)⟩)
    {around : Surroundings} {input : Source} (hd : d.Stored) {outcome : Outcome}
    (hrun : (respond words around input : Action ε Outcome).run d = (.ok outcome, d'))
    (hcode : outcome.code = 0) :
    ∃ s file held, settings.storeOn around d = .ok s ∧ s.location key = .ok file ∧
      s.object? d key = some held ∧
      outcome.output = settings.shown (exportRecord key held.size target) ∧
      Shows outcome.output (·.ShowsBytes held.size) ∧
      (¬ d.SameFile target file →
        d'.file? target = some held ∧ s.object? d' key = some held) ∧
      (d.SameFile target file →
        d'.file? target = some ByteArray.empty ∧ s.object? d' key = some ByteArray.empty) := by
  have hrun := run_of_code_eq_zero hwords hrun hcode
  rw [Invocation.run_export] at hrun
  cases hstore : settings.storeOn around d with
  | error e => simp [hstore] at hrun
  | ok s =>
    rw [hstore] at hrun
    obtain ⟨r, hrun, houtput⟩ := Action.run_map_eq_ok.mp hrun
    obtain ⟨file, i, j, hlocation, hnumber, rfl, hfills⟩ := fills_runExport hd hrun
    have hsame : d.SameFile target file ↔ j = i := hfills.sameFile_iff hd hnumber
    have hnumber' : d'.number? file = some j := hfills.names file j hnumber
    have hobject (b : ByteArray) (hb : d'.bytes j = b) : s.object? d' key = some b :=
      Store.object?_eq_some.mpr ⟨file, j, hlocation, hnumber', hb⟩
    refine ⟨s, file, d.bytes j, rfl, hlocation,
      Store.object?_eq_some.mpr ⟨file, j, hlocation, hnumber, rfl⟩, houtput.symm,
      houtput ▸ settings.shows_shown (showsBytes_exportRecord ..),
      fun hother => ?_, fun hitself => ?_⟩
    · have hne : j ≠ i := fun hj => hother (hsame.mpr hj)
      rw [if_neg hne] at hfills
      exact ⟨hfills.file?_self, hobject _ (hfills.bytes_other j hne)⟩
    · have hj : j = i := hsame.mp hitself
      rw [if_pos hj] at hfills
      exact ⟨hfills.file?_self, hobject _ (hj ▸ hfills.bytes_self)⟩

section sample

open Sample

/-- The object is exported to a new file. -/
theorem export_fidelity_beside :
    let target : Path := ⟨[0x6F]⟩
    Invocation.ofWords (words false ["get", "a", "-o", "o"]) =
        .ok ⟨settings false, .get "a" (some target)⟩ ∧
      disk.Stored ∧ (settings false).storeOn ⟨none, none⟩ disk = .ok (store false) ∧
      ∃ outcome d', (call false ["get", "a", "-o", "o"]).run disk = (.ok outcome, d') ∧
        outcome.code = 0 ∧
        outcome.output = (settings false).shown (exportRecord "a" 2 target) ∧
        Shows outcome.output (·.ShowsBytes 2) ∧
        d'.file? target = some ⟨#[7, 8]⟩ ∧ (store false).object? d' "a" = some ⟨#[7, 8]⟩ := by
  intro target
  have hwords : Invocation.ofWords (words false ["get", "a", "-o", "o"]) =
      .ok ⟨settings false, .get "a" (some target)⟩ := ofWords_of_toOption (by decide +kernel)
  obtain ⟨outcome, d', hrun, hcode⟩ :
      ∃ outcome d', (call false ["get", "a", "-o", "o"]).run disk = (.ok outcome, d') ∧
        outcome.code = 0 := exists_outcome (by decide +kernel)
  obtain ⟨s, file, held, hstore, hlocation, hobject, houtput, hshows, hother, -⟩ :=
    export_fidelity hwords stored_disk hrun hcode
  obtain rfl : store false = s := Except.ok.inj hstore
  have hholds : (store false).object? disk "a" = some ⟨#[7, 8]⟩ := by decide +kernel
  obtain rfl : ⟨#[7, 8]⟩ = held := Option.some.inj (hholds.symm.trans hobject)
  have hnone : disk.number? target = none := rfl
  obtain ⟨htarget, hheld⟩ := hother (by simp [Disk.SameFile, hnone])
  exact ⟨hwords, stored_disk, hstore, outcome, d', hrun, hcode, houtput, hshows, htarget,
    hheld⟩

/-- The object is exported to its own file.  The call says that all went well, and the object is
gone. -/
theorem export_onto_object :
    let answer := (call false ["get", "a", "-o", "s/a/a"]).run disk
    (Invocation.ofWords (words false ["get", "a", "-o", "s/a/a"])).toOption =
        some ⟨settings false, .get "a" (some object)⟩ ∧
      (settings false).storeOn ⟨none, none⟩ disk = .ok (store false) ∧
      (store false).object? disk "a" = some ⟨#[7, 8]⟩ ∧
      answer.1.toOption.map Outcome.code = some 0 ∧
      answer.1.toOption.map Outcome.output =
        some ((settings false).shown (exportRecord "a" 2 object)) ∧
      answer.2.file? object = some ByteArray.empty ∧
      (store false).object? answer.2 "a" = some ByteArray.empty := by
  intro answer
  refine ⟨?_, storeOn_settings .., ?_, ?_, ?_, ?_, ?_⟩ <;> decide +kernel

end sample

end Command

end BlobStore
