import BlobStore.Proofs.Config.Format
import BlobStore.Proofs.Store.Directories

/-!
# A configuration that is saved can be loaded

What `Config.save` writes is read back by `Config.load`, for every root that can be written and
every block size of 64 bits (`ofJson_indented`).  Saving replaces whatever the file held before;
if it fails, it has failed before the file was opened, so that the file still holds it
(`save_load`).
-/

namespace BlobStore

theorem Path.ofString_of_toString? {p : Path} {s : String} (h : p.toString? = some s) :
    Path.ofString s = p := by
  rw [Path.ofString, Text.toUTF8_of_fromUTF8? h]

namespace Config

variable {c : Config}

/-! ## The record of a configuration -/

/-- The record of a configuration whose root is the given text. -/
def record (c : Config) (root : String) : Json.Record :=
  [("root", .text root), ("transform", .text c.scheme.name), ("hash", .text c.algorithm.name),
    ("block_size", .natural c.blockSize), ("atomic_writes", .boolean c.atomicWrites)]

theorem toRecord_eq_ok {r : Json.Record} :
    c.toRecord = .ok r ↔ ∃ root, c.root.toString? = some root ∧ r = c.record root := by
  rw [toRecord]
  cases c.root.toString? with
  | none => simp
  | some root => simp [record, eq_comm]

/-- The entries as which a configuration is written. -/
def entries (c : Config) (root : String) : List Entry :=
  [.root root, .scheme c.scheme, .algorithm c.algorithm, .blockSize c.blockSize,
    .atomicWrites c.atomicWrites]

/-- What is written for a configuration is read as this configuration. -/
theorem ofJson_indented (hc : c.blockSize ≤ Json.maxNatural) {r : Json.Record}
    (hr : c.toRecord = .ok r) : ofJson r.indented = .ok c := by
  obtain ⟨root, hroot, rfl⟩ := toRecord_eq_ok.mp hr
  have hvalid : ∀ e ∈ c.entries root, e.Valid := by
    intro e he
    simp only [entries, List.mem_cons, List.not_mem_nil, or_false] at he
    rcases he with rfl | rfl | rfl | rfl | rfl
    · trivial
    · trivial
    · trivial
    · exact hc
    · trivial
  have honce : AtMostOnce (c.entries root) := by
    show ∀ name ∈ fieldNames, fieldNames.count name ≤ 1
    decide
  have hmade : ofEntries (c.entries root) = c := by
    show { c with root := Path.ofString root } = c
    rw [Path.ofString_of_toString? hroot]
  rw [ofJson_of_denotes hvalid honce
    (Json.denotes_of_spelled (Json.spelled_indented (c.record root))), hmade]

/-! ## Saving -/

/-- Making the directories above the file of a configuration. -/
def makeAbove (p : Path) : Action StoreError Unit :=
  match p.parent? with
  | none => pure ()
  | some dir => Action.mapError (fun e => .config (.directoryNotMade e)) (makeDirs dir)

theorem asks_makeAbove (p : Path) : (makeAbove p).Asks Request.Builds := by
  unfold makeAbove
  split
  · trivial
  · next dir _ => exact (asks_makeDirs dir).mapError _

/-- Saving makes directories, writes down the configuration and only then opens the file. -/
theorem run_save (c : Config) (p : Path) (d : Disk) :
    (c.save p).run d = match (makeAbove p).run d with
      | (.error e, d₁) => (.error e, d₁)
      | (.ok (), d₁) =>
        match c.toRecord with
        | .error e => (.error (.json e), d₁)
        | .ok r =>
          match d₁.create p with
          | .error e => (.error (.config (.notWritten e)), d₁)
          | .ok (h, d₂) => (.ok (), d₂.append h r.indented.toUTF8) := by
  have hsave : c.save p = makeAbove p >>= fun _ => match c.toRecord with
      | .error e => .fail (.json e)
      | .ok r =>
        Action.mapError (fun e => .config (.notWritten e)) (writeFile p r.indented.toUTF8) := by
    rw [save, makeAbove]
    cases p.parent? <;> rfl
  rw [hsave, Action.run_bind]
  rcases (makeAbove p).run d with ⟨e | _, d₁⟩
  · rfl
  · dsimp only
    cases c.toRecord with
    | error e => rfl
    | ok r =>
      dsimp only
      rw [Action.run_mapError, writeFile, Action.run_bind, Action.run_request]
      simp only [Disk.perform]
      cases d₁.create p <;> rfl

/-- Saving that succeeds has gone through all of its steps. -/
theorem run_save_eq_ok {p : Path} {d d' : Disk} : (c.save p).run d = (.ok (), d') ↔
    ∃ r d₁ h d₂, c.toRecord = .ok r ∧ (makeAbove p).run d = (.ok (), d₁) ∧
      d₁.create p = .ok (h, d₂) ∧ d₂.append h r.indented.toUTF8 = d' := by
  rw [run_save]
  rcases (makeAbove p).run d with ⟨e | _, d₁⟩
  · simp
  · cases c.toRecord with
    | error e => simp
    | ok r =>
      cases hcreate : d₁.create p with
      | error e => simp [hcreate]
      | ok made =>
        obtain ⟨h, d₂⟩ := made
        simp [hcreate]

/-- A configuration that has been saved is all that its file holds. -/
theorem fills_save {p : Path} {d d' : Disk} (hd : d.Stored)
    (hsave : (c.save p).run d = (.ok (), d')) :
    ∃ r d₁ i, c.toRecord = .ok r ∧ (makeAbove p).run d = (.ok (), d₁) ∧
      d₁.Fills d' p i r.indented.toUTF8 := by
  obtain ⟨r, d₁, h, d₂, hrecord, hmade, hcreate, rfl⟩ := run_save_eq_ok.mp hsave
  have hd₁ := (makeAbove p).run_stored hd
  rw [hmade] at hd₁
  exact ⟨r, d₁, h.number, hrecord, hmade, (Disk.fills_create hd₁ hcreate).append _⟩

/-- Saving that fails leaves the bytes of every file as they were. -/
theorem file?_save_of_error {p q : Path} {d d' : Disk} {e : StoreError}
    (hsave : (c.save p).run d = (.error e, d')) {b : ByteArray} (hb : d.file? q = some b) :
    d'.file? q = some b := by
  have hadds := (asks_makeAbove p).run_adds d
  have hkept : d' = ((makeAbove p).run d).2 := by
    rw [run_save] at hsave
    rcases hmade : (makeAbove p).run d with ⟨e' | _, d₁⟩
    · rw [hmade] at hsave
      exact (Prod.mk.inj hsave).2.symm
    · rw [hmade] at hsave
      cases hrecord : c.toRecord with
      | error e' =>
        simp only [hrecord] at hsave
        exact (Prod.mk.inj hsave).2.symm
      | ok r =>
        cases hcreate : d₁.create p with
        | error e' =>
          simp only [hrecord, hcreate] at hsave
          exact (Prod.mk.inj hsave).2.symm
        | ok made => simp [hrecord, hcreate] at hsave
  rw [hkept]
  exact hadds.file? hb

/-- **A configuration that is saved can be loaded.**  Let a configuration have a block size of 64
bits.  When saving it to a path succeeds, loading from this path gives the same configuration,
whatever was there before; when saving fails, the file that was there still has its bytes. -/
theorem save_load (hc : c.blockSize ≤ Json.maxNatural) {d : Disk} (hd : d.Stored) (p : Path) :
    (∀ d', (c.save p).run d = (.ok (), d') → (load p).run d' = (.ok c, d')) ∧
      ∀ e d', (c.save p).run d = (.error e, d') →
        ∀ b, d.file? p = some b → d'.file? p = some b := by
  constructor
  · intro d' hsave
    obtain ⟨r, d₁, i, hrecord, -, hfills⟩ := fills_save hd hsave
    rw [run_load hfills.file?_self, ofJson_indented hc hrecord]
  · intro e d' hsave b hb
    exact file?_save_of_error hsave hb

/-- A root with a quote, a backslash, a line break, a control character and a letter of two bytes,
and the largest block size, in the place of an object; and a root that is not UTF-8, which leaves
the object alone. -/
theorem save_load_largest :
    let c : Config := ⟨Path.ofString "\"\\\n\x01é", .identity, .blake3, Json.maxNatural, true⟩
    let c' : Config := { c with root := ⟨[0xFF]⟩ }
    Sample.disk.Stored ∧ c.blockSize ≤ Json.maxNatural ∧ c'.blockSize ≤ Json.maxNatural ∧
      (∃ d', (c.save Sample.object).run Sample.disk = (.ok (), d') ∧
        (load Sample.object).run d' = (.ok c, d')) ∧
      ∃ e d', (c'.save Sample.object).run Sample.disk = (.error e, d') ∧
        d'.file? Sample.object = some ⟨#[7, 8]⟩ := by
  intro c c'
  have hsaved : ((c.save Sample.object).run Sample.disk).1.toOption = some () := by
    decide +kernel
  have hfailed : ((c'.save Sample.object).run Sample.disk).1.toOption = none := by
    decide +kernel
  have hfile : Sample.disk.file? Sample.object = some ⟨#[7, 8]⟩ := by decide +kernel
  refine ⟨Sample.stored_disk, le_rfl, le_rfl, ?_, ?_⟩
  · obtain ⟨hload, -⟩ := save_load (c := c) le_rfl Sample.stored_disk Sample.object
    rcases hrun : (c.save Sample.object).run Sample.disk with ⟨e | _, d'⟩
    · simp [hrun, Except.toOption] at hsaved
    · exact ⟨d', rfl, hload d' hrun⟩
  · obtain ⟨-, hkept⟩ := save_load (c := c') le_rfl Sample.stored_disk Sample.object
    rcases hrun : (c'.save Sample.object).run Sample.disk with ⟨e | _, d'⟩
    · exact ⟨e, d', rfl, hkept e d' hrun _ hfile⟩
    · simp [hrun, Except.toOption] at hfailed

end Config

end BlobStore
