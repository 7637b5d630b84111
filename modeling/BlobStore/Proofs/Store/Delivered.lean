import BlobStore.Proofs.Store.Contents

/-!
# What a write leaves of what is delivered

A write that succeeds has put the bytes that its source delivers under the key.  They are the
bytes that the source had when the write began, with one exception: a plain write empties the
object's file before it copies, so a source that reads from that very file finds nothing
(`places_write`).  An atomic write copies to a file that is new, and there is no exception.

Nothing is asked of the root, so the object's file is known only by its number.
-/

namespace BlobStore

namespace Source

/-- The number of the file from which a source reads. -/
def number? : Source → Option Nat
  | opened (.file h _) => some h.number
  | _ => none

variable {d d' : Disk}

theorem delivered_of_adds (h : d.Adds d') (source : Source) :
    source.delivered d' = source.delivered d := by
  cases source with
  | reader deliveries failure => rfl
  | opened o =>
    cases o with
    | dir => rfl
    | file file size => simp only [delivered, Disk.readFrom, Disk.bytes, h.contents]

/-- Where a file has been emptied, a source that reads from it has nothing to deliver. -/
theorem delivered_of_fills {p : Path} {i : Nat} (hf : d.Fills d' p i ByteArray.empty)
    (source : Source) :
    source.delivered d' = if source.number? = some i then ByteArray.empty else source.delivered d := by
  cases source with
  | reader deliveries failure => rfl
  | opened o =>
    cases o with
    | dir => rfl
    | file file size =>
      simp only [delivered, number?, Disk.readFrom, Option.some.injEq]
      split_ifs with hi
      · rw [hi, hf.bytes_self]
        rfl
      · rw [hf.bytes_other _ hi]

theorem answer_eq_ok {source : Source} {n : Nat} :
    source.answer d = .ok n ↔ source.failure? = none ∧ n = (source.delivered d).size := by
  rw [answer]
  cases source.failure? <;> simp [eq_comm]

end Source

/-- A disk on which a path leads to a file with the given bytes.  A path to any other file still
leads to the same bytes. -/
structure Disk.Places (d d' : Disk) (p : Path) (b : ByteArray) : Prop where
  file : d'.file? p = some b
  other : ∀ q c, d.file? q = some c → d'.SameFile q p ∨ d'.file? q = some c

namespace Disk

variable {d d' d'' : Disk} {p : Path} {b : ByteArray}

theorem Fills.places {i : Nat} (hf : d.Fills d' p i b) : d.Places d' p b where
  file := hf.file?_self
  other q c hc := by
    obtain ⟨j, hj, rfl⟩ := file?_eq_some.mp hc
    by_cases hji : j = i
    · exact Or.inl ⟨i, hji ▸ hf.names q j hj, hf.number⟩
    · exact Or.inr (hf.file?_other hj hji)

theorem Places.of_adds (hadds : d.Adds d') (h : d'.Places d'' p b) : d.Places d'' p b where
  file := h.file
  other q c hc := by
    obtain ⟨j, hj, rfl⟩ := file?_eq_some.mp hc
    refine h.other q _ ?_
    rw [file?_of_number? (hadds.number? hj), bytes, bytes, hadds.contents]

/-- A file made on the side, and filled there, that then gets the path. -/
theorem places_replace (hd : d.Stored) {temp : Path} {l : Location} (hleads : d.Leads temp l)
    (hnone : d.node? l = none) {h : Handle} (hnumber : h.number = d.contents.size)
    (hreplace : ((d.insertFile l).append h b).replace temp p = .ok d') : d.Places d' p b := by
  have htemp : ((d.insertFile l).append h b).number? temp = some d.contents.size :=
    number?_setBytes (number?_insertFile hleads hnone)
  have hp := number?_replace hreplace htemp
  have hbytes (i : Nat) : d'.bytes i = if i = d.contents.size then b else d.bytes i := by
    have hlt : d.contents.size < (d.insertFile l).contents.size := by simp [Disk.insertFile]
    obtain ⟨old, new, j, -, -, -, -, rfl⟩ := replace_eq_ok hreplace
    rw [bytes_insert, bytes_erase, append, bytes_setBytes, hnumber, bytes_insertFile, if_pos rfl,
      ByteArray.empty_append]
    by_cases hi : i = d.contents.size
    · rw [if_pos ⟨hi, hlt⟩, if_pos hi]
    · rw [if_neg fun h => hi h.1, if_neg hi, bytes_insertFile, if_neg hi]
  refine ⟨by rw [file?_of_number? hp, hbytes, if_pos rfl], fun q c hc => ?_⟩
  obtain ⟨j, hj, rfl⟩ := file?_eq_some.mp hc
  have hne : j ≠ d.contents.size := (hd.number?_lt hj).ne
  have hj' : ((d.insertFile l).append h b).number? q = some j :=
    number?_setBytes (number?_insertFile_other hleads.ne_nil hnone hj)
  rcases number?_replace_other hreplace htemp hj' hne with hq | hq
  · exact Or.inr (by rw [file?_of_number? hq, hbytes, if_neg hne])
  · exact Or.inl ⟨_, hq, hp⟩

end Disk

namespace Store

variable {s : Store} {key : String} {source : Source} {dir file : Path} {d d' : Disk} {n : Nat}

/-- An atomic write that succeeds leaves what was delivered in a file that is new. -/
theorem writeAtomic_eq_ok (hd : d.Stored)
    (hrun : (writeAtomic dir file source).run d = (.ok n, d')) :
    source.failure? = none ∧ n = (source.delivered d).size ∧
      d.Places d' file (source.delivered d) := by
  cases hcreate : d.createTemp dir with
  | error e =>
    simp [run_writeAtomic_of_error source hcreate] at hrun
  | ok made =>
    obtain ⟨temp, h, d₁⟩ := made
    rw [run_writeAtomic_of_createTemp source hcreate] at hrun
    obtain ⟨l, hleads, hnone, hnumber, rfl⟩ := Disk.leads_createTemp hcreate
    simp only [source.delivered_insertFile] at hrun
    cases hanswer : source.answer (d.insertFile l) with
    | error e => simp [hanswer] at hrun
    | ok m =>
      obtain ⟨hfailure, hm⟩ := Source.answer_eq_ok.mp hanswer
      rw [source.delivered_insertFile] at hm
      simp only [hanswer] at hrun
      split at hrun
      · simp at hrun
      · next d₃ hreplace =>
        cases hrun
        exact ⟨hfailure, hm, Disk.places_replace hd hleads hnone hnumber hreplace⟩

/-- A plain write that succeeds has filled the file with what was delivered after it had been
emptied. -/
theorem writePlain_eq_ok (hd : d.Stored) (hrun : (writePlain file source).run d = (.ok n, d')) :
    ∃ i b, source.failure? = none ∧ n = b.size ∧ d.Fills d' file i b ∧
      b = if source.number? = some i then ByteArray.empty else source.delivered d := by
  obtain ⟨h, d₁, hcreate, hcopy⟩ := Action.run_bind_eq_ok.mp hrun
  rw [Action.run_request, Disk.perform_create_eq_ok] at hcreate
  have hemptied := Disk.fills_create hd hcreate
  rw [Source.run_copyTo] at hcopy
  obtain ⟨hanswer, rfl⟩ := Prod.mk.inj hcopy
  obtain ⟨hfailure, hn⟩ := Source.answer_eq_ok.mp hanswer
  exact ⟨h.number, source.delivered d₁, hfailure, hn, hemptied.append _,
    source.delivered_of_fills hemptied⟩

/-- The bytes to store are those of the file in which they are stored, which is emptied first. -/
def ReadsItself (s : Store) (number : Option Nat) (object : Path) (d : Disk) : Prop :=
  s.atomicWrites = false ∧ ∃ i, number = some i ∧ d.number? object = some i

/-- After a write that succeeds the object has the bytes that the source had to deliver, unless
the write was plain and the source reads from the object's file.  No other file has changed. -/
theorem places_write (hd : d.Stored) (hrun : (s.write key source).run d = (.ok n, d')) :
    ∃ object b, s.location key = .ok object ∧ source.failure? = none ∧ n = b.size ∧
      d.Places d' object b ∧
      (¬ s.ReadsItself source.number? object d' → b = source.delivered d) ∧
      (s.ReadsItself source.number? object d' → b = ByteArray.empty) := by
  obtain ⟨site, d₀, hfound, hrun⟩ := Action.run_bind_eq_ok.mp hrun
  rw [Action.run_ofExcept] at hfound
  obtain ⟨hsite, rfl⟩ := Prod.mk.inj hfound
  obtain ⟨_, d₁, hmade, hrun⟩ := Action.run_bind_eq_ok.mp (Action.run_mapError_eq_ok.mp hrun)
  have hlocation := location_eq_ok.mpr ⟨site, hsite, rfl⟩
  have hadds := (asks_makeDirs site.dir).run_adds d
  have hd₁ := (makeDirs site.dir).run_stored hd
  rw [hmade] at hadds hd₁
  split_ifs at hrun with hatomic
  · obtain ⟨hfailure, hn, hplaces⟩ := writeAtomic_eq_ok hd₁ hrun
    rw [source.delivered_of_adds hadds] at hn hplaces
    refine ⟨site.file, _, hlocation, hfailure, hn, hplaces.of_adds hadds, fun _ => rfl,
      fun hitself => ?_⟩
    exact absurd hitself.1 (by simp [hatomic])
  · obtain ⟨i, b, hfailure, hn, hfills, hb⟩ := writePlain_eq_ok hd₁ hrun
    rw [source.delivered_of_adds hadds] at hb
    have hitself : s.ReadsItself source.number? site.file d' ↔ source.number? = some i := by
      constructor
      · rintro ⟨-, j, hj, hobject⟩
        rw [hj, ← hobject, hfills.number]
      · intro hi
        exact ⟨by simpa using hatomic, i, hi, hfills.number⟩
    refine ⟨site.file, b, hlocation, hfailure, hn, hfills.places.of_adds hadds, fun hother => ?_,
      fun h => ?_⟩
    · rw [hb, if_neg fun h => hother (hitself.mpr h)]
    · rw [hb, if_pos (hitself.mp h)]

end Store

end BlobStore
