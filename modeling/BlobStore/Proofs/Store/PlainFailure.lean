import BlobStore.Proofs.Store.Looking
import BlobStore.Proofs.Store.Opening

/-!
# A plain write that fails

A plain write empties the object's file and fills it as the bytes come.  If the source fails on the
way, the file stays with the bytes that have come by then, and nothing is left of the object that
was there before.  That needs the file to be open: a failure before leaves the bytes of all files as
they are, and the source unread.

Which of the two it is does not depend on the source.  Either the file can be opened, and then the
source alone decides; or it cannot, and then every write fails in the same way.
-/

namespace BlobStore

/-- A source that fails does not read from the disk. -/
theorem Source.delivered_of_failure {source : Source} {e : IoError}
    (h : source.failure? = some e) (d d' : Disk) : source.delivered d' = source.delivered d := by
  cases source with
  | reader deliveries failure => rfl
  | opened o =>
    cases o with
    | dir => rfl
    | file handle size => cases h

namespace Store

variable {s : Store} {key : String} {site : Site} {d : Disk}

/-- What a plain write leaves whose source has failed: the file with what has been delivered, and
no other file changed. -/
theorem run_write_of_failure (hroot : s.root.Plain) (hplain : s.atomicWrites = false)
    (hd : d.Unshared) (hsite : s.site key = .ok site) {h : Handle} {d₁ : Disk}
    (hopening : (opening site).run d = (.ok h, d₁)) {source : Source} {e : IoError}
    (hfailure : source.failure? = some e) :
    ∃ d', (s.write key source).run d = (.error (.io e), d') ∧
      d'.view (d.locate site.file) = some (.file (source.delivered d)) ∧
      s.reply (.has key) d' = .present true ∧
      ∀ l b, l ≠ d.locate site.file → (d'.view l = some (.file b) ↔ d.view l = some (.file b)) := by
  have hbelow := below_of_site hroot hsite
  have hbase : d₁.base = d.base := by rw [← (opening site).run_base d, hopening]
  obtain ⟨d₀, hgrows, hleads, hstores⟩ :=
    stores_of_opening hbelow.plain_dir hbelow.plain_file hd hopening
  have hstored := hstores (source.delivered d)
  have hrun := run_write_of_opened hplain hsite hopening source
  rw [Source.answer, hfailure, source.delivered_of_failure hfailure d d₁] at hrun
  refine ⟨_, hrun, hstored.view_self, ?_, fun l b hl => ?_⟩
  · refine reply_has_of_file hsite (hleads.mono ?_ fun m hm => hstored.node?_dir hm)
      hstored.view_self
    exact hbase.trans hgrows.base.symm
  · rw [hstored.view_other hl, hgrows.view_file]

/-- **A plain write that fails leaves exactly what has been read.**  Let some source be stored under
a key.  Then a source that fails, after whatever deliveries and interruptions, makes the write fail
with its own failure; the object's file holds what has been delivered, which for a stream is what
has been collected from its deliveries, and nothing else; the key is present, and every other file
is as it was.

If making the directories or opening the file fails, then every write under the key fails with this
failure and leaves the same disk, on which all files are as they were.  It would do so whatever
stood in the place of the copy, so the source is not read.  This is what has happened if no source
can be stored. -/
theorem plain_write_failure (hroot : s.root.Plain) (hplain : s.atomicWrites = false)
    (hd : d.Unshared) (hsite : s.site key = .ok site) :
    ((∃ source n, ((s.write key source).run d).1 = .ok n) →
      ∀ source e, source.failure? = some e →
        ∃ d', (s.write key source).run d = (.error (.io e), d') ∧
          d'.view (d.locate site.file) = some (.file (source.delivered d)) ∧
          s.reply (.has key) d' = .present true ∧
          ∀ l b, l ≠ d.locate site.file →
            (d'.view l = some (.file b) ↔ d.view l = some (.file b))) ∧
    (∀ e d', (opening site).run d = (.error e, d') →
      (∀ source, (s.write key source).run d = (.error (.io e), d')) ∧
        (∀ copy, (s.writeBy key copy).run d = (.error (.io e), d')) ∧
        ∀ l b, d'.view l = some (.file b) ↔ d.view l = some (.file b)) ∧
    ((¬ ∃ source n, ((s.write key source).run d).1 = .ok n) →
      ∃ e d', (opening site).run d = (.error e, d')) := by
  refine ⟨fun hstored source e hfailure => ?_,
    fun e d' hopening => ⟨fun source => ?_, ?_, fun l b => ?_⟩, fun hnot => ?_⟩
  · obtain ⟨h, d₁, hopening⟩ := (exists_written_iff hplain hsite).mp hstored
    exact run_write_of_failure hroot hplain hd hsite hopening hfailure
  · rw [write_eq_writeBy, run_writeBy_of_error hplain hsite hopening]
  · exact run_writeBy_of_error hplain hsite hopening
  · exact (grows_of_opening (below_of_site hroot hsite).plain_dir hopening).view_file
  · rw [exists_written_iff hplain hsite] at hnot
    rcases hopening : (opening site).run d with ⟨e | h, d'⟩
    · exact ⟨e, d', rfl⟩
    · exact absurd ⟨h, d', hopening⟩ hnot

/-- A stream that gives up after two bytes leaves these in the place of a longer object. -/
theorem plain_write_failure_shorter :
    let s : Store := ⟨⟨[0x73]⟩, Layout.identity, false⟩
    let d := (((Disk.empty.insert [[0x73]] .dir).insert [[0x73], [0x61]] .dir).insertFile
      [[0x73], [0x61], [0x61]]).setBytes 0 ⟨#[7, 8, 9]⟩
    let source : Source := .stream [.bytes ⟨#[1]⟩, .interrupted, .bytes ⟨#[2]⟩] true
    s.root.Plain ∧ d.Unshared ∧ source.failure? = some (.custom "source failed") ∧
      ∃ d', (s.write "a" source).run d = (.error (.io (.custom "source failed")), d') ∧
        d'.view [[0x73], [0x61], [0x61]] = some (.file ⟨#[1, 2]⟩) ∧
        s.reply (.has "a") d' = .present true := by
  intro s d source
  have hroot : s.root.Plain := ⟨by decide, by decide⟩
  have hd : d.Unshared :=
    (((Disk.wellFormed_empty.toUnshared.insert_dir (by decide)).insert_dir
      (by decide)).insertFile (by decide)).setBytes 0 _
  have haccepted : (s.layout "a").Accepted := ⟨by decide, by decide, by decide⟩
  obtain ⟨site, hsite⟩ := exists_site haccepted
  have hplace : d.locate site.file = [[0x73], [0x61], [0x61]] := by
    have hfile : s.location "a" = .ok ⟨[0x73, 0x2F, 0x61, 0x2F, 0x61]⟩ := by unfold s; rfl
    rw [location, hsite] at hfile
    rw [show site.file = _ from Except.ok.inj hfile]
    unfold d
    decide
  have hstored : ((s.write "a" (.ofBytes ⟨#[5]⟩)).run d).1 = .ok 1 := by unfold s d; rfl
  obtain ⟨d', hrun, hview, hhas, -⟩ :=
    (plain_write_failure hroot rfl hd hsite).1 ⟨_, _, hstored⟩ source (.custom "source failed") rfl
  rw [hplace] at hview
  exact ⟨hroot, hd, rfl, d', hrun, hview, hhas⟩

end Store

end BlobStore
