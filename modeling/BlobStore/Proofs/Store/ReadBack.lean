import BlobStore.Proofs.Store.Looking
import BlobStore.Proofs.Store.Writing

/-!
# What has been written is read back

A write that succeeds has put exactly the delivered bytes at the object's location, so the
object is present and read back whole, whatever was there before.  No other object is
touched: the locations of two objects whose paths have different components are different,
and a read elsewhere sees the same file before and after.
-/

namespace BlobStore.Store

variable {s : Store} {d : Disk}

/-- Objects whose paths have different components lie at different locations. -/
theorem locate_ne_of_components_ne (hroot : s.root.Plain) {key key₂ : String} {site site₂ : Site}
    (hsite : s.site key = .ok site) (hsite₂ : s.site key₂ = .ok site₂)
    (hne : site₂.file.components ≠ site.file.components) (d : Disk) :
    d.locate site₂.file ≠ d.locate site.file := by
  intro heq
  apply hne
  have hbelow := below_of_site hroot hsite
  have hbelow₂ := below_of_site hroot hsite₂
  rw [hbelow₂.locate_file, hbelow.locate_file, List.append_cancel_left_eq] at heq
  rw [hbelow₂.plain_file.components_eq, hbelow.plain_file.components_eq, hbelow₂.isAbsolute_file,
    hbelow.isAbsolute_file, hbelow₂.names_file, hbelow.names_file, heq]

/-- What a successful write of a stream leaves behind: more directories, and the object's
file with the bytes that have been delivered. -/
theorem stores_of_written (hroot : s.root.Plain) (hd : d.Unshared) {key : String}
    {deliveries : List Delivery} {failure : Option IoError} {n : Nat}
    (hwritten : s.reply (.write key (.reader deliveries failure)) d = .written n) :
    n = (Source.collected deliveries).size ∧ ∃ site d₁, s.site key = .ok site ∧
      d.Grows d₁ (d.locate site.dir) ∧ d₁.Leads site.file (d.locate site.file) ∧
        d₁.Stores (s.next (.write key (.reader deliveries failure)) d) (d.locate site.file)
          (Source.collected deliveries) := by
  rw [reply_write] at hwritten
  rw [next_write]
  rcases write_cases (.reader deliveries failure) hroot hd key with
    ⟨e, -, hrun⟩ | ⟨site, d₁, hsite, hgrows, hcase⟩
  · simp [hrun] at hwritten
  · rcases hcase with ⟨e, herror, -⟩ | ⟨d₂, hleads, hstores, hok | ⟨-, e, herror⟩⟩
    · simp [herror] at hwritten
    · rw [hok] at hwritten
      exact ⟨(Reply.written.inj hwritten).symm, site, d₁, hsite, hgrows, hleads, hstores⟩
    · simp [herror] at hwritten

/-- What is read elsewhere does not change when directories and one file are added. -/
theorem reply_read_of_stores (hroot : s.root.Plain) (hd : d.WellFormed) {d₁ d' : Disk}
    {l m : Location} {b : ByteArray} (hgrows : d.Grows d₁ m) (hstores : d₁.Stores d' l b)
    (hbase : d'.base = d.base) {key : String}
    (hne : ∀ site, s.site key = .ok site → d.locate site.file ≠ l) (n : Nat) (e : ByteArray) :
    s.reply (.read key) d' = .contents n e ↔ s.reply (.read key) d = .contents n e := by
  rw [reply_read_eq_contents, reply_read_eq_contents]
  refine and_congr_right fun _ => exists_congr fun site => ?_
  constructor
  · rintro ⟨k, hsite, hleads, hview⟩
    have hplain := (below_of_site hroot hsite).plain_file
    have hk : k = d.locate site.file := by
      rw [hleads.eq_locate hplain, Disk.locate_of_base hbase]
    rw [hstores.view_other (hk ▸ hne site hsite), hgrows.view_file] at hview
    -- the file was there before, and so was all above it
    refine ⟨k, hsite, hleads.of_dirs hplain hbase.symm fun j hj hjk => ?_, hview⟩
    exact Disk.view_eq_dir.mp (hd.closed.dir_of_prefix hj hjk (by simp [hview]))
  · rintro ⟨k, hsite, hleads, hview⟩
    have hk : k = d.locate site.file := hleads.eq_locate (below_of_site hroot hsite).plain_file
    refine ⟨k, hsite, hleads.mono hbase fun j hj => hstores.node?_dir (hgrows.node?_dir hj), ?_⟩
    rw [hstores.view_other (hk ▸ hne site hsite), hgrows.view_file, hview]

/-- **What has been written is read back, and nothing else has changed.**  After a
successful write of a stream the object is present and is read with exactly the bytes that
the stream delivered, and these are the bytes of the file at its location.  What is read
under a key with another location is the same as before. -/
theorem write_read_back (hroot : s.root.Plain) (hd : d.WellFormed) {key : String}
    {deliveries : List Delivery} {failure : Option IoError} {n : Nat}
    (hwritten : s.reply (.write key (.reader deliveries failure)) d = .written n) :
    n = (Source.collected deliveries).size ∧
      s.reply (.has key) (s.next (.write key (.reader deliveries failure)) d) = .present true ∧
      s.reply (.read key) (s.next (.write key (.reader deliveries failure)) d) =
        .contents n (Source.collected deliveries) ∧
      (∃ file, s.location key = .ok file ∧
        (s.next (.write key (.reader deliveries failure)) d).view (d.locate file) =
          some (.file (Source.collected deliveries))) ∧
      ∀ key₂, (∀ file file₂, s.location key = .ok file → s.location key₂ = .ok file₂ →
          file₂.components ≠ file.components) →
        ∀ e, (∃ m, s.reply (.read key₂) (s.next (.write key (.reader deliveries failure)) d) =
            .contents m e) ↔ ∃ m, s.reply (.read key₂) d = .contents m e := by
  obtain ⟨hn, site, d₁, hsite, hgrows, hleads, hstores⟩ :=
    stores_of_written hroot hd.toUnshared hwritten
  have hbase : (s.next (.write key (.reader deliveries failure)) d).base = d.base :=
    Action.run_base _ d
  have hleads' := hleads.mono (hbase.trans hgrows.base.symm) fun m hm => hstores.node?_dir hm
  refine ⟨hn, reply_has_of_file hsite hleads' hstores.view_self,
    reply_read_eq_contents.mpr ⟨hn, site, _, hsite, hleads', hstores.view_self⟩,
    ⟨site.file, by rw [location, hsite]; rfl, hstores.view_self⟩, fun key₂ hcomponents e => ?_⟩
  refine exists_congr fun m => reply_read_of_stores hroot hd hgrows hstores hbase ?_ m e
  intro site₂ hsite₂
  refine locate_ne_of_components_ne hroot hsite hsite₂ (hcomponents _ _ ?_ ?_) d
  · rw [location, hsite]
    rfl
  · rw [location, hsite₂]
    rfl

/-- A short object that has taken the place of a longer one is read back without a rest of
it. -/
theorem write_read_back_shorter :
    let s : Store := ⟨⟨[0x73]⟩, Layout.identity, false⟩
    let d := (((Disk.empty.insert [[0x73]] .dir).insert [[0x73], [0x61]] .dir).insertFile
      [[0x73], [0x61], [0x61]]).setBytes 0 ⟨#[7, 8]⟩
    s.root.Plain ∧ d.WellFormed ∧
      s.reply (.read "a") (s.next (.write "a" (.stream [.interrupted, .bytes ⟨#[1]⟩] false)) d) =
        .contents 1 ⟨#[1]⟩ := by
  intro s d
  have hroot : s.root.Plain := ⟨by decide, by decide⟩
  have hd : d.WellFormed :=
    (((Disk.wellFormed_empty.insert_dir (by decide) rfl).insert_dir (by decide) rfl).insertFile
      (by decide) rfl (by decide)).setBytes 0 _
  have hwritten : s.reply (.write "a" (.stream [.interrupted, .bytes ⟨#[1]⟩] false)) d =
      .written 1 := by unfold s d; rfl
  exact ⟨hroot, hd, (write_read_back hroot hd hwritten).2.2.1⟩

end BlobStore.Store
