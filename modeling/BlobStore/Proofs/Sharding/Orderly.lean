import BlobStore.Proofs.Sharding.Refinement

/-!
# The layout below the root

The files below the root of a sharded store are the only record of what is stored: an object
is found again because its file is named by the digest and lies in the directories that the
name tells.  `Orderly` says that there is nothing else below the root.

Every operation keeps this, however it ends.  A removal adds nothing, and what a write adds
lies on the shelf of one digest, so that a write that fails half-way leaves directories on the
way to this shelf at worst (`Orderly.next_write`).  Hence every run on a root that is absent at
first keeps it (`layout_after`).
-/

namespace BlobStore.Sharding

variable {sh : Sharding} {root : Path} {d d' : Disk}

/-- Below a location there are directories on the way to shelves and files on shelves, and
nothing else. -/
structure Orderly (sh : Sharding) (top : Location) (d : Disk) : Prop where
  dirs : ∀ l, d.view (top ++ l) = some .dir → ∃ h, sh.IsDigest h ∧ l <+: sh.shelfDirs h
  files : ∀ l b, d.view (top ++ l) = some (.file b) → ∃ h, sh.IsDigest h ∧ l = sh.shelf h

/-- Every directory of a digest is named by digits, as many as a block has. -/
theorem IsDigest.of_mem_shelfDirs {h : List Char} (hh : sh.IsDigest h) {n : Name}
    (hn : n ∈ sh.shelfDirs h) :
    ∃ cs, n = Text.encode cs ∧ cs.length = sh.blockSize ∧ ∀ c ∈ cs, Text.Hex.IsDigit c := by
  obtain ⟨b, hb, rfl⟩ := List.mem_map.mp hn
  obtain ⟨hwidth, -, hmem⟩ := of_mem_blocks hb
  exact ⟨b, rfl, hwidth, fun c hc => hh.isDigit c (hmem c hc)⟩

namespace Orderly

variable {top : Location}

/-- Where nothing is, nothing is below either. -/
theorem of_absent (hclosed : Closed d.view) (habsent : d.node? top = none) :
    Orderly sh top d := by
  have hnone (l : List Name) : d.view (top ++ l) = none :=
    hclosed.none_of_none (List.prefix_append ..) (Disk.view_eq_none.mpr habsent)
  constructor
  · intro l hdir
    rw [hnone] at hdir
    exact absurd hdir (by simp)
  · intro l b hfile
    rw [hnone] at hfile
    exact absurd hfile (by simp)

/-- Removals keep the layout. -/
theorem of_removed (ho : Orderly sh top d)
    (hview : ∀ l, d'.view l = d.view l ∨ d'.view l = none) : Orderly sh top d' := by
  have hkept {l : Location} {e : Entry} (hl : d'.view l = some e) : d.view l = some e := by
    rcases hview l with hsame | hnone
    · rw [← hsame, hl]
    · rw [hl] at hnone
      exact absurd hnone (by simp)
  exact ⟨fun l hl => ho.dirs l (hkept hl), fun l b hl => ho.files l b (hkept hl)⟩

/-- New directories on the way to a shelf keep the layout. -/
theorem of_grows {h : List Char} (ho : Orderly sh top d) (hh : sh.IsDigest h)
    (hgrows : d.Grows d' (top ++ sh.shelfDirs h)) : Orderly sh top d' := by
  constructor
  · intro l hdir
    rcases hgrows.view (top ++ l) with hsame | ⟨-, -, hway⟩
    · exact ho.dirs l (hsame ▸ hdir)
    · rw [List.prefix_append_right_inj] at hway
      exact ⟨h, hh, hway⟩
  · intro l b hfile
    rcases hgrows.view (top ++ l) with hsame | ⟨-, hdir, -⟩
    · exact ho.files l b (hsame ▸ hfile)
    · rw [hdir] at hfile
      exact absurd hfile (by simp)

/-- A new file on a shelf keeps the layout. -/
theorem of_stores {h : List Char} {b : ByteArray} (ho : Orderly sh top d) (hh : sh.IsDigest h)
    (hstores : d.Stores d' (top ++ sh.shelf h) b) : Orderly sh top d' := by
  constructor
  · intro l hdir
    rw [hstores.view] at hdir
    split_ifs at hdir
    · exact absurd hdir (by simp)
    · exact ho.dirs l hdir
  · intro l b' hfile
    rw [hstores.view] at hfile
    split_ifs at hfile with heq
    · exact ⟨h, hh, List.append_cancel_left heq⟩
    · exact ho.files l b' hfile

theorem of_view_eq (ho : Orderly sh top d) (hview : ∀ l, d'.view l = d.view l) :
    Orderly sh top d' := ho.of_removed fun l => Or.inl (hview l)

/-! ## Operations -/

variable {atomic : Bool} (hroot : root.Plain) (ho : Orderly sh (d.locate root) d)

include hroot ho

/-- A write keeps the layout, wherever it stops. -/
theorem next_write (hd : d.Unshared) (key : String) (source : Source) :
    Orderly sh (d.locate root) ((sh.store root atomic).next (.write key source) d) := by
  have hdigest := sh.isDigest_digest key
  rw [Store.next_write]
  rcases Store.write_cases (s := sh.store root atomic) source hroot hd key with
    ⟨e, -, hrun⟩ | ⟨site, d₁, hsite, hgrows, hwritten⟩
  · rw [hrun]
    exact ho
  · rw [locate_dir_of_plain hroot hsite] at hgrows
    have hmade := ho.of_grows hdigest hgrows
    rcases hwritten with ⟨e, -, hview⟩ | ⟨d₂, -, hstores, -⟩
    · exact hmade.of_view_eq hview
    · rw [locate_file_of_plain hroot hsite] at hstores
      exact hmade.of_stores hdigest hstores

theorem next (hd : d.Unshared) (operation : Operation) :
    Orderly sh (d.locate root) ((sh.store root atomic).next operation d) := by
  cases operation with
  | has key =>
    rw [Store.next_has_eq]
    exact ho
  | read key =>
    rw [Store.next_read_eq]
    exact ho
  | write key source => exact ho.next_write hroot hd key source
  | delete key =>
    refine ho.of_removed fun l => ?_
    exact (Store.view_next_delete (s := sh.store root atomic) hroot key d l).imp_right And.right
  | clear =>
    refine ho.of_removed fun l => ?_
    exact (Store.view_next_clear (s := sh.store root atomic) hroot d l).imp_right
      fun hgone => hgone.2.1

omit ho

/-- A run of operations on stores with one root and one sharding keeps the layout. -/
theorem after {calls : List Call} (hcalls : ∀ c ∈ calls, ∃ atomic, c.store = sh.store root atomic) :
    ∀ {d : Disk}, d.Unshared → Orderly sh (d.locate root) d →
      Orderly sh (d.locate root) (d.after calls) := by
  induction calls with
  | nil => intro d _ ho; exact ho
  | cons c calls ih =>
    intro d hd ho
    obtain ⟨atomic, hstore⟩ := hcalls c List.mem_cons_self
    have hnext : Orderly sh (d.locate root) ((sh.store root atomic).next c.operation d) :=
      ho.next hroot hd c.operation
    rw [← hstore] at hnext
    have hrest := ih (fun c' hc' => hcalls c' (List.mem_cons_of_mem _ hc'))
      (c.store.next_unshared c.operation hd)
    rw [Store.next_locate] at hrest
    exact hrest hnext

end Orderly

/-- **The layout below the root.**  Let a root be absent at first, and let operations of any
kind, which may fail, be done on stores with this root and one sharding, each with a way of
writing of its own.  After every one of them, what lies below the root is either a file, named
by as many digits as the digest has, which lies in the directories named by the blocks of its
own name; or a directory on the way to such a file, no deeper than there are blocks and with
names of as many digits as a block has.  No name is that of a temporary file. -/
theorem layout_after (sh : Sharding) {root : Path} (hroot : root.Plain) {d : Disk}
    (hd : d.WellFormed) (habsent : d.node? (d.locate root) = none) {calls : List Call}
    (hcalls : ∀ c ∈ calls, ∃ atomic, c.store = sh.store root atomic) (names : List Name) :
    (∀ b, (d.after calls).view (d.locate root ++ names) = some (.file b) →
      ∃ h : List Char, h.length = sh.algorithm.hexLength ∧ (∀ c ∈ h, Text.Hex.IsDigit c) ∧
        (blocks sh.blockSize h).length = sh.algorithm.hexLength / sh.blockSize ∧
        names = (blocks sh.blockSize h).map Text.encode ++ [Text.encode h]) ∧
    ((d.after calls).view (d.locate root ++ names) = some .dir →
      names.length ≤ sh.algorithm.hexLength / sh.blockSize ∧
        (∀ n ∈ names, ∃ cs, n = Text.encode cs ∧ cs.length = sh.blockSize ∧
          ∀ c ∈ cs, Text.Hex.IsDigit c) ∧
        ∃ h, sh.IsDigest h ∧ names <+: (blocks sh.blockSize h).map Text.encode) ∧
    ((d.after calls).view (d.locate root ++ names) ≠ none → ∀ i, Disk.tempName i ∉ names) := by
  have ho : Orderly sh (d.locate root) (d.after calls) :=
    Orderly.after hroot hcalls hd.toUnshared (Orderly.of_absent hd.closed habsent)
  refine ⟨fun b hfile => ?_, fun hdir => ?_, fun hentry i hmem => ?_⟩
  · obtain ⟨h, hh, rfl⟩ := ho.files names b hfile
    exact ⟨h, hh.length_eq, hh.isDigit, by rw [length_blocks, hh.length_eq], rfl⟩
  · obtain ⟨h, hh, hle⟩ := ho.dirs names hdir
    refine ⟨?_, fun n hn => hh.of_mem_shelfDirs (hle.subset hn), h, hh, hle⟩
    exact hle.length_le.trans_eq hh.length_shelfDirs
  · cases hview : (d.after calls).view (d.locate root ++ names) with
    | none => exact hentry hview
    | some entry =>
      cases entry with
      | dir =>
        obtain ⟨h, hh, hle⟩ := ho.dirs names hview
        exact hh.tempName_not_mem_shelf i (List.mem_append_left _ (hle.subset hmem))
      | file b =>
        obtain ⟨h, hh, rfl⟩ := ho.files names b hview
        exact hh.tempName_not_mem_shelf i hmem

/-- Of two writes that fail half-way and a deletion, the plain write leaves a file, and this
file lies on its shelf. -/
theorem layout_after_failures :
    let root : Path := ⟨[0x73]⟩
    let calls : List Call :=
      [⟨standard.store root true, .write "a" (.stream [.bytes ⟨#[1]⟩] true)⟩,
        ⟨standard.store root false, .write "b" (.stream [.bytes ⟨#[2]⟩, .interrupted] true)⟩,
        ⟨standard.store root false, .delete "a"⟩]
    root.Plain ∧ Disk.empty.WellFormed ∧ Disk.empty.node? (Disk.empty.locate root) = none ∧
      (∀ c ∈ calls, ∃ atomic, c.store = standard.store root atomic) ∧
      ∃ names b, (Disk.empty.after calls).view (Disk.empty.locate root ++ names) =
          some (.file b) ∧
        ∃ h : List Char, h.length = 40 ∧
          names = (blocks 5 h).map Text.encode ++ [Text.encode h] := by
  intro root calls
  have hroot : root.Plain := ⟨by decide, by decide⟩
  have habsent : Disk.empty.node? (Disk.empty.locate root) = none := by decide
  have hcalls : ∀ c ∈ calls, ∃ atomic, c.store = standard.store root atomic := by
    simp [calls]
  have hfile : (Disk.empty.after calls).node?
      (Disk.empty.locate root ++ standard.shelf (standard.digest "b")) = some (.file 1) := by
    unfold calls root
    decide +kernel
  obtain ⟨hfiles, -, -⟩ := layout_after standard hroot Disk.wellFormed_empty habsent hcalls
    (standard.shelf (standard.digest "b"))
  obtain ⟨h, hlength, -, -, hnames⟩ := hfiles _ (Disk.view_of_file hfile)
  exact ⟨hroot, Disk.wellFormed_empty, habsent, hcalls, _, _, Disk.view_of_file hfile, h, hlength,
    hnames⟩

end BlobStore.Sharding
