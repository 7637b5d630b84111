import BlobStore.Proofs.Sharding.Shelved
import BlobStore.Proofs.Sharding.Site
import BlobStore.Proofs.Store.Containment
import BlobStore.Proofs.Store.Looking
import Mathlib.Data.List.Forall2

/-!
# A sharded store is a catalog

Seen from outside, a sharded store is a map from digests to bytes: in every run of uses,
with either way of writing at every step, it answers as the map does
(`sharded_refines_catalog`).

Each use is shown to answer as on the catalog and to keep `Shelved`, which needs no more than
what reading, writing and removing do with nothing in the way.
-/

namespace BlobStore.Sharding

variable {sh : Sharding} {root : Path} {m : Catalog} {d : Disk} {atomic : Bool} {key : String}

/-- The store with a sharded layout at a root. -/
abbrev store (sh : Sharding) (root : Path) (atomic : Bool) : Store :=
  ⟨root, Layout.sharded sh, atomic⟩

/-! ## Looking -/

section looking

variable (hroot : Root root d) (hs : Shelved sh root m d) {site : Site}
  (hsite : (sh.store root atomic).site key = .ok site)

include hroot hs hsite

theorem view_file : d.view (d.locate site.file) = (m (sh.digest key)).map .file := by
  rw [locate_file hroot hsite]
  exact hs.objects _ (sh.isDigest_digest key)

omit hs in
theorem dropLast_locate_file :
    (d.locate site.file).dropLast = d.locate root ++ sh.shelfDirs (sh.digest key) := by
  rw [locate_file hroot hsite, shelf, ← List.append_assoc, List.dropLast_concat]

/-- No file is in the way to an object. -/
theorem way_file (l : Location) (hl : l <+: (d.locate site.file).dropLast) (i : Nat) :
    d.node? l ≠ some (.file i) := by
  rw [dropLast_locate_file hroot hsite] at hl
  exact hs.way_shelfDirs (sh.isDigest_digest key) hl i

/-- The path of an object that is stored leads to it. -/
theorem leads_file {b : ByteArray} (hm : m (sh.digest key) = some b) :
    d.Leads site.file (d.locate site.file) := by
  obtain ⟨hfollow, hslash⟩ := followable_file hroot hsite
  have hview := view_file hroot hs hsite
  apply Disk.leads_of_dirs hfollow hslash
  intro l hl
  refine Disk.view_eq_dir.mp (hs.wellFormed.closed.dir_of_prefix
    (hl.trans (List.dropLast_prefix _)) ?_ (by simp [hview, hm]))
  rintro rfl
  exact hfollow.locate_not_isPrefix d hl

/-- Following the path of an object that is not stored finds nothing. -/
theorem resolve_file (hm : m (sh.digest key) = none) :
    d.resolve site.file = .error (.system .noEntry) := by
  have hview := view_file hroot hs hsite
  rw [hm] at hview
  exact Disk.resolve_of_missing (followable_file hroot hsite).1 (way_file hroot hs hsite)
    (Disk.view_eq_none.mp hview)

end looking

variable (hroot : Root root d) (hs : Shelved sh root m d)

include hroot hs

theorem reply_has : (sh.store root atomic).reply (.has key) d =
    .present (m (sh.digest key)).isSome := by
  obtain ⟨site, hsite⟩ := exists_site sh root atomic key
  have hview := view_file hroot hs hsite
  cases hm : m (sh.digest key) with
  | none => exact Store.reply_has_of_missing hsite (resolve_file hroot hs hsite hm)
  | some b =>
    rw [hm] at hview
    exact Store.reply_has_of_file hsite (leads_file hroot hs hsite hm) hview

theorem reply_read : (sh.store root atomic).reply (.read key) d =
    match m (sh.digest key) with
    | some b => .contents b.size b
    | none => .failed (.notFound key) := by
  obtain ⟨site, hsite⟩ := exists_site sh root atomic key
  have hview := view_file hroot hs hsite
  cases hm : m (sh.digest key) with
  | none => exact Store.reply_read_of_missing hsite (resolve_file hroot hs hsite hm)
  | some b =>
    rw [hm] at hview
    exact Store.reply_read_eq_contents.mpr
      ⟨rfl, site, _, hsite, leads_file hroot hs hsite hm, hview⟩

/-! ## Writing -/

/-- Nothing is in the way of an object. -/
theorem clear_site (hne : root.names ≠ []) {site : Site}
    (hsite : (sh.store root atomic).site key = .ok site) : site.Clear d where
  file := (followable_file hroot hsite).1
  slash := (followable_file hroot hsite).2
  dir := followable_dir hroot hsite hne
  way l hl i := by
    rw [locate_dir hroot hsite] at hl
    exact hs.way_shelfDirs (sh.isDigest_digest key) hl i
  place := by
    rw [locate_file hroot hsite]
    exact hs.view_shelf_ne_dir (sh.isDigest_digest key)
  temp := by
    rw [locate_dir hroot hsite, List.append_assoc, ← Disk.view_eq_none]
    exact hs.view_of_not_mem_shelf (fun h hh => hh.tempName_not_mem_shelf 0)
      (List.mem_append_right _ List.mem_cons_self)
  room := room_dir hroot hsite

theorem write_refines (hne : root.names ≠ []) (deliveries : List Delivery)
    (failure : Option IoError) :
    (sh.store root atomic).reply (.write key (.reader deliveries failure)) d =
        (m.perform sh atomic (.write key deliveries failure)).1 ∧
      Shelved sh root (m.perform sh atomic (.write key deliveries failure)).2
        ((sh.store root atomic).next (.write key (.reader deliveries failure)) d) := by
  obtain ⟨site, hsite⟩ := exists_site sh root atomic key
  obtain ⟨hreply, hview⟩ := Store.write_of_clear hroot.plain hs.wellFormed hsite
    (clear_site hroot hs hne hsite) deliveries failure
  rw [locate_file hroot hsite, locate_dir hroot hsite] at hview
  have hgrown := hs.grow (sh.isDigest_digest key)
    (Store.next_unshared _ _ hs.wellFormed.toUnshared) (Action.run_base _ d) hview
  rw [hreply, Catalog.perform]
  cases hfailure : (Source.reader deliveries failure).failure? with
  | none =>
    rw [if_pos fun _ => hfailure] at hgrown
    exact ⟨rfl, hgrown⟩
  | some e =>
    refine ⟨rfl, ?_⟩
    cases atomic with
    | true =>
      rw [if_neg (by simp [hfailure])] at hgrown
      exact hgrown
    | false =>
      rw [if_pos (by simp)] at hgrown
      exact hgrown

/-- Writing bytes is writing a stream that delivers them at once. -/
theorem writeBytes_refines (hne : root.names ≠ []) (bytes : ByteArray) :
    (sh.store root atomic).reply (.write key (.ofBytes bytes)) d =
        (m.perform sh atomic (.writeBytes key bytes)).1 ∧
      Shelved sh root (m.perform sh atomic (.writeBytes key bytes)).2
        ((sh.store root atomic).next (.write key (.ofBytes bytes)) d) := by
  have hperform : m.perform sh atomic (.writeBytes key bytes) =
      m.perform sh atomic (.write key [.bytes bytes] none) := by
    rw [Catalog.perform, Catalog.perform, Source.collected_bytes, Source.failure?_reader_none]
  rw [hperform]
  exact write_refines hroot hs hne [.bytes bytes] none

/-! ## Removing -/

variable (atomic key) in
/-- A deletion removes what lies at or below the first directory of a digest. -/
theorem view_delete :
    ((Store.delete (sh.store root atomic) key).run d).1 = .ok () ∧
      ∀ l, ((Store.delete (sh.store root atomic) key).run d).2.view l =
        if d.locate root ++ sh.cutAt (sh.digest key) <+: l then none else d.view l := by
  have hdigest := sh.isDigest_digest key
  rw [cutAt]
  by_cases hdepth : sh.depth = 0
  · -- blocks are longer than digests, and the file is removed by itself
    obtain ⟨site, hsite⟩ := exists_site sh root atomic key
    obtain ⟨hfollow, hslash⟩ := followable_file hroot hsite
    have hfirst : site.placement.firstSegment = "" := by
      rw [(Store.site_eq_ok hsite).1]
      exact (sh.firstSegment_place key).trans (if_pos hdepth)
    have hempty : ("" : String).isEmpty = true := rfl
    rw [Store.delete_eq hsite, hfirst, if_pos hempty, if_pos hdepth, ← locate_file hroot hsite]
    refine Store.view_removing_file hfollow hslash hs.wellFormed.closed (way_file hroot hs hsite) ?_
    rw [ne_eq, ← Disk.view_eq_dir, locate_file hroot hsite]
    exact hs.view_shelf_ne_dir hdigest
  · obtain ⟨rest, hrest⟩ := shelfDirs_eq_cons hdepth hdigest
    rw [run_delete_of_depth key hdepth, if_neg hdepth, ← block,
      ← Disk.locate_join (isEntryName_block key hdepth)]
    refine Store.view_removing_tree (followable_block key hdepth hroot).1 hs.wellFormed.closed
      fun l hl => hs.way_shelfDirs hdigest (hl.trans ?_)
    rw [Disk.locate_join (isEntryName_block key hdepth), hrest, List.prefix_append_right_inj,
      List.cons_prefix_cons]
    exact ⟨rfl, List.nil_prefix⟩

theorem delete_refines :
    (sh.store root atomic).reply (.delete key) d = (m.perform sh atomic (.delete key)).1 ∧
      Shelved sh root (m.perform sh atomic (.delete key)).2
        ((sh.store root atomic).next (.delete key) d) := by
  obtain ⟨hok, hview⟩ := view_delete atomic key hroot hs
  rw [Store.reply_delete, hok]
  refine ⟨rfl, ?_⟩
  have hcut := hs.cut (fun _ _ hl hle => hl.trans hle)
    (fun _ hl => (List.prefix_append ..).trans hl)
    (Store.next_unshared _ (.delete key) hs.wellFormed.toUnshared) (Action.run_base _ d)
    (by rw [Store.next_delete]; exact hview)
  apply hcut.congr
  intro x hx
  simp only [Catalog.perform, List.prefix_append_right_inj,
    cutAt_isPrefix_shelf (sh.isDigest_digest key) hx]

theorem clear_refines (hne : root.names ≠ []) :
    ((sh.store root atomic).reply .clear d).Meets root (m.perform sh atomic .clear).1 ∧
      Shelved sh root (m.perform sh atomic .clear).2 ((sh.store root atomic).next .clear d) := by
  have hunshared := (sh.store root atomic).next_unshared .clear hs.wellFormed.toUnshared
  have hbase : ((sh.store root atomic).next .clear d).base = d.base := Action.run_base _ d
  have hclear : (sh.store root atomic).clear = Store.removing (.removeTree root) := rfl
  rw [Store.next_clear, hclear] at hunshared hbase
  rw [Store.reply_clear, Store.next_clear, hclear]
  by_cases hdot : root.Trimmed
  · obtain ⟨hok, hview⟩ := Store.view_removing_tree ⟨hroot.plain, hroot.accepted, hdot, hne⟩
      hs.wellFormed.closed hs.way
    rw [hok]
    refine ⟨Or.inl rfl, ?_⟩
    have hcut := hs.cut (fun _ _ hl hle => hl.trans hle) (fun _ hl => hl) hunshared hbase hview
    exact hcut.congr fun x _ => (if_pos (List.prefix_append ..)).symm
  · -- the root itself may be left, but no shelf
    obtain ⟨hend, hview⟩ := Store.view_removing_of_not_trimmed hroot.plain hroot.accepted hdot hne
      hs.wellFormed.closed hs.way
    constructor
    · rcases hend with hok | herror
      · rw [hok]
        exact Or.inl rfl
      · rw [herror]
        exact Or.inr ⟨hdot, rfl, rfl⟩
    · have hcut := hs.cut ?_ (fun _ hl => hl.1) hunshared hbase hview
      · refine hcut.congr fun x _ => (if_pos ⟨List.prefix_append .., ?_⟩).symm
        simp [shelf]
      · rintro l l' ⟨hle, hne⟩ hl'
        refine ⟨hle.trans hl', ?_⟩
        rintro rfl
        exact hne (hl'.eq_of_length_le hle.length_le)

/-! ## Runs -/

/-- Every use answers as on the catalog, and the disk goes on holding the catalog. -/
theorem perform_refines (hne : root.names ≠ []) (atomic : Bool) (act : Act) :
    ((sh.store root atomic).reply act.operation d).Meets root (m.perform sh atomic act).1 ∧
      Shelved sh root (m.perform sh atomic act).2 ((sh.store root atomic).next act.operation d) := by
  cases act with
  | has key =>
    refine ⟨Or.inl (reply_has hroot hs), ?_⟩
    rw [Act.operation, Store.next_has_eq]
    exact hs
  | read key =>
    rw [Act.operation, reply_read hroot hs, Store.next_read_eq, Catalog.perform]
    cases m (sh.digest key) with
    | none => exact ⟨Or.inl rfl, hs⟩
    | some b => exact ⟨Or.inl rfl, hs⟩
  | write key deliveries failure =>
    obtain ⟨hreply, hnext⟩ := write_refines hroot hs hne deliveries failure
    exact ⟨Or.inl hreply, hnext⟩
  | writeBytes key bytes =>
    obtain ⟨hreply, hnext⟩ := writeBytes_refines hroot hs hne bytes
    exact ⟨Or.inl hreply, hnext⟩
  | delete key =>
    obtain ⟨hreply, hnext⟩ := delete_refines hroot hs
    exact ⟨Or.inl hreply, hnext⟩
  | clear => exact clear_refines hroot hs hne

omit hroot hs

/-- The call of a use on a store at a root. -/
def call (sh : Sharding) (root : Path) (use : Bool × Act) : Call :=
  ⟨sh.store root use.1, use.2.operation⟩

/-- A run on a disk that holds a catalog answers as the catalog does. -/
theorem replies_refine (hne : root.names ≠ []) (uses : List (Bool × Act)) :
    ∀ {m : Catalog} {d : Disk}, Root root d → Shelved sh root m d →
      List.Forall₂ (Reply.Meets root) (d.replies (uses.map (sh.call root))) (m.replies sh uses) := by
  induction uses with
  | nil => intro m d _ _; exact List.Forall₂.nil
  | cons use uses ih =>
    intro m d hroot hs
    obtain ⟨hreply, hnext⟩ := perform_refines hroot hs hne use.1 use.2
    exact List.Forall₂.cons hreply (ih (hroot.of_base (Action.run_base _ d)) hnext)

/-- **A sharded store is a map from digests to bytes.**  Where there is nothing at the root
and no file above it, every run of uses, each with a way of writing of its own, is answered
as a catalog that is empty at first answers it, but for clearing at a root whose text ends
in a dot. -/
theorem sharded_refines_catalog (sh : Sharding) {root : Path} {d : Disk} (hd : d.WellFormed)
    (hroot : Root root d) (habsent : d.node? (d.locate root) = none)
    (hway : ∀ l, l <+: d.locate root → ∀ i, d.node? l ≠ some (.file i))
    (uses : List (Bool × Act)) :
    List.Forall₂ (Reply.Meets root) (d.replies (uses.map (sh.call root)))
        (Catalog.replies sh (fun _ => none) uses) ∧
      (root.Trimmed →
        d.replies (uses.map (sh.call root)) = Catalog.replies sh (fun _ => none) uses) := by
  -- the top is always there, so the root lies below it
  have hne : root.names ≠ [] := by
    intro hnil
    have habs : root.isAbsolute = true := by
      by_contra hrel
      exact hroot.plain.names_ne_nil (by simpa using hrel) hnil
    rw [Disk.locate, Disk.start, if_pos habs, hnil, List.append_nil, Disk.node?_nil] at habsent
    exact absurd habsent (by simp)
  have hshelved : Shelved sh root (fun _ => none) d := shelved_empty hd habsent hway
  have hreplies := replies_refine hne uses hroot hshelved
  refine ⟨hreplies, fun htrimmed => ?_⟩
  have hsame := hreplies.imp fun _ _ hmeets => hmeets.eq_of_trimmed htrimmed
  rwa [List.forall₂_eq_eq_eq] at hsame

/-- An object that is written, overwritten by half and deleted, in a store that is new. -/
theorem sharded_refines_catalog_lifetime :
    let root : Path := ⟨[0x73]⟩
    Disk.empty.WellFormed ∧ Root root Disk.empty ∧ root.Trimmed ∧
      Disk.empty.replies ([(true, .writeBytes "a" ⟨#[1, 2]⟩),
          (false, .write "a" [.bytes ⟨#[3]⟩, .interrupted] (some (.custom "cut off"))),
          (true, .read "a"), (false, .delete "a"), (false, .has "a"), (true, .clear)].map
            (standard.call root)) =
        [.written 2, .failed (.io (.custom "cut off")), .contents 1 ⟨#[3]⟩, .deleted,
          .present false, .cleared] := by
  intro root
  have hroot : Root root Disk.empty :=
    ⟨⟨by decide, by decide⟩, by decide, by decide, by decide⟩
  have htrimmed : root.Trimmed := by unfold Path.Trimmed; decide
  have hempty : (ByteArray.mk #[3]).isEmpty = false := rfl
  have hsize : (ByteArray.mk #[1, 2]).size = 2 := rfl
  have hsize' : (ByteArray.mk #[3]).size = 1 := rfl
  refine ⟨Disk.wellFormed_empty, hroot, htrimmed, ?_⟩
  rw [(sharded_refines_catalog standard Disk.wellFormed_empty hroot (by decide) ?_ _).2 htrimmed]
  · simp [Catalog.replies, Catalog.perform, Catalog.put, Source.failure?, Source.hasEnd,
      Source.collected, hempty, hsize, hsize']
  · intro l _ i
    rw [Disk.node?_empty]
    split_ifs <;> simp

/-- The exceptions are real.  A store whose root ends in a dot cannot be cleared once it has an
object, and a store whose root holds a zero byte cannot be looked at. -/
theorem replies_ne_catalog_replies :
    (let root : Path := ⟨[0x73, 0x2F, 0x2E]⟩
      let uses : List (Bool × Act) := [(false, .write "a" [] none), (false, .clear)]
      Disk.empty.WellFormed ∧ Root root Disk.empty ∧
        Disk.empty.node? (Disk.empty.locate root) = none ∧
        (∀ l i, Disk.empty.node? l ≠ some (.file i)) ∧
        Disk.empty.replies (uses.map (standard.call root)) ≠
          Catalog.replies standard (fun _ => none) uses) ∧
    (let root : Path := ⟨[0]⟩
      let uses : List (Bool × Act) := [(false, .has "a")]
      root.Plain ∧ Disk.empty.node? (Disk.empty.locate root) = none ∧
        Disk.empty.replies (uses.map (standard.call root)) ≠
          Catalog.replies standard (fun _ => none) uses) := by
  constructor
  · intro root uses
    have hfails : (Disk.empty.replies (uses.map (standard.call root))).map Reply.isFailed =
        [false, true] := by unfold root uses; decide +kernel
    refine ⟨Disk.wellFormed_empty, ⟨⟨by decide, by decide⟩, by decide, by decide, by decide⟩,
      by decide, fun l i => ?_, fun heq => ?_⟩
    · rw [Disk.node?_empty]
      split_ifs <;> simp
    · rw [heq] at hfails
      exact absurd hfails (by simp [uses, Catalog.replies, Catalog.perform, Reply.isFailed])
  · intro root uses
    have hfails : (Disk.empty.replies (uses.map (standard.call root))).map Reply.isFailed =
        [true] := by unfold root uses; decide +kernel
    refine ⟨⟨by decide, by decide⟩, by decide, fun heq => ?_⟩
    rw [heq] at hfails
    exact absurd hfails (by simp [uses, Catalog.replies, Catalog.perform, Reply.isFailed])

end BlobStore.Sharding
